import Mathlib.Data.List.Basic
import Fluent.Library.HashContainers
import Fluent.Library.Runs
import Fluent.Spacy.Hash

namespace Fluent.Knowledge

open Fluent.Library
open Fluent.Spacy (Text)

def u32Size : ℕ := 4294967296

structure WordHit where
  docId : ℕ
  lineNum : ℕ
deriving DecidableEq

structure DocRegistry where
  pathToId : HashMap Text ℕ
  idToPath : List Text

namespace DocRegistry

def new : DocRegistry := ⟨∅, []⟩

def getOrCreate (r : DocRegistry) (path : Text) : ℕ × DocRegistry :=
  match r.pathToId.lookup path with
  | some id => (id, r)
  | none =>
    let id := r.idToPath.length % u32Size
    (id, ⟨r.pathToId.insert path id, r.idToPath ++ [path]⟩)

def pathForId (r : DocRegistry) (id : ℕ) : Text := (r.idToPath[id]?).getD []

end DocRegistry

def lines (content : Text) : List Text :=
  let pieces := content.splitOn '\n'
  (pieces.dropLast.map fun line => if line.getLast? = some '\r' then line.dropLast else line) ++
    (pieces.getLast?.filter (· ≠ [])).toList

def tokens (line : Text) : List Text := (line.splitOnP fun c => !c.isAlphanum).filter (· ≠ [])

def splitFrom (current : Text) : Text → List Text
  | [] => if current = [] then [] else [current]
  | c :: rest =>
    if !c.isAlphanum then (if current = [] then [] else [current]) ++ splitFrom [] rest
    else if c.isUpper ∧ current ≠ [] ∧ rest.head?.any Char.isLower then current :: splitFrom [c] rest
    else splitFrom (current ++ [c]) rest

def splitIdentifier (ident : Text) : List Text := if ident.length < 2 then [] else splitFrom [] ident

/-- `str::to_lowercase`: the letters of ASCII are known. -/
structure Lowercase where
  lower : Text → Text
  ascii : ∀ t : Text, (∀ c ∈ t, c.toNat < 128) → lower t = t.lower
  noUpper : ∀ t : Text, ∀ c ∈ lower t, c.isUpper = false

structure WordIndex where
  index : HashMap Text (List WordHit)
  registry : DocRegistry
  fileWords : HashMap ℕ (Finset Text)

namespace WordIndex

def new : WordIndex := ⟨∅, .new, ∅⟩

def hitPath (ix : WordIndex) (hit : WordHit) : Text := ix.registry.pathForId hit.docId

def occurrences (content : Text) : List (Text × ℕ) :=
  (lines content).zipIdx.flatMap fun line => (tokens line.1).flatMap fun token =>
    if token.lower.length < 2 then [] else (splitIdentifier token ++ [token.lower]).map (·, line.2 % u32Size)

def indexOneToken (docId : ℕ) (st : HashMap Text (List WordHit) × Finset Text) (token : Text × ℕ) :
    HashMap Text (List WordHit) × Finset Text :=
  if token.1.length < 2 then st
  else (HashMap.pushEntry st.1 token.1 ⟨docId, token.2⟩, insert token.1 st.2)

def indexFile (ix : WordIndex) (path content : Text) : WordIndex :=
  let doc := ix.registry.getOrCreate path
  let st := (occurrences content).foldl (indexOneToken doc.1) (ix.index, ∅)
  ⟨st.1, doc.2, ix.fileWords.insert doc.1 st.2⟩

def search (lc : Lowercase) (ix : WordIndex) (word : Text) : List WordHit := (ix.index.lookup (lc.lower word)).getD []

def dropHits (docId : ℕ) (index : HashMap Text (List WordHit)) (word : Text) : HashMap Text (List WordHit) :=
  match index.lookup word with
  | none => index
  | some hits =>
    if hits.filter (·.docId ≠ docId) = [] then index.erase word else index.insert word (hits.filter (·.docId ≠ docId))

def removeFile (order : HashOrder Text) (ix : WordIndex) (path : Text) : WordIndex :=
  match ix.registry.pathToId.lookup path with
  | none => ix
  | some docId =>
    match ix.fileWords.lookup docId with
    | none => ix
    | some words =>
      { ix with
        index := (order.iter words).foldl (dropHits docId) ix.index
        fileWords := ix.fileWords.erase docId }

end WordIndex

namespace DocRegistry

structure WF (r : DocRegistry) : Prop where
  ids : ∀ path id, r.pathToId.lookup path = some id ↔ r.idToPath[id]? = some path
  small : r.idToPath.length ≤ u32Size

variable {r : DocRegistry} {path : Text}

theorem WF.lt (h : r.WF) {id : ℕ} (hid : r.pathToId.lookup path = some id) : id < r.idToPath.length :=
  (List.getElem?_eq_some_iff.mp ((h.ids path id).mp hid)).1

theorem WF.pathForId_eq (h : r.WF) {id : ℕ} (hid : r.pathToId.lookup path = some id) : r.pathForId id = path := by
  unfold pathForId
  rw [(h.ids path id).mp hid]
  rfl

structure Registers (r : DocRegistry) (path : Text) (id : ℕ) (r' : DocRegistry) : Prop where
  wf : r'.WF
  here : r'.pathToId.lookup path = some id
  others : ∀ path', path' ≠ path → r'.pathToId.lookup path' = r.pathToId.lookup path'
  kept : ∀ i < r.idToPath.length, r'.idToPath[i]? = r.idToPath[i]?
  length : r.idToPath.length ≤ r'.idToPath.length

theorem WF.getOrCreate (h : r.WF) (hroom : r.pathToId.lookup path = none → r.idToPath.length < u32Size) :
    Registers r path (r.getOrCreate path).1 (r.getOrCreate path).2 := by
  unfold DocRegistry.getOrCreate
  cases hpath : r.pathToId.lookup path with
  | some id => exact ⟨h, hpath, fun _ _ => rfl, fun _ _ => rfl, le_rfl⟩
  | none =>
    have hlt := hroom hpath
    dsimp only
    rw [Nat.mod_eq_of_lt hlt]
    refine ⟨⟨fun path' id => ?_, ?_⟩, Finmap.lookup_insert _, fun _ hne => Finmap.lookup_insert_of_ne _ hne,
      fun i hi => List.getElem?_append_left hi, ?_⟩
    · rw [HashMap.lookup_insert_ite]
      split_ifs with heq
      · subst heq
        constructor
        · rintro ⟨⟩
          exact List.getElem?_concat_length
        · intro hid
          rcases lt_trichotomy id r.idToPath.length with hi | rfl | hi
          · rw [List.getElem?_append_left hi, ← h.ids, hpath] at hid
            cases hid
          · rfl
          · rw [List.getElem?_eq_none (by rw [List.length_append, List.length_singleton]; omega)] at hid
            cases hid
      · rw [h.ids]
        constructor
        · intro hid
          rwa [List.getElem?_append_left (List.getElem?_eq_some_iff.mp hid).1]
        · intro hid
          rcases lt_trichotomy id r.idToPath.length with hi | rfl | hi
          · rwa [List.getElem?_append_left hi] at hid
          · rw [List.getElem?_concat_length] at hid
            exact absurd (Option.some.inj hid).symm heq
          · rw [List.getElem?_eq_none (by rw [List.length_append, List.length_singleton]; omega)] at hid
            cases hid
    · rw [List.length_append, List.length_singleton]
      exact hlt
    · rw [List.length_append]
      exact Nat.le_add_right _ _

end DocRegistry

namespace WordIndex

def hitsOf (index : HashMap Text (List WordHit)) (key : Text) : List WordHit := (index.lookup key).getD []

def entries (content : Text) : List (Text × ℕ) := (occurrences content).filter (2 ≤ ·.1.length)

def keys (content : Text) : Finset Text := ((entries content).map Prod.fst).toFinset

theorem foldl_indexOneToken (docId : ℕ) (toks : List (Text × ℕ)) (index : HashMap Text (List WordHit)) (ws : Finset Text) :
    (∀ key, hitsOf (toks.foldl (indexOneToken docId) (index, ws)).1 key =
      hitsOf index key ++ ((toks.filter (2 ≤ ·.1.length)).filter (·.1 = key)).map (⟨docId, ·.2⟩)) ∧
    (toks.foldl (indexOneToken docId) (index, ws)).2 = ws ∪ ((toks.filter (2 ≤ ·.1.length)).map Prod.fst).toFinset := by
  induction toks generalizing index ws with
  | nil => exact ⟨fun key => (List.append_nil _).symm, (Finset.union_empty ws).symm⟩
  | cons tok toks ih =>
    rw [List.foldl_cons]
    unfold indexOneToken
    split_ifs with hshort
    · have hdrop : (tok :: toks).filter (2 ≤ ·.1.length) = toks.filter (2 ≤ ·.1.length) :=
        List.filter_cons_of_neg fun hlong => absurd hshort (not_lt.mpr (of_decide_eq_true hlong))
      rw [hdrop]
      exact ih index ws
    · have hkeep : (tok :: toks).filter (2 ≤ ·.1.length) = tok :: toks.filter (2 ≤ ·.1.length) :=
        List.filter_cons_of_pos (decide_eq_true (not_lt.mp hshort))
      rw [hkeep]
      obtain ⟨hhits, hwords⟩ := ih (HashMap.pushEntry index tok.1 ⟨docId, tok.2⟩) (insert tok.1 ws)
      unfold indexOneToken at hhits hwords
      refine ⟨fun key => ?_, ?_⟩
      · rw [hhits]
        unfold hitsOf
        rw [HashMap.lookup_pushEntry]
        by_cases hkey : tok.1 = key
        · subst hkey
          simp
        · simp [hkey, Ne.symm hkey]
      · rw [hwords, List.map_cons, List.toFinset_cons, Finset.insert_union, Finset.union_insert]

theorem hitsOf_dropHits (docId : ℕ) (index : HashMap Text (List WordHit)) (word key : Text) :
    hitsOf (dropHits docId index word) key =
      if key = word then (hitsOf index key).filter (·.docId ≠ docId) else hitsOf index key := by
  unfold dropHits hitsOf
  cases hword : index.lookup word with
  | none =>
    split_ifs with h
    · rw [h, hword]
      rfl
    · rfl
  | some hits =>
    dsimp only
    by_cases h : key = word
    · subst h
      rw [if_pos rfl, hword, Option.getD_some]
      split_ifs with hnil
      · rw [Finmap.lookup_erase, hnil]
        rfl
      · rw [Finmap.lookup_insert]
        rfl
    · rw [if_neg h]
      split_ifs
      · rw [Finmap.lookup_erase_ne h]
      · rw [Finmap.lookup_insert_of_ne _ h]

theorem hitsOf_foldl_dropHits_of_notMem (docId : ℕ) {words : List Text} {key : Text} (h : key ∉ words)
    (index : HashMap Text (List WordHit)) : hitsOf (words.foldl (dropHits docId) index) key = hitsOf index key := by
  induction words generalizing index with
  | nil => rfl
  | cons word words ih =>
    obtain ⟨hne, hrest⟩ := List.ne_and_not_mem_of_not_mem_cons h
    rw [List.foldl_cons, ih hrest, hitsOf_dropHits, if_neg hne]

theorem hitsOf_foldl_dropHits_of_mem (docId : ℕ) {words : List Text} {key : Text} (h : key ∈ words)
    (index : HashMap Text (List WordHit)) :
    hitsOf (words.foldl (dropHits docId) index) key = (hitsOf index key).filter (·.docId ≠ docId) := by
  induction words generalizing index with
  | nil => cases h
  | cons word words ih =>
    rw [List.foldl_cons]
    by_cases hrest : key ∈ words
    · rw [ih hrest, hitsOf_dropHits]
      split_ifs
      · rw [List.filter_filter]
        simp only [Bool.and_self]
      · rfl
    · obtain heq := (List.mem_cons.mp h).resolve_right hrest
      rw [hitsOf_foldl_dropHits_of_notMem docId hrest, hitsOf_dropHits, if_pos heq]

def linesAt (ix : WordIndex) (path key : Text) : List ℕ :=
  ((hitsOf ix.index key).filter (ix.hitPath · = path)).map WordHit.lineNum

structure WF (ix : WordIndex) : Prop where
  registry : ix.registry.WF
  known : ∀ key, ∀ hit ∈ hitsOf ix.index key, hit.docId < ix.registry.idToPath.length

variable {ix : WordIndex} {path content : Text}

def HasRoom (ix : WordIndex) (path : Text) : Prop :=
  ix.registry.pathToId.lookup path = none → ix.registry.idToPath.length < u32Size

theorem hitsOf_indexFile (ix : WordIndex) (path content key : Text) :
    hitsOf (ix.indexFile path content).index key = hitsOf ix.index key ++
      ((entries content).filter (·.1 = key)).map (⟨(ix.registry.getOrCreate path).1, ·.2⟩) :=
  (foldl_indexOneToken _ _ _ _).1 key

theorem lookup_indexFile (ix : WordIndex) (path content : Text) (id : ℕ) :
    (ix.indexFile path content).fileWords.lookup id =
      if id = (ix.registry.getOrCreate path).1 then some (keys content) else ix.fileWords.lookup id := by
  have hwords := (foldl_indexOneToken (ix.registry.getOrCreate path).1 (occurrences content) ix.index ∅).2
  rw [Finset.empty_union] at hwords
  unfold indexFile
  rw [HashMap.lookup_insert_ite, hwords]
  rfl

theorem WF.indexFile (h : ix.WF) (hroom : ix.HasRoom path) : (ix.indexFile path content).WF := by
  have hreg := h.registry.getOrCreate hroom
  refine ⟨hreg.wf, fun key hit hhit => ?_⟩
  rw [hitsOf_indexFile, List.mem_append] at hhit
  rcases hhit with hhit | hhit
  · exact (h.known key hit hhit).trans_le hreg.length
  · obtain ⟨entry, -, rfl⟩ := List.mem_map.mp hhit
    exact hreg.wf.lt hreg.here

theorem linesAt_indexFile (h : ix.WF) (hroom : ix.HasRoom path) (path' key : Text) :
    (ix.indexFile path content).linesAt path' key = ix.linesAt path' key ++
      if path = path' then ((entries content).filter (·.1 = key)).map Prod.snd else [] := by
  have hreg := h.registry.getOrCreate hroom
  unfold linesAt
  rw [hitsOf_indexFile, List.filter_append, List.map_append]
  congr 1
  · refine congrArg (List.map _) (List.filter_congr fun hit hhit => ?_)
    unfold hitPath DocRegistry.pathForId
    rw [show (ix.indexFile path content).registry = (ix.registry.getOrCreate path).2 from rfl,
      hreg.kept _ (h.known key hit hhit)]
  · have hpath : ∀ line, (ix.indexFile path content).hitPath ⟨(ix.registry.getOrCreate path).1, line⟩ = path :=
      fun line => hreg.wf.pathForId_eq hreg.here
    split_ifs with heq
    · rw [List.filter_eq_self.mpr, List.map_map]
      · rfl
      · intro hit hhit
        obtain ⟨entry, -, rfl⟩ := List.mem_map.mp hhit
        rw [hpath, heq]
        exact decide_eq_true rfl
    · rw [List.filter_eq_nil_iff.mpr, List.map_nil]
      intro hit hhit
      obtain ⟨entry, -, rfl⟩ := List.mem_map.mp hhit
      rw [hpath]
      simpa using heq

def wordsOf (ix : WordIndex) (path : Text) : Option (Finset Text) :=
  (ix.registry.pathToId.lookup path).bind ix.fileWords.lookup

theorem wordsOf_indexFile (h : ix.WF) (hroom : ix.HasRoom path) (path' : Text) :
    (ix.indexFile path content).wordsOf path' = if path = path' then some (keys content) else ix.wordsOf path' := by
  have hreg := h.registry.getOrCreate hroom
  unfold wordsOf
  rw [show (ix.indexFile path content).registry = (ix.registry.getOrCreate path).2 from rfl]
  split_ifs with heq
  · subst heq
    rw [hreg.here, Option.bind_some, lookup_indexFile, if_pos rfl]
  · rw [hreg.others path' (Ne.symm heq)]
    cases hpath' : ix.registry.pathToId.lookup path' with
    | none => rfl
    | some id =>
      rw [Option.bind_some, Option.bind_some, lookup_indexFile, if_neg]
      rintro rfl
      have hother := hreg.others path' (Ne.symm heq)
      rw [hpath', hreg.wf.ids] at hother
      exact heq (Option.some.inj (((hreg.wf.ids _ _).mp hreg.here).symm.trans hother))

variable {order : HashOrder Text}

theorem removeFile_cases (order : HashOrder Text) (ix : WordIndex) (path : Text) :
    (ix.wordsOf path = none ∧ ix.removeFile order path = ix) ∨
      ∃ id words, ix.registry.pathToId.lookup path = some id ∧ ix.fileWords.lookup id = some words ∧
        ix.removeFile order path = ⟨(order.iter words).foldl (dropHits id) ix.index, ix.registry, ix.fileWords.erase id⟩ := by
  unfold removeFile wordsOf
  cases hpath : ix.registry.pathToId.lookup path with
  | none => exact .inl ⟨rfl, rfl⟩
  | some id =>
    dsimp only
    cases hwords : ix.fileWords.lookup id with
    | none => exact .inl ⟨hwords, rfl⟩
    | some words => exact .inr ⟨id, words, rfl, hwords, rfl⟩

theorem WF.removeFile (h : ix.WF) : (ix.removeFile order path).WF := by
  rcases removeFile_cases order ix path with ⟨-, heq⟩ | ⟨id, words, -, -, heq⟩
  · rwa [heq]
  · rw [heq]
    refine ⟨h.registry, fun key hit hhit => h.known key hit ?_⟩
    by_cases hkey : key ∈ order.iter words
    · rw [hitsOf_foldl_dropHits_of_mem id hkey] at hhit
      exact (List.mem_filter.mp hhit).1
    · rwa [hitsOf_foldl_dropHits_of_notMem id hkey] at hhit

theorem WF.docId_eq_iff (h : ix.WF) {id : ℕ} (hid : ix.registry.pathToId.lookup path = some id) {key : Text}
    {hit : WordHit} (hhit : hit ∈ hitsOf ix.index key) : hit.docId = id ↔ ix.hitPath hit = path := by
  constructor
  · rintro rfl
    exact h.registry.pathForId_eq hid
  · intro hpath
    have hat := List.getElem?_eq_getElem (h.known key hit hhit)
    unfold hitPath DocRegistry.pathForId at hpath
    rw [hat, Option.getD_some] at hpath
    rw [hpath, ← h.registry.ids, hid] at hat
    exact (Option.some.inj hat).symm

theorem linesAt_removeFile (h : ix.WF) (path' key : Text) :
    (ix.removeFile order path).linesAt path' key =
      if path = path' ∧ ∃ words, ix.wordsOf path = some words ∧ key ∈ words then [] else ix.linesAt path' key := by
  rcases removeFile_cases order ix path with ⟨hnone, heq⟩ | ⟨id, words, hid, hwords, heq⟩
  · rw [heq, if_neg]
    rintro ⟨-, words, hsome, -⟩
    rw [hnone] at hsome
    cases hsome
  · have hof : ix.wordsOf path = some words := by
      unfold wordsOf
      rw [hid]
      exact hwords
    rw [heq]
    unfold linesAt
    by_cases hkey : key ∈ words
    · rw [hitsOf_foldl_dropHits_of_mem id ((order.mem_iter _ _).mpr hkey)]
      split_ifs with hboth
      · refine List.map_eq_nil_iff.mpr (List.filter_eq_nil_iff.mpr fun hit hhit => ?_)
        obtain ⟨hhit, hne⟩ := List.mem_filter.mp hhit
        intro hpath
        exact of_decide_eq_true hne ((h.docId_eq_iff hid hhit).mpr ((of_decide_eq_true hpath).trans hboth.1.symm))
      · rw [List.filter_filter]
        refine congrArg (List.map _) (List.filter_congr fun hit hhit => ?_)
        have hne : path ≠ path' := fun hpath => hboth ⟨hpath, words, hof, hkey⟩
        by_cases hpath : ix.hitPath hit = path'
        · have hdoc : hit.docId ≠ id := fun hdoc => hne (((h.docId_eq_iff hid hhit).mp hdoc).symm.trans hpath)
          rw [decide_eq_true hdoc, Bool.and_true]
          rfl
        · have hpath' : ix.registry.pathForId hit.docId ≠ path' := hpath
          simp [hitPath, hpath']
    · rw [hitsOf_foldl_dropHits_of_notMem id fun hmem => hkey ((order.mem_iter _ _).mp hmem), if_neg]
      · rfl
      · rintro ⟨-, words', hof', hkey'⟩
        rw [hof] at hof'
        cases hof'
        exact hkey hkey'

theorem wordsOf_removeFile (h : ix.WF) (path' : Text) :
    (ix.removeFile order path).wordsOf path' = if path = path' then none else ix.wordsOf path' := by
  rcases removeFile_cases order ix path with ⟨hnone, heq⟩ | ⟨id, words, hid, hwords, heq⟩
  · rw [heq]
    split_ifs with hpath
    · rw [← hpath, hnone]
    · rfl
  · rw [heq]
    unfold wordsOf
    dsimp only
    split_ifs with hpath
    · rw [← hpath, hid, Option.bind_some, Finmap.lookup_erase]
    · cases hid' : ix.registry.pathToId.lookup path' with
      | none => rfl
      | some id' =>
        rw [Option.bind_some, Option.bind_some, Finmap.lookup_erase_ne]
        rintro rfl
        rw [h.registry.ids] at hid hid'
        exact hpath (Option.some.inj (hid.symm.trans hid'))

theorem mem_search_iff (lc : Lowercase) (ix : WordIndex) (word path : Text) (line : ℕ) :
    (∃ hit ∈ ix.search lc word, ix.hitPath hit = path ∧ hit.lineNum = line) ↔ line ∈ ix.linesAt path (lc.lower word) := by
  unfold linesAt
  rw [List.mem_map]
  constructor
  · rintro ⟨hit, hhit, hpath, hline⟩
    exact ⟨hit, List.mem_filter.mpr ⟨hhit, decide_eq_true hpath⟩, hline⟩
  · rintro ⟨hit, hhit, hline⟩
    obtain ⟨hhit, hpath⟩ := List.mem_filter.mp hhit
    exact ⟨hit, hhit, of_decide_eq_true hpath, hline⟩

theorem exists_search_iff (lc : Lowercase) (ix : WordIndex) (word path : Text) :
    (∃ hit ∈ ix.search lc word, ix.hitPath hit = path) ↔ ix.linesAt path (lc.lower word) ≠ [] := by
  constructor
  · rintro ⟨hit, hhit, hpath⟩
    exact List.ne_nil_of_mem ((mem_search_iff lc ix word path hit.lineNum).mp ⟨hit, hhit, hpath, rfl⟩)
  · intro hne
    obtain ⟨line, hline⟩ := List.exists_mem_of_ne_nil _ hne
    obtain ⟨hit, hhit, hpath, -⟩ := (mem_search_iff lc ix word path line).mpr hline
    exact ⟨hit, hhit, hpath⟩

end WordIndex

namespace WordIndex

def fileTokens (content : Text) : Finset Text :=
  (((lines content).flatMap fun line => (tokens line).map Text.lower).filter (2 ≤ ·.length)).toFinset

theorem mem_fileTokens {content word : Text} :
    word ∈ fileTokens content ↔ ∃ line ∈ lines content, ∃ token ∈ tokens line, token.lower = word ∧ 2 ≤ word.length := by
  unfold fileTokens
  rw [List.mem_toFinset, List.mem_filter, List.mem_flatMap]
  constructor
  · rintro ⟨⟨line, hline, hword⟩, hlen⟩
    obtain ⟨token, htoken, hlower⟩ := List.mem_map.mp hword
    exact ⟨line, hline, token, htoken, hlower, of_decide_eq_true hlen⟩
  · rintro ⟨line, hline, token, htoken, hlower, hlen⟩
    exact ⟨⟨line, hline, List.mem_map.mpr ⟨token, htoken, hlower⟩⟩, decide_eq_true hlen⟩

theorem mem_occurrences {content key : Text} {n : ℕ} :
    (key, n) ∈ occurrences content ↔ ∃ i line token, (lines content)[i]? = some line ∧ token ∈ tokens line ∧
      2 ≤ token.lower.length ∧ (key ∈ splitIdentifier token ∨ key = token.lower) ∧ i % u32Size = n := by
  unfold occurrences
  rw [List.mem_flatMap]
  constructor
  · rintro ⟨⟨line, i⟩, hline, hmem⟩
    obtain ⟨token, htoken, hmem⟩ := List.mem_flatMap.mp hmem
    split_ifs at hmem with hlen
    · cases hmem
    · obtain ⟨key', hkey', heq⟩ := List.mem_map.mp hmem
      cases heq
      rw [List.mem_append, List.mem_singleton] at hkey'
      exact ⟨i, line, token, List.mem_zipIdx_iff_getElem?.mp hline, htoken, not_lt.mp hlen, hkey', rfl⟩
  · rintro ⟨i, line, token, hline, htoken, hlen, hkey, rfl⟩
    refine ⟨(line, i), List.mem_zipIdx_iff_getElem?.mpr hline, List.mem_flatMap.mpr ⟨token, htoken, ?_⟩⟩
    rw [if_neg (not_lt.mpr hlen)]
    refine List.mem_map.mpr ⟨key, ?_, rfl⟩
    rwa [List.mem_append, List.mem_singleton]

theorem mem_entries {content key : Text} {n : ℕ} :
    (key, n) ∈ entries content ↔ (key, n) ∈ occurrences content ∧ 2 ≤ key.length := by
  unfold entries
  rw [List.mem_filter, decide_eq_true_iff]

/-- A word of the line, in lower case, or a part of one. -/
def WrittenOn (content : Text) (n : ℕ) (key : Text) : Prop :=
  2 ≤ key.length ∧ ∃ i line token, (lines content)[i]? = some line ∧ token ∈ tokens line ∧
    2 ≤ token.lower.length ∧ (key ∈ splitIdentifier token ∨ key = token.lower) ∧ i % u32Size = n

theorem mem_entries_iff {content key : Text} {n : ℕ} : (key, n) ∈ entries content ↔ WrittenOn content n key :=
  mem_entries.trans ((and_congr_left' mem_occurrences).trans and_comm)

theorem mem_keys {content key : Text} : key ∈ keys content ↔ ∃ n, (key, n) ∈ entries content := by
  unfold keys
  rw [List.mem_toFinset, List.mem_map]
  exact ⟨fun ⟨entry, hentry, heq⟩ => ⟨entry.2, heq ▸ hentry⟩, fun ⟨n, hn⟩ => ⟨_, hn, rfl⟩⟩

theorem fileTokens_subset_keys (content : Text) : fileTokens content ⊆ keys content := by
  intro word hword
  obtain ⟨line, hline, token, htoken, rfl, hlen⟩ := mem_fileTokens.mp hword
  obtain ⟨i, hi⟩ := List.mem_iff_getElem?.mp hline
  exact mem_keys.mpr ⟨_, mem_entries.mpr ⟨mem_occurrences.mpr ⟨i, line, token, hi, htoken, hlen, .inr rfl, rfl⟩, hlen⟩⟩

def Ascii (t : Text) : Prop := ∀ c ∈ t, c.toNat < 128

theorem toNat_lt_of_le {c d : Char} (h : c.val ≤ d.val) (hd : d.toNat < 128) : c.toNat < 128 :=
  Nat.lt_of_le_of_lt (UInt32.le_iff_toNat_le.mp h) hd

theorem isUpper_lt {c : Char} (h : c.isUpper = true) : c.toNat < 128 :=
  toNat_lt_of_le (of_decide_eq_true h).2 (by decide)

theorem isAlphanum_lt {c : Char} (h : c.isAlphanum = true) : c.toNat < 128 := by
  rcases Bool.or_eq_true_iff.mp (show (c.isAlpha || c.isDigit) = true from h) with hletter | hdigit
  · rcases Bool.or_eq_true_iff.mp (show (c.isUpper || c.isLower) = true from hletter) with hupper | hlower
    · exact isUpper_lt hupper
    · have hlower : (decide (c.val ≥ 'a'.val) && decide (c.val ≤ 'z'.val)) = true := hlower
      exact toNat_lt_of_le (of_decide_eq_true (Bool.and_eq_true_iff.mp hlower).2) (by decide)
  · have hdigit : (decide (c.val ≥ '0'.val) && decide (c.val ≤ '9'.val)) = true := hdigit
    exact toNat_lt_of_le (of_decide_eq_true (Bool.and_eq_true_iff.mp hdigit).2) (by decide)

theorem of_mem_splitOnP {p : Char → Bool} {c : Char} {piece text : Text} (h : piece ∈ text.splitOnP p)
    (hc : c ∈ piece) : p c = false := by
  induction text generalizing piece with
  | nil =>
    rw [List.splitOnP_nil, List.mem_singleton] at h
    rw [h] at hc
    cases hc
  | cons x xs ih =>
    rw [List.splitOnP_cons_eq_if_modifyHead] at h
    split_ifs at h with hx
    · rcases List.mem_cons.mp h with rfl | h
      · cases hc
      · exact ih h hc
    · cases hpieces : xs.splitOnP p with
      | nil => exact absurd hpieces (List.splitOnP_ne_nil _ _)
      | cons first rest =>
        rw [hpieces] at h ih
        rcases List.mem_cons.mp h with rfl | h
        · rcases List.mem_cons.mp hc with rfl | hc
          · exact Bool.eq_false_iff.mpr hx
          · exact ih List.mem_cons_self hc
        · exact ih (List.mem_cons_of_mem _ h) hc

theorem ascii_token {token line : Text} (h : token ∈ tokens line) : Ascii token := by
  intro c hc
  have hnot := of_mem_splitOnP (List.mem_filter.mp h).1 hc
  exact isAlphanum_lt (by simpa using hnot)

theorem ascii_splitFrom {part ident current : Text} (hcurrent : Ascii current) (hident : Ascii ident)
    (h : part ∈ splitFrom current ident) : Ascii part := by
  induction ident generalizing current with
  | nil =>
    unfold splitFrom at h
    split_ifs at h
    · cases h
    · rwa [List.mem_singleton.mp h]
  | cons c rest ih =>
    have hrest : Ascii rest := fun x hx => hident x (List.mem_cons_of_mem _ hx)
    have hc : Ascii [c] := fun x hx => hident x (List.mem_singleton.mp hx ▸ List.mem_cons_self)
    unfold splitFrom at h
    split_ifs at h with hsep hnil hnew
    · exact ih (fun _ hx => by cases hx) hrest h
    · rcases List.mem_cons.mp h with rfl | h
      · exact hcurrent
      · exact ih (fun _ hx => by cases hx) hrest h
    · rcases List.mem_cons.mp h with rfl | h
      · exact hcurrent
      · exact ih hc hrest h
    · exact ih (fun x hx => (List.mem_append.mp hx).elim (hcurrent x) (hc x)) hrest h

theorem ascii_part {part token : Text} (htoken : Ascii token) (h : part ∈ splitIdentifier token) : Ascii part := by
  unfold splitIdentifier at h
  split_ifs at h
  · cases h
  · exact ascii_splitFrom (fun _ hx => by cases hx) htoken h

theorem toLower_of_not_isUpper {c : Char} (h : c.isUpper = false) : c.toLower = c := by
  unfold Char.toLower
  exact dif_neg (of_decide_eq_false h)

theorem isUpper_bounds {c : Char} (h : c.isUpper = true) : 65 ≤ c.toNat ∧ c.toNat ≤ 90 :=
  ⟨UInt32.le_iff_toNat_le.mp (of_decide_eq_true h).1, UInt32.le_iff_toNat_le.mp (of_decide_eq_true h).2⟩

theorem toNat_toLower {c : Char} (h : c.isUpper = true) : c.toLower.toNat = c.toNat + 32 := by
  have hbounds := isUpper_bounds h
  unfold Char.toLower
  rw [dif_pos (of_decide_eq_true h)]
  change (c.toNat + 32) % 4294967296 = c.toNat + 32
  omega

theorem isUpper_toLower (c : Char) : c.toLower.isUpper = false := by
  by_cases h : c.isUpper = true
  · rw [Bool.eq_false_iff]
    intro hup
    have hbounds := isUpper_bounds hup
    rw [toNat_toLower h] at hbounds
    have := isUpper_bounds h
    omega
  · rwa [toLower_of_not_isUpper (Bool.eq_false_iff.mpr h), Bool.eq_false_iff]

theorem lt_of_toLower_lt {c : Char} (h : c.toLower.toNat < 128) : c.toNat < 128 := by
  by_cases hup : c.isUpper = true
  · exact isUpper_lt hup
  · rwa [toLower_of_not_isUpper (Bool.eq_false_iff.mpr hup)] at h

theorem toLower_lt {c : Char} (h : c.toNat < 128) : c.toLower.toNat < 128 := by
  by_cases hup : c.isUpper = true
  · have hbounds := isUpper_bounds hup
    rw [toNat_toLower hup]
    omega
  · rwa [toLower_of_not_isUpper (Bool.eq_false_iff.mpr hup)]

theorem Ascii.lower {t : Text} (h : Ascii t) : Ascii t.lower := by
  intro c hc
  obtain ⟨x, hx, rfl⟩ := List.mem_map.mp hc
  exact toLower_lt (h x hx)

theorem Ascii.of_lower_eq {t u : Text} (h : Ascii u) (heq : t.lower = u.lower) : Ascii t := by
  intro c hc
  exact lt_of_toLower_lt (h.lower _ (heq ▸ List.mem_map_of_mem hc))

def NoUpper (t : Text) : Prop := ∀ c ∈ t, c.isUpper = false

theorem noUpper_lower (t : Text) : NoUpper t.lower := by
  intro c hc
  obtain ⟨x, -, rfl⟩ := List.mem_map.mp hc
  exact isUpper_toLower x

theorem NoUpper.lower_eq (lc : Lowercase) {t : Text} (h : NoUpper t) (ha : Ascii t) : lc.lower t = t := by
  rw [lc.ascii t ha]
  exact (List.map_congr_left fun c hc => toLower_of_not_isUpper (h c hc)).trans (List.map_id t)

theorem ascii_key {content key : Text} (h : key ∈ keys content) : Ascii key := by
  obtain ⟨n, hn⟩ := mem_keys.mp h
  obtain ⟨_, line, token, -, htoken, -, hkey, -⟩ := mem_occurrences.mp (mem_entries.mp hn).1
  rcases hkey with hkey | rfl
  · exact ascii_part (ascii_token htoken) hkey
  · exact (ascii_token htoken).lower

end WordIndex

inductive WordOp where
  | indexFile (path content : Text)
  | removeFile (order : HashOrder Text) (path : Text)

def WordOp.path : WordOp → Text
  | .indexFile path _ => path
  | .removeFile _ path => path

structure WordHistory where
  ix : WordIndex
  contents : Text → Option Text

namespace WordHistory

open WordIndex

def new : WordHistory := ⟨.new, fun _ => none⟩

def step (s : WordHistory) : WordOp → WordHistory
  | .indexFile path content => ⟨s.ix.indexFile path content, Function.update s.contents path (some content)⟩
  | .removeFile order path => ⟨s.ix.removeFile order path, Function.update s.contents path none⟩

def Room (s : WordHistory) : WordOp → Prop
  | .indexFile path _ => s.ix.HasRoom path
  | .removeFile _ _ => True

structure Inv (s : WordHistory) : Prop where
  wf : s.ix.WF
  words : ∀ path, s.ix.wordsOf path = (s.contents path).map keys

theorem inv_new : Inv new := by
  refine ⟨⟨⟨fun path id => ?_, Nat.zero_le _⟩, fun key hit hhit => by cases hhit⟩, fun path => rfl⟩
  rw [show new.ix.registry.pathToId.lookup path = none from Finmap.lookup_empty path]
  exact ⟨nofun, nofun⟩

theorem map_keys_update (contents : Text → Option Text) (path path' : Text) (value : Option Text) :
    (Function.update contents path value path').map keys =
      if path = path' then value.map keys else (contents path').map keys := by
  by_cases heq : path = path'
  · rw [if_pos heq, ← heq, Function.update_self]
  · rw [if_neg heq, Function.update_of_ne (Ne.symm heq)]

theorem Inv.step {s : WordHistory} {op : WordOp} (h : Inv s) (hroom : s.Room op) : Inv (s.step op) := by
  cases op with
  | indexFile path content =>
    refine ⟨h.wf.indexFile hroom, fun path' => (wordsOf_indexFile h.wf hroom path').trans ?_⟩
    rw [h.words]
    exact (map_keys_update s.contents path path' (some content)).symm
  | removeFile order path =>
    refine ⟨h.wf.removeFile, fun path' => (wordsOf_removeFile h.wf path').trans ?_⟩
    rw [h.words]
    exact (map_keys_update s.contents path path' none).symm

/-- A search finds a file exactly for the words of its latest content. -/
def Exact (lc : Lowercase) (s : WordHistory) : Prop :=
  ∀ path word, (∃ hit ∈ s.ix.search lc word, s.ix.hitPath hit = path) ↔
    ∃ content, s.contents path = some content ∧ lc.lower word ∈ fileTokens content

def Safe (s : WordHistory) : WordOp → Prop
  | .indexFile path content =>
    (∀ n key, WrittenOn content n key → NoUpper key → key ∈ fileTokens content) ∧
      ∀ old, s.contents path = some old → fileTokens old ⊆ fileTokens content
  | .removeFile _ _ => True

variable {s : WordHistory} (lc : Lowercase)

theorem map_filter_ne_nil_iff {content key : Text} :
    ((entries content).filter (·.1 = key)).map Prod.snd ≠ [] ↔ key ∈ keys content := by
  rw [Ne, List.map_eq_nil_iff, List.filter_eq_nil_iff, mem_keys]
  constructor
  · intro h
    by_contra hno
    exact h fun entry hentry heq => hno ⟨entry.2, of_decide_eq_true heq ▸ hentry⟩
  · rintro ⟨n, hn⟩ h
    exact h (key, n) hn (decide_eq_true rfl)

theorem exists_hit_indexFile_iff (h : Inv s) (hexact : Exact lc s) {path content : Text}
    (hroom : s.ix.HasRoom path) (path' word : Text) :
    (∃ hit ∈ (s.ix.indexFile path content).search lc word, (s.ix.indexFile path content).hitPath hit = path') ↔
      (∃ old, s.contents path' = some old ∧ lc.lower word ∈ fileTokens old) ∨
        path = path' ∧ lc.lower word ∈ keys content := by
  rw [exists_search_iff, linesAt_indexFile h.wf hroom, ← hexact, exists_search_iff, Ne, List.append_eq_nil_iff,
    not_and_or]
  refine or_congr Iff.rfl ?_
  split_ifs with heq
  · exact map_filter_ne_nil_iff.trans ⟨fun hkey => ⟨heq, hkey⟩, And.right⟩
  · exact ⟨fun hne => absurd rfl hne, fun hboth => absurd hboth.1 heq⟩

theorem exact_indexFile_iff (h : Inv s) (hexact : Exact lc s) {path content : Text}
    (hroom : s.ix.HasRoom path) :
    Exact lc (s.step (.indexFile path content)) ↔ s.Safe (.indexFile path content) := by
  have hhits := @exists_hit_indexFile_iff s lc h hexact path content hroom
  constructor
  · intro hafter
    have hhere : ∀ word, ((∃ old, s.contents path = some old ∧ lc.lower word ∈ fileTokens old) ∨
        lc.lower word ∈ keys content) → lc.lower word ∈ fileTokens content := by
      intro word hword
      obtain ⟨content', hcontent', hmem⟩ := (hafter path word).mp
        ((hhits path word).mpr (hword.imp_right fun hkey => ⟨rfl, hkey⟩))
      rw [show (s.step (.indexFile path content)).contents path = some content from Function.update_self ..] at hcontent'
      cases hcontent'
      exact hmem
    constructor
    · intro n key hwritten hlow
      have hkey := mem_keys.mpr ⟨n, mem_entries_iff.mpr hwritten⟩
      have heq := hlow.lower_eq lc (ascii_key hkey)
      have := hhere key (.inr (heq.symm ▸ hkey))
      rwa [heq] at this
    · intro old hold word hword
      obtain ⟨line, hline, token, htoken, hlower, -⟩ := mem_fileTokens.mp hword
      have heq : lc.lower word = word := by
        rw [← hlower]
        exact (noUpper_lower token).lower_eq lc (ascii_token htoken).lower
      have := hhere word (.inl ⟨old, hold, heq.symm ▸ hword⟩)
      rwa [heq] at this
  · rintro ⟨hkeys, hold⟩ path' word
    refine (hhits path' word).trans ?_
    by_cases heq : path' = path
    · subst heq
      rw [show (s.step (.indexFile path' content)).contents path' = some content from Function.update_self ..]
      constructor
      · rintro (⟨old, hsome, hmem⟩ | ⟨-, hkey⟩)
        · exact ⟨content, rfl, hold old hsome hmem⟩
        · obtain ⟨n, hn⟩ := mem_keys.mp hkey
          exact ⟨content, rfl, hkeys n _ (mem_entries_iff.mp hn) (lc.noUpper word)⟩
      · rintro ⟨content', hsome, hmem⟩
        cases hsome
        exact .inr ⟨rfl, fileTokens_subset_keys content hmem⟩
    · rw [show (s.step (.indexFile path content)).contents path' = s.contents path' from
        Function.update_of_ne heq ..]
      exact or_iff_left fun hboth => heq hboth.1.symm

theorem Exact.removeFile (h : Inv s) (hexact : Exact lc s) (order : HashOrder Text) (path : Text) :
    Exact lc (s.step (.removeFile order path)) := by
  intro path' word
  refine (exists_search_iff lc (s.ix.removeFile order path) word path').trans ?_
  rw [linesAt_removeFile h.wf, h.words]
  by_cases heq : path' = path
  · subst heq
    rw [show (s.step (.removeFile order path')).contents path' = none from Function.update_self ..]
    refine ⟨fun hne => ?_, nofun⟩
    split_ifs at hne with hboth
    · exact absurd rfl hne
    · obtain ⟨content, hsome, hmem⟩ := (hexact path' word).mp ((exists_search_iff lc s.ix word path').mpr hne)
      refine absurd ⟨rfl, keys content, ?_, fileTokens_subset_keys content hmem⟩ hboth
      rw [hsome]
      rfl
  · rw [show (s.step (.removeFile order path)).contents path' = s.contents path' from Function.update_of_ne heq ..,
      if_neg fun hboth => heq hboth.1.symm, ← exists_search_iff]
    exact hexact path' word

theorem exact_new : Exact lc new := by
  intro path word
  constructor
  · rintro ⟨hit, hhit, -⟩
    unfold WordIndex.search at hhit
    rw [show new.ix.index.lookup (lc.lower word) = none from Finmap.lookup_empty _] at hhit
    cases hhit
  · rintro ⟨content, hsome, -⟩
    cases hsome

theorem search_exact_iff (lc : Lowercase) (ops : List WordOp) (hroom : Respects step Room new ops) :
    Along step (Exact lc) new ops ↔ Respects step Safe new ops := by
  refine along_iff_respects (fun s op h hop => Inv.step h hop) (fun s op h hexact hop => ?_) inv_new (exact_new lc) hroom
  cases op with
  | indexFile path content => exact exact_indexFile_iff lc h hexact hop
  | removeFile order path => exact iff_of_true (hexact.removeFile lc h order path) trivial

end WordHistory

def Lowercase.asciiOnly : Lowercase := ⟨Text.lower, fun _ _ => rfl, WordIndex.noUpper_lower⟩

namespace WordHistory

open WordIndex

theorem one_file_exact :
    Along step (Exact .asciiOnly) new [.indexFile ['p'] ['a', 'b'], .indexFile ['p'] ['a', 'b', ' ', 'c', 'd']] ↔
      Respects step Safe new [.indexFile ['p'] ['a', 'b'], .indexFile ['p'] ['a', 'b', ' ', 'c', 'd']] :=
  search_exact_iff .asciiOnly _ ⟨fun _ => by decide, fun _ => by decide +kernel, trivial⟩

theorem stale_word_found : ¬ Along step (Exact .asciiOnly) new
    [.indexFile ['p'] ['a', 'b'], .indexFile ['p'] ['c', 'd']] := by
  rintro ⟨-, -, hexact⟩
  have hhit : ∃ hit ∈ ((new.ix.indexFile ['p'] ['a', 'b']).indexFile ['p'] ['c', 'd']).search .asciiOnly ['a', 'b'],
      ((new.ix.indexFile ['p'] ['a', 'b']).indexFile ['p'] ['c', 'd']).hitPath hit = ['p'] :=
    ⟨⟨0, 0⟩, by decide +kernel, by decide +kernel⟩
  obtain ⟨content, hsome, hmem⟩ := (hexact ['p'] ['a', 'b']).mp hhit
  have hnow : ((new.step (.indexFile ['p'] ['a', 'b'])).step (.indexFile ['p'] ['c', 'd'])).contents ['p'] =
      some ['c', 'd'] := by
    decide +kernel
  rw [hnow] at hsome
  cases hsome
  exact absurd hmem (by decide +kernel)

theorem linesAt_step_of_ne {op : WordOp} (h : Inv s) (hroom : s.Room op) {path : Text} (hne : op.path ≠ path)
    (key : Text) : (s.step op).ix.linesAt path key = s.ix.linesAt path key := by
  cases op with
  | indexFile path' content =>
    exact (linesAt_indexFile h.wf hroom path key).trans (by rw [if_neg (show path' ≠ path from hne), List.append_nil])
  | removeFile order path' =>
    exact (linesAt_removeFile h.wf path key).trans (if_neg fun hboth => hne hboth.1)

theorem linesAt_foldl_of_ne {ops : List WordOp} (h : Inv s) (hroom : Respects step Room s ops) {path : Text}
    (hne : ∀ op ∈ ops, op.path ≠ path) (key : Text) :
    (ops.foldl step s).ix.linesAt path key = s.ix.linesAt path key := by
  induction ops generalizing s with
  | nil => rfl
  | cons op ops ih =>
    rw [List.foldl_cons, ih (h.step hroom.1) hroom.2 fun op' hop' => hne op' (List.mem_cons_of_mem _ hop'),
      linesAt_step_of_ne h hroom.1 (hne op List.mem_cons_self)]

theorem linesAt_once {before after : List WordOp} {path content : Text} (hbefore : ∀ op ∈ before, op.path ≠ path)
    (hafter : ∀ op ∈ after, op.path ≠ path)
    (hroom : Respects step Room new (before ++ .indexFile path content :: after)) (key : Text) :
    ((before ++ .indexFile path content :: after).foldl step new).ix.linesAt path key =
      ((entries content).filter (·.1 = key)).map Prod.snd := by
  obtain ⟨hroomBefore, hroomHere, hroomAfter⟩ := (respects_append _ _).mp hroom
  have hinv : Inv (before.foldl step new) := foldl_of_step (fun s op h hop => Inv.step h hop) inv_new hroomBefore
  have hnone : (before.foldl step new).ix.linesAt path key = [] := linesAt_foldl_of_ne inv_new hroomBefore hbefore key
  rw [List.foldl_append, List.foldl_cons, linesAt_foldl_of_ne (hinv.step hroomHere) hroomAfter hafter]
  refine (linesAt_indexFile hinv.wf hroomHere path key).trans ?_
  rw [hnone, if_pos rfl, List.nil_append]

def PartOn (content : Text) (n : ℕ) (part : Text) : Prop :=
  ∃ line token, (lines content)[n]? = some line ∧ token ∈ tokens line ∧ part ∈ splitIdentifier token ∧ 2 ≤ part.length

theorem parts_found_iff (lc : Lowercase) {before after : List WordOp} {path : Text} (content : Text)
    (hbefore : ∀ op ∈ before, op.path ≠ path) (hafter : ∀ op ∈ after, op.path ≠ path)
    (hroom : Respects step Room new (before ++ .indexFile path content :: after)) :
    (∀ n part, PartOn content n part → ∀ word : Text, word.lower = part.lower →
      ∃ hit ∈ (((before ++ .indexFile path content :: after).foldl step new).ix).search lc word,
        ((before ++ .indexFile path content :: after).foldl step new).ix.hitPath hit = path ∧ hit.lineNum = n) ↔
      ∀ n part, PartOn content n part → WrittenOn content n part.lower := by
  refine forall₂_congr fun n part => forall_congr' fun hpart => ?_
  obtain ⟨line, token, -, htoken, hsplit, -⟩ := hpart
  have hascii := ascii_part (ascii_token htoken) hsplit
  have hmem : n ∈ ((entries content).filter (·.1 = part.lower)).map Prod.snd ↔ (part.lower, n) ∈ entries content := by
    rw [List.mem_map]
    constructor
    · rintro ⟨entry, hentry, rfl⟩
      obtain ⟨hentry, heq⟩ := List.mem_filter.mp hentry
      exact of_decide_eq_true heq ▸ hentry
    · exact fun hentry => ⟨_, List.mem_filter.mpr ⟨hentry, decide_eq_true rfl⟩, rfl⟩
  have hword : ∀ word : Text, word.lower = part.lower → lc.lower word = part.lower := fun word heq =>
    (lc.ascii word (hascii.of_lower_eq heq)).trans heq
  simp only [mem_search_iff, linesAt_once hbefore hafter hroom]
  rw [← mem_entries_iff, ← hmem]
  constructor
  · intro hall
    have := hall part rfl
    rwa [hword part rfl] at this
  · intro hline word heq
    rwa [hword word heq]

def camelBeside : Text := "abCd cd".toList

theorem camelBeside_written {n : ℕ} {part : Text} (h : PartOn camelBeside n part) :
    WrittenOn camelBeside n part.lower := by
  obtain ⟨line, token, hline, htoken, hpart, hlen⟩ := h
  have hbeside : ∀ line ∈ lines camelBeside, ∀ token ∈ tokens line, ∀ part ∈ splitIdentifier token, 2 ≤ part.length →
      2 ≤ part.lower.length ∧ ∃ token' ∈ tokens line, 2 ≤ token'.lower.length ∧
        (part.lower ∈ splitIdentifier token' ∨ part.lower = token'.lower) := by
    decide +kernel
  obtain ⟨hlower, token', htoken', hlong, hwritten⟩ := hbeside line (List.mem_of_getElem? hline) token htoken part hpart hlen
  have hn : n < 1 := (List.getElem?_eq_some_iff.mp hline).1
  exact ⟨hlower, n, line, token', hline, htoken', hlong, hwritten, Nat.mod_eq_of_lt (hn.trans (by decide))⟩

theorem lower_parts_found :
    PartOn camelBeside 0 "Cd".toList ∧ ∀ n part, PartOn camelBeside n part → ∀ word : Text, word.lower = part.lower →
      ∃ hit ∈ ((([] ++ WordOp.indexFile ['p'] camelBeside :: []).foldl step new).ix).search .asciiOnly word,
        (([] ++ WordOp.indexFile ['p'] camelBeside :: []).foldl step new).ix.hitPath hit = ['p'] ∧ hit.lineNum = n := by
  have hroom : Respects step Room new ([] ++ WordOp.indexFile ['p'] camelBeside :: []) := ⟨fun _ => by decide, trivial⟩
  exact ⟨⟨camelBeside, "abCd".toList, by decide +kernel, by decide +kernel, by decide +kernel, by decide⟩,
    (parts_found_iff .asciiOnly camelBeside (fun _ hop => by cases hop) (fun _ hop => by cases hop) hroom).mpr
      fun _ _ => camelBeside_written⟩

theorem camel_part_missed : PartOn ['f', 'o', 'B', 'a', 'r'] 0 ['B', 'a', 'r'] ∧
    (new.ix.indexFile ['p'] ['f', 'o', 'B', 'a', 'r']).search .asciiOnly ['B', 'a', 'r'] = [] :=
  ⟨⟨['f', 'o', 'B', 'a', 'r'], ['f', 'o', 'B', 'a', 'r'], by decide +kernel, by decide +kernel, by decide +kernel,
    by decide⟩, by decide +kernel⟩

end WordHistory

end Fluent.Knowledge
