import Mathlib.Algebra.GroupWithZero.Nat
import Mathlib.Logic.Relation
import Fluent.Llm.Sentences
import Mathlib.Algebra.Order.Group.Nat
import Mathlib.Algebra.Order.BigOperators.Group.List
import Mathlib.Data.List.Induction

namespace Fluent.Llm

open Fluent.Spacy (Text)

structure ChunkConfig where
  maxTokens : ℕ
  overlapTokens : ℕ

structure ChunkState where
  chunks : List (List Text)
  currentUnits : List Text
  currentTokens : ℕ

def ChunkState.new : ChunkState := ⟨[], [], 0⟩

variable (estimateTokens : Text → ℕ) (config : ChunkConfig)

def overlapLoop (overlapBudget : ℕ) : List Text → ℕ → List Text
  | [], _ => []
  | unit :: units, tokens =>
    if overlapBudget < tokens + estimateTokens unit then []
    else unit :: overlapLoop overlapBudget units (tokens + estimateTokens unit)

def buildOverlap (units : List Text) (overlapBudget : ℕ) : List Text :=
  (overlapLoop estimateTokens overlapBudget units.reverse 0).reverse

def ChunkState.flush (s : ChunkState) : ChunkState :=
  let carried := buildOverlap estimateTokens s.currentUnits config.overlapTokens
  ⟨s.chunks ++ [s.currentUnits], carried, estimateTokens carried.flatten⟩

def ChunkState.push (s : ChunkState) (sentence : Text) : ChunkState :=
  { s with
    currentUnits := s.currentUnits ++ [sentence],
    currentTokens := s.currentTokens + estimateTokens sentence }

def ChunkState.room (s : ChunkState) (sentence : Text) : ChunkState :=
  if config.maxTokens < s.currentTokens + estimateTokens sentence then s.flush estimateTokens config else s

def chunkStep (s : ChunkState) (sentence : Text) : ChunkState :=
  if config.maxTokens < estimateTokens sentence ∧ s.currentUnits = [] then
    { s with chunks := s.chunks ++ [[sentence]] }
  else (s.room estimateTokens config sentence).push estimateTokens sentence

def ChunkState.finish (s : ChunkState) : List (List Text) :=
  if s.currentUnits = [] then s.chunks else s.chunks ++ [s.currentUnits]

def chunkUnits (sentences : List Text) : List (List Text) :=
  (sentences.foldl (chunkStep estimateTokens config) .new).finish

/-- `none` is a panic of the splitter. -/
def chunkDocument (text : Text) : Option (List Text) :=
  if text.trim = [] then some []
  else do
    let sentences ← splitIntoSentences text.trim
    some ((chunkUnits estimateTokens config sentences).map List.flatten)

variable {estimateTokens config}

theorem overlapLoop_prefix (budget : ℕ) (units : List Text) (tokens : ℕ) :
    overlapLoop estimateTokens budget units tokens <+: units := by
  induction units generalizing tokens with
  | nil => exact List.prefix_rfl
  | cons unit units ih =>
    rw [overlapLoop]
    split
    · exact List.nil_prefix
    · exact (List.prefix_cons_inj unit).mpr (ih _)

theorem buildOverlap_suffix (units : List Text) (budget : ℕ) :
    buildOverlap estimateTokens units budget <:+ units := by
  rw [buildOverlap, ← List.reverse_prefix, List.reverse_reverse]
  exact overlapLoop_prefix budget units.reverse 0

variable (estimateTokens config) in
theorem chunkDocument_eq (text : Text) :
    ∃ units, splitIntoSentences text.trim = some units ∧
      chunkDocument estimateTokens config text = some ((chunkUnits estimateTokens config units).map List.flatten) ∧
      visible units.flatten = visible text ∧ ∀ u ∈ units, visible u ≠ [] := by
  obtain ⟨units, hsplit, hcovers, hvisible⟩ := splitIntoSentences_covers text.trim
  rw [visible_trim] at hcovers
  refine ⟨units, hsplit, ?_, hcovers, hvisible⟩
  rw [chunkDocument]
  split
  · next hblank =>
    rw [hblank] at hsplit
    obtain rfl : [] = units := Option.some.inj hsplit
    rfl
  · rw [hsplit]
    rfl

section Pieces

abbrev Piece := List Text × List Text

variable (estimateTokens config) in
def Overlapping : List Text → List Piece → Prop
  | _, [] => True
  | previous, piece :: pieces =>
    piece.1 <:+ previous ∧ (piece.1 = [] ∨ piece.1 = buildOverlap estimateTokens previous config.overlapTokens) ∧
      piece.2 ≠ [] ∧ Overlapping (piece.1 ++ piece.2) pieces

variable {s : ChunkState}

theorem chunkStep_of_ne_nil (h : s.currentUnits ≠ []) (x : Text) :
    chunkStep estimateTokens config s x = (s.room estimateTokens config x).push estimateTokens x := by
  rw [chunkStep, if_neg fun hand => h hand.2]

theorem finish_run_nonempty {overlap fresh : List Text} (h : s.currentUnits = overlap ++ fresh) (hfresh : fresh ≠ [])
    (sentences : List Text) :
    ∃ more pieces, (sentences.foldl (chunkStep estimateTokens config) s).finish =
        s.chunks ++ (overlap ++ (fresh ++ more)) :: pieces.map (fun p => p.1 ++ p.2) ∧
      more ++ (pieces.map Prod.snd).flatten = sentences ∧
      Overlapping estimateTokens config (overlap ++ (fresh ++ more)) pieces := by
  have hne : s.currentUnits ≠ [] := by simp [h, hfresh]
  induction sentences generalizing s overlap fresh with
  | nil =>
    refine ⟨[], [], ?_, rfl, trivial⟩
    rw [List.foldl_nil, ChunkState.finish, if_neg hne, h, List.append_nil]
    rfl
  | cons x sentences ih =>
    rw [List.foldl_cons, chunkStep_of_ne_nil hne]
    by_cases hover : config.maxTokens < s.currentTokens + estimateTokens x
    · have hunits : ((s.flush estimateTokens config).push estimateTokens x).currentUnits =
          buildOverlap estimateTokens s.currentUnits config.overlapTokens ++ [x] := rfl
      obtain ⟨more, pieces, hrun, hnew, hover'⟩ := ih hunits (by simp) (by simp [hunits])
      refine ⟨[], (buildOverlap estimateTokens s.currentUnits config.overlapTokens, x :: more) :: pieces, ?_, ?_, ?_⟩
      · rw [ChunkState.room, if_pos hover, hrun]
        simp [ChunkState.push, ChunkState.flush, h]
      · simpa using hnew
      · rw [List.append_nil, ← h]
        exact ⟨buildOverlap_suffix _ _, Or.inr rfl, by simp, hover'⟩
    · have hunits : (s.push estimateTokens x).currentUnits = overlap ++ (fresh ++ [x]) := by
        simp [ChunkState.push, h]
      obtain ⟨more, pieces, hrun, hnew, hover'⟩ := ih hunits (by simp) (by simp [hunits])
      refine ⟨x :: more, pieces, ?_, by simpa using hnew, ?_⟩
      · rw [ChunkState.room, if_neg hover, hrun]
        simp [ChunkState.push]
      · simpa using hover'

variable (estimateTokens config) in
theorem finish_run_empty (h : s.currentUnits = []) (htokens : s.currentTokens = 0) (previous sentences : List Text) :
    ∃ pieces, (sentences.foldl (chunkStep estimateTokens config) s).finish =
        s.chunks ++ pieces.map (fun p => p.1 ++ p.2) ∧
      (pieces.map Prod.snd).flatten = sentences ∧ Overlapping estimateTokens config previous pieces := by
  induction sentences generalizing s previous with
  | nil => exact ⟨[], by simp [ChunkState.finish, h], rfl, trivial⟩
  | cons x sentences ih =>
    rw [List.foldl_cons, chunkStep]
    by_cases hover : config.maxTokens < estimateTokens x
    · rw [if_pos ⟨hover, h⟩]
      obtain ⟨pieces, hrun, hnew, hover'⟩ := ih (s := { s with chunks := s.chunks ++ [[x]] }) h htokens [x]
      refine ⟨([], [x]) :: pieces, ?_, by simpa using hnew, List.nil_suffix, Or.inl rfl, by simp, hover'⟩
      rw [hrun]
      simp
    · have hfits : ¬ config.maxTokens < s.currentTokens + estimateTokens x := by rwa [htokens, Nat.zero_add]
      rw [if_neg fun hand => hover hand.1, ChunkState.room, if_neg hfits]
      have hunits : (s.push estimateTokens x).currentUnits = [] ++ [x] := by simp [ChunkState.push, h]
      obtain ⟨more, pieces, hrun, hnew, hover'⟩ := finish_run_nonempty hunits (by simp) sentences
      refine ⟨([], x :: more) :: pieces, ?_, by simpa using hnew, List.nil_suffix, Or.inl rfl, by simp, hover'⟩
      rw [hrun]
      simp [ChunkState.push]

theorem Overlapping.fresh_ne_nil {previous : List Text} {pieces : List Piece}
    (h : Overlapping estimateTokens config previous pieces) : ∀ p ∈ pieces, p.2 ≠ [] := by
  induction pieces generalizing previous with
  | nil => simp
  | cons piece pieces ih => exact List.forall_mem_cons.mpr ⟨h.2.2.1, ih h.2.2.2⟩

theorem Overlapping.consecutive {read previous : List Text} {pieces : List Piece}
    (h : Overlapping estimateTokens config previous pieces) (hprevious : previous <:+ read) :
    ∀ p ∈ pieces, p.1 ++ p.2 <:+: read ++ (pieces.map Prod.snd).flatten := by
  induction pieces generalizing read previous with
  | nil => simp
  | cons piece pieces ih =>
    have hpiece : piece.1 ++ piece.2 <:+ read ++ piece.2 := by
      obtain ⟨before, hbefore⟩ := h.1.trans hprevious
      exact ⟨before, by rw [← hbefore, List.append_assoc]⟩
    rw [List.map_cons, List.flatten_cons, ← List.append_assoc]
    exact List.forall_mem_cons.mpr
      ⟨hpiece.isInfix.trans (List.prefix_append _ _).isInfix, ih h.2.2.2 hpiece⟩

variable (estimateTokens config) in
theorem chunkUnits_pieces (units : List Text) :
    ∃ pieces, chunkUnits estimateTokens config units = pieces.map (fun p => p.1 ++ p.2) ∧
      (pieces.map Prod.snd).flatten = units ∧ Overlapping estimateTokens config [] pieces :=
  finish_run_empty estimateTokens config (s := .new) rfl rfl [] units

theorem mem_chunkUnits {units chunk : List Text} (h : chunk ∈ chunkUnits estimateTokens config units) :
    chunk ≠ [] ∧ chunk <:+: units := by
  obtain ⟨pieces, hchunks, hnew, hoverlap⟩ := chunkUnits_pieces estimateTokens config units
  rw [hchunks] at h
  obtain ⟨p, hp, rfl⟩ := List.mem_map.mp h
  refine ⟨List.append_ne_nil_of_right_ne_nil _ (hoverlap.fresh_ne_nil p hp), ?_⟩
  rw [← hnew]
  exact hoverlap.consecutive List.suffix_rfl p hp

theorem exists_mem_chunkUnits {units : List Text} {u : Text} (hu : u ∈ units) :
    ∃ chunk ∈ chunkUnits estimateTokens config units, u ∈ chunk := by
  obtain ⟨pieces, hchunks, hnew, -⟩ := chunkUnits_pieces estimateTokens config units
  rw [← hnew] at hu
  obtain ⟨fresh, hfresh, hmem⟩ := List.mem_flatten.mp hu
  obtain ⟨p, hp, rfl⟩ := List.mem_map.mp hfresh
  rw [hchunks]
  exact ⟨_, List.mem_map_of_mem hp, List.mem_append_right p.1 hmem⟩

theorem flatten_ne_nil {units : List Text} {u : Text} (hu : u ∈ units) (hvisible : visible u ≠ []) :
    units.flatten ≠ [] := by
  intro hflatten
  have hnil : u = [] := List.flatten_eq_nil_iff.mp hflatten u hu
  exact hvisible (by rw [hnil]; rfl)

end Pieces

theorem chunk_document_covers (estimateTokens : Text → ℕ) (config : ChunkConfig) (text : Text) :
    ∃ units pieces, splitIntoSentences text.trim = some units ∧
      chunkDocument estimateTokens config text = some (pieces.map fun p => (p.1 ++ p.2).flatten) ∧
      Overlapping estimateTokens config [] pieces ∧ (pieces.map Prod.snd).flatten = units ∧
      visible units.flatten = visible text ∧ ∀ p ∈ pieces, (p.1 ++ p.2).flatten ≠ [] := by
  obtain ⟨units, hsplit, hdocument, hcovers, hvisible⟩ := chunkDocument_eq estimateTokens config text
  obtain ⟨pieces, hchunks, hnew, hoverlap⟩ := chunkUnits_pieces estimateTokens config units
  refine ⟨units, pieces, hsplit, ?_, hoverlap, hnew, hcovers, fun p hp => ?_⟩
  · rw [hdocument, hchunks, List.map_map]
    rfl
  · obtain ⟨u, hu⟩ := List.exists_mem_of_ne_nil _ (hoverlap.fresh_ne_nil p hp)
    have hmem : u ∈ units := hnew ▸ List.mem_flatten.mpr ⟨p.2, List.mem_map_of_mem hp, hu⟩
    exact flatten_ne_nil (List.mem_append_right p.1 hu) (hvisible u hmem)

section Budget

variable (estimateTokens) in
def tokensOf (units : List Text) : ℕ := (units.map estimateTokens).sum

variable (estimateTokens config) in
structure WithinBudget (units : List Text) (chunks : List (List Text)) : Prop where
  each : ∀ chunk ∈ chunks, (∃ u, chunk = [u]) ∨ chunk <:+: units ∧ tokensOf estimateTokens chunk ≤ config.maxTokens
  oversize : ∀ u ∈ units, config.maxTokens < estimateTokens u → [u] ∈ chunks

/-- Where a chunk begins: what `carried` counts for, the units carried over, and the units to come. -/
structure Opening where
  base : ℕ
  carried : List Text
  rest : List Text

namespace Opening

variable (estimateTokens config)

def first (units : List Text) : Opening := ⟨0, [], units.dropWhile fun u => config.maxTokens < estimateTokens u⟩

def Fits (base : ℕ) (fresh : List Text) : Prop :=
  fresh.length = 1 ∨ fresh ≠ [] ∧ base + tokensOf estimateTokens fresh ≤ config.maxTokens

structure Carried (units overlap : List Text) : Prop where
  suffix : overlap <:+ units
  within : tokensOf estimateTokens overlap ≤ config.overlapTokens
  longest : ∀ l, l <:+ units → tokensOf estimateTokens l ≤ config.overlapTokens → l.length ≤ overlap.length

inductive Next : Opening → Opening → Prop
  | mk {base : ℕ} {carried fresh rest overlap : List Text} {x : Text} (hfits : Fits estimateTokens config base fresh)
      (hfull : config.maxTokens < base + tokensOf estimateTokens fresh + estimateTokens x)
      (hoverlap : Carried estimateTokens config (carried ++ fresh) overlap) :
      Next ⟨base, carried, fresh ++ x :: rest⟩ ⟨estimateTokens overlap.flatten, overlap, x :: rest⟩

def Begins (units : List Text) (o : Opening) : Prop :=
  Relation.ReflTransGen (Next estimateTokens config) (first estimateTokens config units) o

/-- Units that fit behind what the carried text counts for as a whole also fit behind the sum of its units, and so does
the first unit. -/
def Roomy (o : Opening) : Prop :=
  o.carried = [] ∨ ∀ fresh, fresh <+: o.rest → Fits estimateTokens config o.base fresh →
    tokensOf estimateTokens o.carried + tokensOf estimateTokens fresh ≤ config.maxTokens

end Opening

@[simp]
theorem tokensOf_append (units more : List Text) :
    tokensOf estimateTokens (units ++ more) = tokensOf estimateTokens units + tokensOf estimateTokens more := by
  simp [tokensOf]

@[simp]
theorem tokensOf_cons (x : Text) (units : List Text) :
    tokensOf estimateTokens (x :: units) = estimateTokens x + tokensOf estimateTokens units := by
  simp [tokensOf]

@[simp]
theorem tokensOf_nil : tokensOf estimateTokens [] = 0 := rfl

variable (estimateTokens) in
theorem tokensOf_le_of_prefix {units more : List Text} (h : units <+: more) :
    tokensOf estimateTokens units ≤ tokensOf estimateTokens more := by
  obtain ⟨rest, rfl⟩ := h
  rw [tokensOf_append]
  omega

variable (estimateTokens) in
theorem overlapLoop_longest {budget : ℕ} (units : List Text) {tokens : ℕ} (htokens : tokens ≤ budget) :
    tokens + tokensOf estimateTokens (overlapLoop estimateTokens budget units tokens) ≤ budget ∧
      ∀ l, l <+: units → tokens + tokensOf estimateTokens l ≤ budget →
        l.length ≤ (overlapLoop estimateTokens budget units tokens).length := by
  induction units generalizing tokens with
  | nil =>
    refine ⟨htokens, fun l hl _ => ?_⟩
    rw [List.prefix_nil.mp hl]
    exact Nat.zero_le _
  | cons unit units ih =>
    rw [overlapLoop]
    split
    · next hover =>
      refine ⟨htokens, fun l hl hle => ?_⟩
      obtain rfl | ⟨more, rfl, -⟩ := List.prefix_cons_iff.mp hl
      · exact Nat.zero_le _
      · rw [tokensOf_cons] at hle
        omega
    · next hfits =>
      obtain ⟨hwithin, hlongest⟩ := ih (Nat.le_of_not_lt hfits)
      refine ⟨by rw [tokensOf_cons]; omega, fun l hl hle => ?_⟩
      obtain rfl | ⟨more, rfl, hmore⟩ := List.prefix_cons_iff.mp hl
      · exact Nat.zero_le _
      · rw [tokensOf_cons] at hle
        exact Nat.succ_le_succ (hlongest more hmore (by omega))

theorem carried_buildOverlap (units : List Text) :
    Opening.Carried estimateTokens config units (buildOverlap estimateTokens units config.overlapTokens) := by
  obtain ⟨hwithin, hlongest⟩ :=
    overlapLoop_longest estimateTokens units.reverse (Nat.zero_le config.overlapTokens)
  have hreverse : ∀ l : List Text, tokensOf estimateTokens l.reverse = tokensOf estimateTokens l := by
    intro l
    rw [tokensOf, tokensOf, List.map_reverse, List.sum_reverse]
  refine ⟨buildOverlap_suffix units _, ?_, fun l hl hle => ?_⟩
  · rw [buildOverlap, hreverse]
    omega
  · rw [buildOverlap, List.length_reverse, ← l.length_reverse]
    exact hlongest _ (List.reverse_prefix.mpr hl) (by rw [hreverse]; omega)

namespace Opening

theorem Carried.unique {units overlap overlap' : List Text} (h : Carried estimateTokens config units overlap)
    (h' : Carried estimateTokens config units overlap') : overlap = overlap' := by
  have hlength := Nat.le_antisymm (h'.longest _ h.suffix h.within) (h.longest _ h'.suffix h'.within)
  exact (List.suffix_of_suffix_length_le h.suffix h'.suffix hlength.le).eq_of_length hlength

theorem Fits.ne_nil {base : ℕ} {fresh : List Text} (h : Fits estimateTokens config base fresh) : fresh ≠ [] := by
  rcases h with h | h
  · exact List.ne_nil_of_length_eq_add_one h
  · exact h.1

variable {base : ℕ} {carried fresh rest : List Text}

theorem Fits.length_le (h : Fits estimateTokens config base fresh) {fresh' : List Text} (hne : fresh' ≠ []) {x : Text}
    (hfull : config.maxTokens < base + tokensOf estimateTokens fresh' + estimateTokens x)
    (hbegins : fresh' ++ x :: rest = fresh ++ carried) : fresh.length ≤ fresh'.length := by
  by_contra hlt
  have hmore : fresh' ++ [x] <+: fresh := by
    have hboth : fresh' ++ [x] <+: fresh ++ carried := ⟨rest, by rw [← hbegins]; simp⟩
    refine List.prefix_of_prefix_length_le hboth (List.prefix_append _ _) ?_
    simpa [Nat.succ_le_iff] using hlt
  have hle := tokensOf_le_of_prefix estimateTokens hmore
  have hpos := List.length_pos_iff.mpr hne
  rw [tokensOf_append, tokensOf_cons, tokensOf_nil] at hle
  rcases h with h | h
  · omega
  · omega

theorem Next.eq {o o' : Opening} {x : Text} {overlap : List Text}
    (hfits : Fits estimateTokens config base fresh)
    (hfull : config.maxTokens < base + tokensOf estimateTokens fresh + estimateTokens x)
    (hoverlap : Carried estimateTokens config (carried ++ fresh) overlap)
    (h : Next estimateTokens config o o') (ho : o = ⟨base, carried, fresh ++ x :: rest⟩) :
    o' = ⟨estimateTokens overlap.flatten, overlap, x :: rest⟩ := by
  cases h with
  | mk hfits' hfull' hoverlap' =>
    simp only [mk.injEq] at ho
    obtain ⟨rfl, rfl, hrest⟩ := ho
    have hlength := Nat.le_antisymm (hfits'.length_le hfits.ne_nil hfull hrest.symm)
      (hfits.length_le hfits'.ne_nil hfull' hrest)
    obtain ⟨rfl, htail⟩ := List.append_inj hrest hlength
    obtain ⟨rfl, rfl⟩ := List.cons.inj htail
    rw [hoverlap'.unique hoverlap]

theorem Next.false_of_fits {o : Opening} (hfits : Fits estimateTokens config base fresh)
    (h : Next estimateTokens config ⟨base, carried, fresh⟩ o) : False := by
  generalize ho : (⟨base, carried, fresh⟩ : Opening) = o₁ at h
  cases h with
  | mk hfits' hfull' _ =>
    simp only [mk.injEq] at ho
    obtain ⟨rfl, rfl, hrest⟩ := ho
    have hle := hfits.length_le hfits'.ne_nil hfull' (hrest.symm.trans (List.append_nil _).symm)
    simp [hrest] at hle

end Opening

variable (estimateTokens config) in
def Within (chunk : List Text) : Prop := chunk.length ≤ 1 ∨ tokensOf estimateTokens chunk ≤ config.maxTokens

theorem Opening.roomy_iff {o : Opening} {fresh : List Text} (hfits : Fits estimateTokens config o.base fresh)
    (hbegins : fresh <+: o.rest)
    (hmost : ∀ l, l <+: o.rest → Fits estimateTokens config o.base l → l.length ≤ fresh.length) :
    o.Roomy estimateTokens config ↔ Within estimateTokens config (o.carried ++ fresh) := by
  have hpos := List.length_pos_iff.mpr hfits.ne_nil
  rw [Roomy, Within, tokensOf_append, List.length_append]
  by_cases hnil : o.carried = []
  · refine iff_of_true (.inl hnil) ?_
    rw [hnil]
    simp only [List.length_nil, tokensOf_nil]
    exact hfits.imp (by omega) fun h => by omega
  · have hlong := List.length_pos_iff.mpr hnil
    rw [or_iff_right hnil, or_iff_right (by omega)]
    refine ⟨fun h => h fresh hbegins hfits, fun h l hl hlfits => ?_⟩
    have hle := tokensOf_le_of_prefix estimateTokens
      (List.prefix_of_prefix_length_le hl hbegins (hmost l hl hlfits))
    omega

variable {s : ChunkState}

theorem forall_finish_iff (h : s.currentUnits ≠ []) :
    (∀ chunk ∈ s.finish, Within estimateTokens config chunk) ↔
      (∀ chunk ∈ s.chunks, Within estimateTokens config chunk) ∧ Within estimateTokens config s.currentUnits := by
  rw [ChunkState.finish, if_neg h]
  simp [or_imp, forall_and]

structure Buffered (estimateTokens : Text → ℕ) (config : ChunkConfig) (s : ChunkState) (o : Opening)
    (fresh rest : List Text) : Prop where
  units : s.currentUnits = o.carried ++ fresh
  tokens : s.currentTokens = o.base + tokensOf estimateTokens fresh
  fits : Opening.Fits estimateTokens config o.base fresh
  rest : o.rest = fresh ++ rest

theorem Buffered.push {o : Opening} {fresh sentences : List Text} {x : Text}
    (h : Buffered estimateTokens config s o fresh (x :: sentences))
    (hroom : ¬config.maxTokens < s.currentTokens + estimateTokens x) :
    Buffered estimateTokens config (s.push estimateTokens x) o (fresh ++ [x]) sentences := by
  refine ⟨by simp [ChunkState.push, h.units], ?_, .inr ⟨by simp, ?_⟩, by simp [h.rest]⟩
  · simp [ChunkState.push, h.tokens, Nat.add_assoc]
  · have htokens := h.tokens
    simp only [tokensOf_append, tokensOf_cons, tokensOf_nil]
    omega

variable (estimateTokens config s) in
theorem buffered_flush (x : Text) (sentences : List Text) :
    Buffered estimateTokens config ((s.flush estimateTokens config).push estimateTokens x)
      ⟨estimateTokens (buildOverlap estimateTokens s.currentUnits config.overlapTokens).flatten,
        buildOverlap estimateTokens s.currentUnits config.overlapTokens, x :: sentences⟩ [x] sentences :=
  ⟨rfl, by simp [ChunkState.push, ChunkState.flush], .inl rfl, rfl⟩

theorem Opening.forall_reachable_iff {o o₁ : Opening} {P : Opening → Prop} (hnext : Next estimateTokens config o o₁)
    (honly : ∀ o₂, Next estimateTokens config o o₂ → o₂ = o₁) :
    (∀ o', Relation.ReflTransGen (Next estimateTokens config) o o' → P o') ↔
      P o ∧ ∀ o', Relation.ReflTransGen (Next estimateTokens config) o₁ o' → P o' := by
  refine ⟨fun hall => ⟨hall o .refl, fun o' ho' => hall o' (.head hnext ho')⟩, fun ⟨ho, hall⟩ o' ho' => ?_⟩
  obtain rfl | ⟨o₂, hnext₂, hreach⟩ := Relation.ReflTransGen.cases_head ho'
  · exact ho
  · exact hall o' (honly o₂ hnext₂ ▸ hreach)

theorem Buffered.run_iff {o : Opening} {fresh sentences : List Text}
    (h : Buffered estimateTokens config s o fresh sentences) :
    (∀ chunk ∈ (sentences.foldl (chunkStep estimateTokens config) s).finish, Within estimateTokens config chunk) ↔
      (∀ chunk ∈ s.chunks, Within estimateTokens config chunk) ∧
        ∀ o', Relation.ReflTransGen (Opening.Next estimateTokens config) o o' → o'.Roomy estimateTokens config := by
  have hne : s.currentUnits ≠ [] := by simp [h.units, h.fits.ne_nil]
  induction sentences generalizing s o fresh with
  | nil =>
    obtain ⟨base, carried, rest⟩ := o
    obtain rfl : rest = fresh := h.rest.trans (List.append_nil _)
    have hroomy := Opening.roomy_iff (o := ⟨base, carried, rest⟩) h.fits List.prefix_rfl fun l hl _ => hl.length_le
    rw [List.foldl_nil, forall_finish_iff hne, h.units, ← hroomy]
    refine and_congr_right fun _ => ⟨fun hr o' ho' => ?_, fun hall => hall _ .refl⟩
    obtain rfl | ⟨o₁, hnext, -⟩ := Relation.ReflTransGen.cases_head ho'
    · exact hr
    · exact (hnext.false_of_fits h.fits).elim
  | cons x sentences ih =>
    rw [List.foldl_cons, chunkStep_of_ne_nil hne]
    by_cases hover : config.maxTokens < s.currentTokens + estimateTokens x
    · rw [ChunkState.room, if_pos hover]
      obtain ⟨base, carried, rest⟩ := o
      obtain rfl : rest = fresh ++ x :: sentences := h.rest
      have hfull : config.maxTokens < base + tokensOf estimateTokens fresh + estimateTokens x := h.tokens ▸ hover
      have hcarried : Opening.Carried estimateTokens config (carried ++ fresh)
          (buildOverlap estimateTokens s.currentUnits config.overlapTokens) := h.units ▸ carried_buildOverlap _
      have hmost : ∀ l, l <+: fresh ++ x :: sentences → Opening.Fits estimateTokens config base l →
          l.length ≤ fresh.length := by
        rintro l ⟨more, hmore⟩ hl
        exact hl.length_le h.fits.ne_nil hfull hmore.symm
      have hroomy := Opening.roomy_iff (o := ⟨base, carried, fresh ++ x :: sentences⟩) h.fits
        (List.prefix_append _ _) hmost
      have hbuffered := buffered_flush estimateTokens config s x sentences
      refine (ih hbuffered (by simp [hbuffered.units])).trans ?_
      have hchunks : ((s.flush estimateTokens config).push estimateTokens x).chunks = s.chunks ++ [carried ++ fresh] :=
        congrArg (s.chunks ++ [·]) h.units
      rw [hchunks, List.forall_mem_append, List.forall_mem_singleton, ← hroomy, and_assoc,
        Opening.forall_reachable_iff (.mk h.fits hfull hcarried) fun _ hnext => hnext.eq h.fits hfull hcarried rfl]
    · rw [ChunkState.room, if_neg hover]
      exact ih (h.push hover) (by simp [(h.push hover).units])

theorem run_iff_begins (h : s.currentUnits = []) (htokens : s.currentTokens = 0) (units : List Text) :
    (∀ chunk ∈ (units.foldl (chunkStep estimateTokens config) s).finish, Within estimateTokens config chunk) ↔
      (∀ chunk ∈ s.chunks, Within estimateTokens config chunk) ∧
        ∀ o, Opening.Begins estimateTokens config units o → o.Roomy estimateTokens config := by
  induction units generalizing s with
  | nil =>
    rw [List.foldl_nil, ChunkState.finish, if_pos h]
    refine (and_iff_left fun o ho => ?_).symm
    obtain rfl | ⟨o₁, hnext, -⟩ := Relation.ReflTransGen.cases_head ho
    · exact .inl rfl
    · generalize hfirst : Opening.first estimateTokens config [] = o₀ at hnext
      cases hnext with
      | mk => simp [Opening.first] at hfirst
  | cons x units ih =>
    rw [List.foldl_cons, chunkStep]
    by_cases hover : config.maxTokens < estimateTokens x
    · have hfirst : Opening.first estimateTokens config (x :: units) = Opening.first estimateTokens config units := by
        rw [Opening.first, Opening.first, List.dropWhile_cons_of_pos (by simpa using hover)]
      rw [if_pos ⟨hover, h⟩]
      refine (ih (s := { s with chunks := s.chunks ++ [[x]] }) h htokens).trans ?_
      unfold Opening.Begins
      rw [hfirst, List.forall_mem_append, List.forall_mem_singleton]
      exact and_congr_left fun _ => and_iff_left (.inl le_rfl)
    · have hfits : ¬config.maxTokens < s.currentTokens + estimateTokens x := by rwa [htokens, Nat.zero_add]
      rw [if_neg fun hand => hover hand.1, ChunkState.room, if_neg hfits]
      have hbuffered : Buffered estimateTokens config (s.push estimateTokens x)
          (Opening.first estimateTokens config (x :: units)) [x] units := by
        refine ⟨by simp [ChunkState.push, h, Opening.first], ?_, .inl rfl, ?_⟩
        · simp [ChunkState.push, htokens, Opening.first]
        · rw [Opening.first, List.dropWhile_cons_of_neg (by simpa using hover)]
          rfl
      exact hbuffered.run_iff

theorem withinBudget_iff (units : List Text) :
    WithinBudget estimateTokens config units (chunkUnits estimateTokens config units) ↔
      ∀ chunk ∈ chunkUnits estimateTokens config units, Within estimateTokens config chunk := by
  constructor
  · intro h chunk hchunk
    obtain ⟨u, rfl⟩ | ⟨-, hsum⟩ := h.each chunk hchunk
    · exact Or.inl le_rfl
    · exact Or.inr hsum
  · intro hall
    refine ⟨fun chunk hchunk => ?_, fun u hu hover => ?_⟩
    · obtain ⟨hne, hwithin⟩ := mem_chunkUnits hchunk
      obtain hlength | hsum := hall chunk hchunk
      · exact Or.inl (List.length_eq_one_iff.mp (Nat.le_antisymm hlength (List.length_pos_of_ne_nil hne)))
      · exact Or.inr ⟨hwithin, hsum⟩
    · obtain ⟨chunk, hchunk, hmem⟩ := exists_mem_chunkUnits hu
      obtain hlength | hsum := hall chunk hchunk
      · obtain ⟨v, rfl⟩ := List.length_eq_one_iff.mp (Nat.le_antisymm hlength (List.length_pos_of_mem hmem))
        rwa [List.mem_singleton.mp hmem]
      · have hle := List.single_le_sum (fun _ _ => Nat.zero_le _) _ (List.mem_map_of_mem (f := estimateTokens) hmem)
        rw [tokensOf] at hsum
        omega

end Budget

theorem chunk_budget_iff (estimateTokens : Text → ℕ) (config : ChunkConfig) (text : Text) :
    ∃ units, splitIntoSentences text.trim = some units ∧
      chunkDocument estimateTokens config text = some ((chunkUnits estimateTokens config units).map List.flatten) ∧
      (WithinBudget estimateTokens config units (chunkUnits estimateTokens config units) ↔
        ∀ o, Opening.Begins estimateTokens config units o → o.Roomy estimateTokens config) := by
  obtain ⟨units, hsplit, hdocument, -, -⟩ := chunkDocument_eq estimateTokens config text
  refine ⟨units, hsplit, hdocument, ?_⟩
  rw [withinBudget_iff]
  exact (run_iff_begins rfl rfl units).trans (and_iff_right (by simp [ChunkState.new]))

def estimateLatin (text : Text) : ℕ := (text.length + 2) / 4

def sentenceOf (n : ℕ) (c : Char) : Text := List.replicate n c ++ ['.']

theorem carried_unit_over_budget :
    chunkDocument estimateLatin ⟨11, 6⟩ (sentenceOf 20 'a' ++ sentenceOf 20 'b' ++ sentenceOf 36 'c') =
        some [sentenceOf 20 'a' ++ sentenceOf 20 'b', sentenceOf 20 'b' ++ sentenceOf 36 'c'] ∧
      splitIntoSentences (sentenceOf 20 'a' ++ sentenceOf 20 'b' ++ sentenceOf 36 'c') =
        some [sentenceOf 20 'a', sentenceOf 20 'b', sentenceOf 36 'c'] ∧
      chunkUnits estimateLatin ⟨11, 6⟩ [sentenceOf 20 'a', sentenceOf 20 'b', sentenceOf 36 'c'] =
        [[sentenceOf 20 'a', sentenceOf 20 'b'], [sentenceOf 20 'b', sentenceOf 36 'c']] ∧
      tokensOf estimateLatin [sentenceOf 20 'b', sentenceOf 36 'c'] = 14 := by
  decide +kernel

end Fluent.Llm
