import Mathlib.Algebra.GroupWithZero.Nat
import Mathlib.Data.List.GetD
import Fluent.Library.HashContainers
import Fluent.Library.LittleEndian
import Fluent.Spacy.Hash

namespace Fluent.Knowledge

open Fluent.Library
open Fluent.Spacy (Text)

abbrev Trigram := UInt32

structure TrigramHit where
  docId : UInt32
  position : UInt32
deriving DecidableEq

def trigramIndexMagic : UInt32 := 0x54524947

def trigramIndexVersion : UInt32 := 1

def makeTrigram (a b c : UInt8) : Trigram := a.toUInt32 ||| (b.toUInt32 <<< 8) ||| (c.toUInt32 <<< 16)

structure TrigramIndex where
  index : HashMap Trigram (List TrigramHit)
  docCount : UInt32

structure Header where
  magic : UInt32
  version : UInt32
  gitHead : Option Text

def indexHeaderSize : ℕ := 10

namespace Header

def writeTo (h : Header) : List UInt8 :=
  let gitHeadBytes := Text.bytes (h.gitHead.getD [])
  toLeBytes h.magic ++ toLeBytes h.version ++ [.ofNat gitHeadBytes.length, .ofNat (gitHeadBytes.length / 256)] ++
    gitHeadBytes

def read (content : List UInt8) (expectedMagic expectedVersion : UInt32) : Option ℕ :=
  if content.length < indexHeaderSize then none
  else if readU32 content 0 ≠ expectedMagic then none
  else if readU32 content 4 ≠ expectedVersion then none
  else some (10 + ((content.getD 8 0).toNat + 256 * (content.getD 9 0).toNat))

end Header

namespace TrigramIndex

def new : TrigramIndex := ⟨∅, 0⟩

def windows (bytes : List UInt8) : List (Trigram × UInt32) :=
  (List.range (bytes.length - 2)).map fun i =>
    (makeTrigram (bytes.getD i 0) (bytes.getD (i + 1) 0) (bytes.getD (i + 2) 0), .ofNat i)

def pushHit (docId : UInt32) (index : HashMap Trigram (List TrigramHit)) (window : Trigram × UInt32) :
    HashMap Trigram (List TrigramHit) :=
  HashMap.pushEntry index window.1 ⟨docId, window.2⟩

def buildFromContent (ix : TrigramIndex) (content : Text) : TrigramIndex :=
  if content.bytes.length < 3 then ix
  else ⟨(windows content.bytes).foldl (pushHit ix.docCount) ix.index, ix.docCount + 1⟩

variable (contents : List Text)

def build : TrigramIndex := contents.foldl buildFromContent new

def hitsOf (index : HashMap Trigram (List TrigramHit)) (tri : Trigram) : List TrigramHit := (index.lookup tri).getD []

def dedupRuns : List UInt32 → List UInt32
  | [] => []
  | [x] => [x]
  | x :: y :: rest => if x = y then dedupRuns (y :: rest) else x :: dedupRuns (y :: rest)

def candidates (ix : TrigramIndex) (query : Text) : List UInt32 :=
  if query.bytes.length < 3 then []
  else
    let first := makeTrigram (query.bytes.getD 0 0) (query.bytes.getD 1 0) (query.bytes.getD 2 0)
    dedupRuns (((hitsOf ix.index first).map TrigramHit.docId).mergeSort (· ≤ ·))

def search (ix : TrigramIndex) (query : Text) : List UInt32 := ix.candidates query

def hitBytes (hit : TrigramHit) : List UInt8 := toLeBytes hit.docId ++ toLeBytes hit.position

def entryBytes (entry : Trigram × List TrigramHit) : List UInt8 :=
  toLeBytes entry.1 ++ toLeBytes (.ofNat entry.2.length) ++ entry.2.flatMap hitBytes

/-- The entries are given in the order in which the hash map is iterated. -/
def serialize (entries : List (Trigram × List TrigramHit)) (ix : TrigramIndex) : List UInt8 :=
  Header.writeTo ⟨trigramIndexMagic, trigramIndexVersion, none⟩ ++
    (toLeBytes ix.docCount ++ toLeBytes (.ofNat entries.length) ++ entries.flatMap entryBytes)

def readPair (data : List UInt8) : Option ((UInt32 × UInt32) × List UInt8) :=
  if data.length < 8 then none else some ((readU32 data 0, readU32 data 4), data.drop 8)

def readHits : ℕ → List UInt8 → Option (List TrigramHit × List UInt8)
  | 0, data => some ([], data)
  | n + 1, data =>
    (readPair data).bind fun pair =>
      (readHits n pair.2).map fun hits => (⟨pair.1.1, pair.1.2⟩ :: hits.1, hits.2)

def readEntries : ℕ → List UInt8 → HashMap Trigram (List TrigramHit) →
    Option (HashMap Trigram (List TrigramHit) × List UInt8)
  | 0, data, index => some (index, data)
  | n + 1, data, index =>
    (readPair data).bind fun pair =>
      (readHits pair.1.2.toNat pair.2).bind fun hits => readEntries n hits.2 (index.insert pair.1.1 hits.1)

def parse (data : List UInt8) : Except String (TrigramIndex × List UInt8) :=
  match Header.read data trigramIndexMagic trigramIndexVersion with
  | none => .error "invalid header"
  | some offset =>
    match readPair (data.drop offset) with
    | none => .error "truncated data"
    | some (counts, rest) =>
      match readEntries counts.2.toNat rest ∅ with
      | none => .error "truncated"
      | some (index, rest) => .ok (⟨index, counts.1⟩, rest)

def deserialize (data : List UInt8) : Except String TrigramIndex := (parse data).map Prod.fst

theorem readPair_append {p t : List UInt8} {x : (UInt32 × UInt32) × List UInt8} (h : readPair p = some x) :
    readPair (p ++ t) = some (x.1, x.2 ++ t) := by
  unfold readPair at h ⊢
  split_ifs at h with hlen
  cases h
  rw [if_neg (by rw [List.length_append]; omega), readU32_left (by omega), readU32_left (by omega),
    List.drop_append_of_le_length (by omega)]

theorem readPair_toLeBytes (x y : UInt32) (rest : List UInt8) :
    readPair (toLeBytes x ++ toLeBytes y ++ rest) = some ((x, y), rest) := by
  have hlen : ¬ (toLeBytes x ++ toLeBytes y ++ rest).length < 8 := by
    rw [List.length_append, List.length_append, show (toLeBytes x).length = 4 from rfl,
      show (toLeBytes y).length = 4 from rfl]
    omega
  have hfirst : readU32 (toLeBytes x ++ (toLeBytes y ++ rest)) 0 = x := readU32_append [] x _
  have hsecond : readU32 (toLeBytes x ++ (toLeBytes y ++ rest)) 4 = y := readU32_append (toLeBytes x) y rest
  unfold readPair
  rw [if_neg hlen, List.append_assoc, hfirst, hsecond]
  rfl

theorem readHits_append {n : ℕ} {p t : List UInt8} {x : List TrigramHit × List UInt8} (h : readHits n p = some x) :
    readHits n (p ++ t) = some (x.1, x.2 ++ t) := by
  induction n generalizing p x with
  | zero =>
    cases h
    rfl
  | succ n ih =>
    unfold readHits at h ⊢
    obtain ⟨pair, hpair, h⟩ := Option.bind_eq_some_iff.mp h
    obtain ⟨hits, hhits, rfl⟩ := Option.map_eq_some_iff.mp h
    rw [readPair_append hpair, Option.bind_some, ih hhits]
    rfl

theorem readEntries_append {n : ℕ} {p t : List UInt8} {index : HashMap Trigram (List TrigramHit)}
    {x : HashMap Trigram (List TrigramHit) × List UInt8} (h : readEntries n p index = some x) :
    readEntries n (p ++ t) index = some (x.1, x.2 ++ t) := by
  induction n generalizing p index with
  | zero =>
    cases h
    rfl
  | succ n ih =>
    unfold readEntries at h ⊢
    obtain ⟨pair, hpair, h⟩ := Option.bind_eq_some_iff.mp h
    obtain ⟨hits, hhits, h⟩ := Option.bind_eq_some_iff.mp h
    rw [readPair_append hpair, Option.bind_some, readHits_append hhits, Option.bind_some]
    exact ih h

theorem header_read_append {p t : List UInt8} {magic version : UInt32} {offset : ℕ}
    (h : Header.read p magic version = some offset) : Header.read (p ++ t) magic version = some offset := by
  unfold Header.read indexHeaderSize at h ⊢
  split_ifs at h with hlen hmagic hversion
  rw [if_neg (by rw [List.length_append]; omega), readU32_left (by omega), if_neg hmagic, readU32_left (by omega),
    if_neg hversion, List.getD_append _ _ _ _ (by omega), List.getD_append _ _ _ _ (by omega)]
  exact h

theorem parse_eq_ok {data : List UInt8} {x : TrigramIndex × List UInt8} (h : parse data = .ok x) :
    ∃ offset counts entries, Header.read data trigramIndexMagic trigramIndexVersion = some offset ∧
      readPair (data.drop offset) = some counts ∧ readEntries counts.1.2.toNat counts.2 ∅ = some entries ∧
      x = (⟨entries.1, counts.1.1⟩, entries.2) := by
  unfold parse at h
  cases hheader : Header.read data trigramIndexMagic trigramIndexVersion with
  | none =>
    rw [hheader] at h
    cases h
  | some offset =>
    rw [hheader] at h
    dsimp only at h
    cases hpair : readPair (data.drop offset) with
    | none =>
      rw [hpair] at h
      cases h
    | some counts =>
      rw [hpair] at h
      dsimp only at h
      cases hentries : readEntries counts.1.2.toNat counts.2 ∅ with
      | none =>
        rw [hentries] at h
        cases h
      | some entries =>
        rw [hentries] at h
        exact ⟨offset, counts, entries, rfl, hpair, hentries, (Except.ok.inj h).symm⟩

theorem parse_append {p t : List UInt8} {x : TrigramIndex × List UInt8} (h : parse p = .ok x) :
    parse (p ++ t) = .ok (x.1, x.2 ++ t) := by
  obtain ⟨offset, counts, entries, hheader, hpair, hentries, rfl⟩ := parse_eq_ok h
  have hoffset : offset ≤ p.length := by
    unfold readPair at hpair
    split_ifs at hpair with hlen
    rw [List.length_drop] at hlen
    omega
  unfold parse
  rw [header_read_append hheader]
  dsimp only
  rw [List.drop_append_of_le_length hoffset, readPair_append hpair]
  dsimp only
  rw [readEntries_append hentries]

theorem readHits_flatMap (hits : List TrigramHit) (rest : List UInt8) :
    readHits hits.length (hits.flatMap hitBytes ++ rest) = some (hits, rest) := by
  induction hits with
  | nil => rfl
  | cons hit hits ih =>
    rw [List.flatMap_cons, List.length_cons, List.append_assoc]
    unfold readHits
    rw [show hitBytes hit = toLeBytes hit.docId ++ toLeBytes hit.position from rfl, readPair_toLeBytes,
      Option.bind_some, ih]
    rfl

theorem readEntries_flatMap {entries : List (Trigram × List TrigramHit)}
    (hshort : ∀ entry ∈ entries, entry.2.length < 4294967296) (index : HashMap Trigram (List TrigramHit))
    (rest : List UInt8) :
    readEntries entries.length (entries.flatMap entryBytes ++ rest) index =
      some (entries.foldl (fun m entry => m.insert entry.1 entry.2) index, rest) := by
  induction entries generalizing index with
  | nil => rfl
  | cons entry entries ih =>
    have hcount : (UInt32.ofNat entry.2.length).toNat = entry.2.length :=
      UInt32.toNat_ofNat_of_lt' (hshort entry List.mem_cons_self)
    rw [List.flatMap_cons, List.length_cons, List.append_assoc]
    unfold readEntries entryBytes
    rw [List.append_assoc, readPair_toLeBytes, Option.bind_some, hcount, readHits_flatMap, Option.bind_some]
    exact ih (fun e he => hshort e (List.mem_cons_of_mem _ he)) _

structure Enumerates (entries : List (Trigram × List TrigramHit)) (index : HashMap Trigram (List TrigramHit)) : Prop where
  nodup : (entries.map Prod.fst).Nodup
  mem_iff : ∀ tri hits, (tri, hits) ∈ entries ↔ index.lookup tri = some hits

theorem lookup_foldl_insert (entries : List (Trigram × List TrigramHit)) (hnodup : (entries.map Prod.fst).Nodup)
    (m : HashMap Trigram (List TrigramHit)) (tri : Trigram) (hits : List TrigramHit) :
    (entries.foldl (fun m entry => m.insert entry.1 entry.2) m).lookup tri = some hits ↔
      (tri, hits) ∈ entries ∨ (∀ hits', (tri, hits') ∉ entries) ∧ m.lookup tri = some hits := by
  induction entries generalizing m with
  | nil => simp
  | cons entry entries ih =>
    obtain ⟨key, hs⟩ := entry
    rw [List.map_cons, List.nodup_cons] at hnodup
    have hnot : ∀ hits', (key, hits') ∉ entries := fun hits' hmem => hnodup.1 (List.mem_map.mpr ⟨_, hmem, rfl⟩)
    rw [List.foldl_cons, ih hnodup.2, HashMap.lookup_insert_ite]
    by_cases htri : tri = key
    · subst htri
      simp [hnot, eq_comm]
    · simp [htri]

theorem Enumerates.foldl_insert {entries : List (Trigram × List TrigramHit)} {index : HashMap Trigram (List TrigramHit)}
    (h : Enumerates entries index) : entries.foldl (fun m entry => m.insert entry.1 entry.2) ∅ = index := by
  refine Finmap.ext_lookup fun tri => Option.ext fun hits => ?_
  rw [lookup_foldl_insert entries h.nodup, h.mem_iff, Finmap.lookup_empty]
  exact or_iff_left fun hboth => by cases hboth.2

theorem parse_serialize {entries : List (Trigram × List TrigramHit)} {ix : TrigramIndex}
    (h : Enumerates entries ix.index) (hcount : entries.length < 4294967296)
    (hshort : ∀ entry ∈ entries, entry.2.length < 4294967296) : parse (serialize entries ix) = .ok (ix, []) := by
  have hlen : (UInt32.ofNat entries.length).toNat = entries.length := UInt32.toNat_ofNat_of_lt' hcount
  have hheader : ∀ payload, Header.read (Header.writeTo ⟨trigramIndexMagic, trigramIndexVersion, none⟩ ++ payload)
      trigramIndexMagic trigramIndexVersion = some 10 := fun payload => header_read_append (by decide +kernel)
  have hentries := readEntries_flatMap hshort ∅ []
  rw [List.append_nil, h.foldl_insert] at hentries
  unfold parse serialize
  rw [hheader]
  dsimp only
  rw [List.drop_left' (by decide +kernel), readPair_toLeBytes]
  dsimp only
  rw [hlen, hentries]

theorem length_readHits {n : ℕ} {data : List UInt8} {x : List TrigramHit × List UInt8}
    (h : readHits n data = some x) : x.1.length = n := by
  induction n generalizing data x with
  | zero =>
    cases h
    rfl
  | succ n ih =>
    unfold readHits at h
    obtain ⟨pair, -, h⟩ := Option.bind_eq_some_iff.mp h
    obtain ⟨hits, hhits, rfl⟩ := Option.map_eq_some_iff.mp h
    exact congrArg (· + 1) (ih hhits)

def Short (index : HashMap Trigram (List TrigramHit)) : Prop :=
  ∀ tri hits, index.lookup tri = some hits → hits.length < 4294967296

theorem Short.readEntries {n : ℕ} {data : List UInt8} {index : HashMap Trigram (List TrigramHit)}
    {x : HashMap Trigram (List TrigramHit) × List UInt8} (hshort : Short index)
    (h : readEntries n data index = some x) : Short x.1 := by
  induction n generalizing data index with
  | zero =>
    cases h
    exact hshort
  | succ n ih =>
    unfold TrigramIndex.readEntries at h
    obtain ⟨pair, -, h⟩ := Option.bind_eq_some_iff.mp h
    obtain ⟨hits, hhits, h⟩ := Option.bind_eq_some_iff.mp h
    refine ih (fun tri hits' hlookup => ?_) h
    rw [HashMap.lookup_insert_ite] at hlookup
    split_ifs at hlookup with htri
    · cases hlookup
      rw [length_readHits hhits]
      exact pair.1.2.toNat_lt
    · exact hshort tri hits' hlookup

theorem short_of_deserialize {data : List UInt8} {ix : TrigramIndex} (h : deserialize data = .ok ix) : Short ix.index := by
  have hempty : Short ∅ := fun tri hits hlookup => by
    rw [Finmap.lookup_empty] at hlookup
    cases hlookup
  cases hparse : parse data with
  | error e =>
    unfold deserialize at h
    rw [hparse] at h
    cases h
  | ok x =>
    obtain ⟨offset, counts, entries, -, -, hentries, rfl⟩ := parse_eq_ok hparse
    unfold deserialize at h
    rw [hparse] at h
    cases h
    exact hempty.readEntries hentries

theorem deserialize_strict_prefix {p data : List UInt8} {ix : TrigramIndex} (hdata : parse data = .ok (ix, []))
    (hp : p <+: data) (hne : p ≠ data) : ∃ e, deserialize p = .error e := by
  obtain ⟨t, rfl⟩ := hp
  unfold deserialize
  cases hparse : parse p with
  | error e => exact ⟨e, rfl⟩
  | ok x =>
    rw [parse_append hparse] at hdata
    have hnil := (List.append_eq_nil_iff.mp (congrArg Prod.snd (Except.ok.inj hdata))).2
    exact absurd (by rw [hnil, List.append_nil]) hne

theorem hitsOf_foldl_pushHit (docId : UInt32) (ws : List (Trigram × UInt32)) (index : HashMap Trigram (List TrigramHit))
    (tri : Trigram) : hitsOf (ws.foldl (pushHit docId) index) tri =
      hitsOf index tri ++ (ws.filter (·.1 = tri)).map (⟨docId, ·.2⟩) := by
  induction ws generalizing index with
  | nil => exact (List.append_nil _).symm
  | cons w ws ih =>
    rw [List.foldl_cons, ih]
    unfold hitsOf pushHit
    rw [HashMap.lookup_pushEntry]
    by_cases hw : w.1 = tri
    · subst hw
      simp
    · simp [hw, Ne.symm hw]

theorem windows_of_short {bytes : List UInt8} (h : bytes.length < 3) : windows bytes = [] := by
  unfold windows
  rw [Nat.sub_eq_zero_of_le (by omega)]
  rfl

theorem hitsOf_buildFromContent (ix : TrigramIndex) (content : Text) (tri : Trigram) :
    hitsOf (ix.buildFromContent content).index tri =
      hitsOf ix.index tri ++ ((windows content.bytes).filter (·.1 = tri)).map (⟨ix.docCount, ·.2⟩) := by
  unfold buildFromContent
  split_ifs with hlen
  · rw [windows_of_short hlen]
    exact (List.append_nil _).symm
  · exact hitsOf_foldl_pushHit ..

def trigrams : List Trigram := contents.flatMap fun content => (windows content.bytes).map Prod.fst

theorem length_hitsOf_foldl (ix : TrigramIndex) (tri : Trigram) :
    (hitsOf (contents.foldl buildFromContent ix).index tri).length =
      (hitsOf ix.index tri).length + (trigrams contents).count tri := by
  induction contents generalizing ix with
  | nil => rfl
  | cons content contents ih =>
    have hhere : ((windows content.bytes).filter (·.1 = tri)).length = ((windows content.bytes).map Prod.fst).count tri := by
      rw [List.count_eq_countP, List.countP_map, List.countP_eq_length_filter]
      rfl
    rw [List.foldl_cons, ih, hitsOf_buildFromContent, List.length_append, List.length_map, hhere]
    unfold trigrams
    rw [List.flatMap_cons, List.count_append, Nat.add_assoc]

theorem short_build_iff :
    Short (build contents).index ↔ ∀ tri, (trigrams contents).count tri < 4294967296 := by
  have hlength : ∀ tri, (hitsOf (build contents).index tri).length = (trigrams contents).count tri := fun tri =>
    (length_hitsOf_foldl contents new tri).trans (Nat.zero_add _)
  constructor
  · intro h tri
    rw [← hlength]
    unfold hitsOf
    cases hlookup : (build contents).index.lookup tri with
    | none => decide
    | some hits => exact h tri hits hlookup
  · intro h tri hits hlookup
    have := h tri
    rw [← hlength] at this
    unfold hitsOf at this
    rwa [hlookup] at this

theorem makeTrigram_lt (a b c : UInt8) : (makeTrigram a b c).toNat < 16777216 := by
  have ha : a.toNat < 2 ^ 24 := a.toNat_lt.trans (by decide)
  have hb : (b.toUInt32 <<< 8).toNat < 2 ^ 24 := by
    have := b.toNat_lt
    rw [UInt32.toNat_shiftLeft, Nat.shiftLeft_eq]
    exact (Nat.mod_le _ _).trans_lt (by simp; omega)
  have hc : (c.toUInt32 <<< 16).toNat < 2 ^ 24 := by
    have := c.toNat_lt
    rw [UInt32.toNat_shiftLeft, Nat.shiftLeft_eq]
    exact (Nat.mod_le _ _).trans_lt (by simp; omega)
  unfold makeTrigram
  rw [UInt32.toNat_or, UInt32.toNat_or]
  exact Nat.or_lt_two_pow (Nat.or_lt_two_pow ha hb) hc

def SmallKeys (index : HashMap Trigram (List TrigramHit)) : Prop :=
  ∀ tri hits, index.lookup tri = some hits → tri.toNat < 16777216

theorem SmallKeys.foldl_pushHit {docId : UInt32} {ws : List (Trigram × UInt32)}
    (hws : ∀ w ∈ ws, w.1.toNat < 16777216) {index : HashMap Trigram (List TrigramHit)} (h : SmallKeys index) :
    SmallKeys (ws.foldl (pushHit docId) index) := by
  induction ws generalizing index with
  | nil => exact h
  | cons w ws ih =>
    refine ih (fun v hv => hws v (List.mem_cons_of_mem _ hv)) fun tri hits hlookup => ?_
    unfold pushHit at hlookup
    rw [HashMap.lookup_pushEntry] at hlookup
    split_ifs at hlookup with htri
    · exact htri ▸ hws w List.mem_cons_self
    · exact h tri hits hlookup

theorem smallKeys_build : SmallKeys (build contents).index := by
  have hstep : ∀ (ix : TrigramIndex) (content : Text), SmallKeys ix.index → SmallKeys (ix.buildFromContent content).index := by
    intro ix content h
    unfold buildFromContent
    split_ifs
    · exact h
    · refine SmallKeys.foldl_pushHit (fun w hw => ?_) h
      obtain ⟨i, -, rfl⟩ := List.mem_map.mp hw
      exact makeTrigram_lt ..
  have hnew : SmallKeys new.index := fun tri hits hlookup => by
    rw [show new.index.lookup tri = none from Finmap.lookup_empty tri] at hlookup
    cases hlookup
  exact List.foldlRecOn contents buildFromContent hnew fun ix hix content _ => hstep ix content hix

theorem Enumerates.length_lt {entries : List (Trigram × List TrigramHit)} {index : HashMap Trigram (List TrigramHit)}
    (h : Enumerates entries index) (hsmall : SmallKeys index) : entries.length < 4294967296 := by
  have hnodup : (entries.map fun entry => entry.1.toNat).Nodup := by
    have := h.nodup.map (f := UInt32.toNat) fun x y hxy => UInt32.toNat_inj.mp hxy
    rwa [List.map_map] at this
  have hsub : (entries.map fun entry => entry.1.toNat) ⊆ List.range 16777216 := by
    intro n hn
    obtain ⟨entry, hentry, rfl⟩ := List.mem_map.mp hn
    exact List.mem_range.mpr (hsmall entry.1 entry.2 ((h.mem_iff _ _).mp hentry))
  have hlen := (hnodup.subperm hsub).length_le
  rw [List.length_map, List.length_range] at hlen
  omega

theorem mem_dedupRuns {x : UInt32} {l : List UInt32} : x ∈ dedupRuns l ↔ x ∈ l := by
  fun_induction dedupRuns l with
  | case1 => rfl
  | case2 y => rfl
  | case3 y rest ih =>
    rw [ih]
    exact ⟨List.mem_cons_of_mem _, fun h => (List.mem_cons.mp h).elim (fun heq => heq ▸ List.mem_cons_self) id⟩
  | case4 y z rest hne ih => rw [List.mem_cons, ih, ← List.mem_cons]

theorem pairwise_dedupRuns {l : List UInt32} (h : l.Pairwise (· ≤ ·)) : (dedupRuns l).Pairwise (· < ·) := by
  fun_induction dedupRuns l with
  | case1 => exact .nil
  | case2 y => exact List.pairwise_singleton _ _
  | case3 y rest ih => exact ih (List.pairwise_cons.mp h).2
  | case4 y z rest hne ih =>
    obtain ⟨hy, hrest⟩ := List.pairwise_cons.mp h
    refine List.pairwise_cons.mpr ⟨fun x hx => ?_, ih hrest⟩
    have hyz := hy z List.mem_cons_self
    have hzx : z ≤ x := by
      rcases List.mem_cons.mp (mem_dedupRuns.mp hx) with rfl | hx
      · exact UInt32.le_refl _
      · exact (List.pairwise_cons.mp hrest).1 x hx
    have hne' : y.toNat ≠ z.toNat := fun heq => hne (UInt32.toNat_inj.mp heq)
    rw [UInt32.le_iff_toNat_le] at hyz hzx
    rw [UInt32.lt_iff_toNat_lt]
    omega

theorem pairwise_search (ix : TrigramIndex) (query : Text) : (ix.search query).Pairwise (· < ·) := by
  unfold search candidates
  split_ifs
  · exact .nil
  · refine pairwise_dedupRuns ?_
    have htrans : ∀ a b c : UInt32, decide (a ≤ b) = true → decide (b ≤ c) = true → decide (a ≤ c) = true :=
      fun a b c hab hbc => decide_eq_true (UInt32.le_trans (of_decide_eq_true hab) (of_decide_eq_true hbc))
    have htotal : ∀ a b : UInt32, (decide (a ≤ b) || decide (b ≤ a)) = true := by
      intro a b
      rw [Bool.or_eq_true, decide_eq_true_eq, decide_eq_true_eq]
      exact UInt32.le_total a b
    exact (List.pairwise_mergeSort htrans htotal _).imp of_decide_eq_true

theorem mem_search {ix : TrigramIndex} {query : Text} {hit : TrigramHit} (hlen : 3 ≤ query.bytes.length)
    (h : hit ∈ hitsOf ix.index
      (makeTrigram (query.bytes.getD 0 0) (query.bytes.getD 1 0) (query.bytes.getD 2 0))) : hit.docId ∈ ix.search query := by
  unfold search candidates
  rw [if_neg (not_lt.mpr hlen)]
  exact mem_dedupRuns.mpr (List.mem_mergeSort.mpr (List.mem_map.mpr ⟨hit, h, rfl⟩))

theorem hitsOf_foldl_subset (ix : TrigramIndex) (tri : Trigram) :
    hitsOf ix.index tri ⊆ hitsOf (contents.foldl buildFromContent ix).index tri := by
  induction contents generalizing ix with
  | nil => exact List.Subset.refl _
  | cons content contents ih =>
    refine List.Subset.trans ?_ (ih (ix.buildFromContent content))
    rw [hitsOf_buildFromContent]
    exact List.subset_append_left ..

theorem mem_windows {s q t : List UInt8} (hlen : 3 ≤ q.length) :
    (makeTrigram (q.getD 0 0) (q.getD 1 0) (q.getD 2 0), .ofNat s.length) ∈ windows (s ++ q ++ t) := by
  have hget : ∀ i < 3, (s ++ q ++ t).getD (s.length + i) 0 = q.getD i 0 := by
    intro i hi
    rw [List.append_assoc, List.getD_append_right _ _ _ _ (Nat.le_add_right _ _), Nat.add_sub_cancel_left,
      List.getD_append _ _ _ _ (by omega)]
  refine List.mem_map.mpr ⟨s.length, List.mem_range.mpr ?_, ?_⟩
  · rw [List.length_append, List.length_append]
    omega
  · rw [← hget 0 (by decide), ← hget 1 (by decide), ← hget 2 (by decide)]
    rfl

theorem docCount_mem_search (before after : List Text) {content query : Text} (hlen : 3 ≤ query.bytes.length)
    (h : query.bytes <:+: content.bytes) :
    (build before).docCount ∈ (build (before ++ content :: after)).search query := by
  obtain ⟨s, t, hbytes⟩ := h
  have hmem : (⟨(build before).docCount, .ofNat s.length⟩ : TrigramHit) ∈
      hitsOf ((build before).buildFromContent content).index
        (makeTrigram (query.bytes.getD 0 0) (query.bytes.getD 1 0) (query.bytes.getD 2 0)) := by
    rw [hitsOf_buildFromContent, ← hbytes]
    refine List.mem_append_right _ (List.mem_map.mpr ⟨_, List.mem_filter.mpr ⟨mem_windows hlen, decide_eq_true rfl⟩, rfl⟩)
  have hbuild : build (before ++ content :: after) =
      after.foldl buildFromContent ((build before).buildFromContent content) :=
    List.foldl_append
  rw [hbuild]
  exact mem_search hlen (hitsOf_foldl_subset after _ _ hmem)

structure Dependable (contents : List Text) : Prop where
  round_trip : ∀ entries, Enumerates entries (build contents).index →
    deserialize (serialize entries (build contents)) = .ok (build contents)
  truncated : ∀ entries, Enumerates entries (build contents).index → ∀ p, p <+: serialize entries (build contents) →
    p ≠ serialize entries (build contents) → ∃ e, deserialize p = .error e
  complete : ∀ before content after, contents = before ++ content :: after → ∀ query : Text, 3 ≤ query.bytes.length →
    query.bytes <:+: content.bytes → (build before).docCount ∈ (build contents).search query
  increasing : ∀ query : Text, 3 ≤ query.bytes.length → ((build contents).search query).Pairwise (· < ·)

theorem exists_enumerates (index : HashMap Trigram (List TrigramHit)) : ∃ entries, Enumerates entries index := by
  refine ⟨index.keys.toList.map fun tri => (tri, hitsOf index tri), ?_, fun tri hits => ?_⟩
  · rw [List.map_map, show Prod.fst ∘ (fun tri => (tri, hitsOf index tri)) = id from rfl, List.map_id]
    exact index.keys.nodup_toList
  · rw [List.mem_map]
    constructor
    · rintro ⟨tri', hmem, heq⟩
      cases heq
      obtain ⟨hits, hlookup⟩ := Finmap.mem_iff.mp (Finmap.mem_keys.mp (Finset.mem_toList.mp hmem))
      unfold hitsOf
      rw [hlookup]
      rfl
    · intro hlookup
      refine ⟨tri, Finset.mem_toList.mpr (Finmap.mem_keys.mpr (Finmap.mem_iff.mpr ⟨hits, hlookup⟩)), ?_⟩
      unfold hitsOf
      rw [hlookup]
      rfl

theorem Dependable.short {contents : List Text} (h : Dependable contents) : Short (build contents).index := by
  obtain ⟨entries, hentries⟩ := exists_enumerates (build contents).index
  exact short_of_deserialize (h.round_trip entries hentries)

theorem dependable_of_short {contents : List Text} (h : Short (build contents).index) : Dependable contents := by
  have hparse : ∀ entries, Enumerates entries (build contents).index →
      parse (serialize entries (build contents)) = .ok (build contents, []) := fun entries hentries =>
    parse_serialize hentries (hentries.length_lt (smallKeys_build contents)) fun entry hentry =>
      h entry.1 entry.2 ((hentries.mem_iff _ _).mp hentry)
  refine ⟨fun entries hentries => ?_, fun entries hentries p hp hne => deserialize_strict_prefix (hparse entries hentries) hp hne,
    ?_, fun query _ => pairwise_search _ query⟩
  · unfold deserialize
    rw [hparse entries hentries]
    rfl
  · rintro before content after rfl query hlen hinfix
    exact docCount_mem_search before after hlen hinfix

theorem dependable_iff (contents : List Text) :
    Dependable contents ↔ ∀ tri, (trigrams contents).count tri < 4294967296 :=
  ⟨fun h => (short_build_iff contents).mp h.short, fun h => dependable_of_short ((short_build_iff contents).mpr h)⟩

theorem bytes_replicate (n : ℕ) : Text.bytes (List.replicate n 'a') = List.replicate n 97 := by
  induction n with
  | zero => rfl
  | succ n ih =>
    rw [List.replicate_succ, List.replicate_succ, ← ih]
    rfl

theorem count_trigrams_replicate (n : ℕ) :
    (trigrams [List.replicate (n + 2) 'a']).count (makeTrigram 97 97 97) = n := by
  have hwindow : ∀ i ∈ List.range n, makeTrigram ((List.replicate (n + 2) (97 : UInt8)).getD i 0)
      ((List.replicate (n + 2) (97 : UInt8)).getD (i + 1) 0) ((List.replicate (n + 2) (97 : UInt8)).getD (i + 2) 0) =
        makeTrigram 97 97 97 := by
    intro i hi
    have hi := List.mem_range.mp hi
    rw [List.getD_replicate _ (by omega), List.getD_replicate _ (by omega), List.getD_replicate _ (by omega)]
  have htrigrams : trigrams [List.replicate (n + 2) 'a'] = List.replicate n (makeTrigram 97 97 97) := by
    unfold trigrams windows
    rw [List.flatMap_cons, List.flatMap_nil, List.append_nil, bytes_replicate, List.length_replicate, List.map_map,
      Nat.add_sub_cancel]
    refine List.eq_replicate_iff.mpr ⟨by rw [List.length_map, List.length_range], fun tri htri => ?_⟩
    obtain ⟨i, hi, rfl⟩ := List.mem_map.mp htri
    exact hwindow i hi
  rw [htrigrams, List.count_replicate_self]

theorem repeated_letter_not_dependable : ¬ Dependable [List.replicate (4294967296 + 2) 'a'] := by
  intro h
  have hcount := (short_build_iff _).mp h.short (makeTrigram 97 97 97)
  rw [count_trigrams_replicate] at hcount
  exact absurd hcount (lt_irrefl _)

end TrigramIndex

end Fluent.Knowledge
