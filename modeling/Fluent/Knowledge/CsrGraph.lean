import Fluent.Library.Fallible
import Fluent.Library.LittleEndian

namespace Fluent.Knowledge

open Fluent.Library (leBytes leValue wordAt length_leBytes leValue_leBytes wordAt_append)

def csrMagic : ℕ := 0x47525343
def csrVersion : ℕ := 1
def serializedCsrSize : ℕ := 20

inductive CsrError
  | invalidMagic
  | unsupportedVersion
  | blobTooShort
deriving DecidableEq

/-- A weight is known by its four bytes only. -/
structure CsrGraph where
  nodeCount : UInt32
  edgeCount : UInt32
  offsets : List UInt64
  targets : List UInt32
  weights : Option (List UInt32)
deriving DecidableEq

def readWords (width : ℕ) : ℕ → List UInt8 → ℕ → Except CsrError (List ℕ × ℕ)
  | 0, _, offset => .ok ([], offset)
  | n + 1, data, offset =>
    if offset + width > data.length then .error .blobTooShort
    else do
      let (rest, offset') ← readWords width n data (offset + width)
      return (wordAt width data offset :: rest, offset')

/-- An increment of a `u32` and a difference of two `usize`: a build with overflow checks panics, one without wraps. -/
def incrementU32 (checks : Bool) (a : UInt32) : Option UInt32 :=
  if a.toNat + 1 < 2 ^ 32 then some (a + 1) else if checks then none else some 0

def subUsize (checks : Bool) (a b : UInt64) : Option UInt64 :=
  if b ≤ a then some (a - b) else if checks then none else some (a - b)

namespace CsrGraph

def readWeights (hasWeights : UInt8) (targetsLen : ℕ) (data : List UInt8) (offset : ℕ) :
    Except CsrError (Option (List UInt32)) :=
  if hasWeights ≠ 0 then do
    let (w, _) ← readWords 4 targetsLen data offset
    return some (w.map UInt32.ofNat)
  else .ok none

def deserializeBody (data : List UInt8) (nodeCount edgeCount : UInt32) (hasWeights : UInt8) (offsetsLen : ℕ) :
    Except CsrError CsrGraph := do
  let (offsets, offset) ← readWords 8 offsetsLen data serializedCsrSize
  let (targets, offset) ← readWords 4 edgeCount.toNat data offset
  let weights ← readWeights hasWeights edgeCount.toNat data offset
  return ⟨nodeCount, edgeCount, offsets.map UInt64.ofNat, targets.map UInt32.ofNat, weights⟩

/-- `none` is a panic: the loader panics where it counts the offsets of `u32::MAX` nodes in a build with checks. -/
def deserialize (checks : Bool) (data : List UInt8) : Option (Except CsrError CsrGraph) :=
  if data.length < serializedCsrSize then some (.error .blobTooShort)
  else if wordAt 4 data 0 ≠ csrMagic then some (.error .invalidMagic)
  else if wordAt 4 data 4 ≠ csrVersion then some (.error .unsupportedVersion)
  else
    let nodeCount := UInt32.ofNat (wordAt 4 data 8)
    let edgeCount := UInt32.ofNat (wordAt 4 data 12)
    let hasWeights := data.getD 16 0
    (incrementU32 checks nodeCount).map fun offsetsLen =>
      deserializeBody data nodeCount edgeCount hasWeights offsetsLen.toNat

def neighbors (g : CsrGraph) (nodeIdx : UInt32) : Option (List UInt32) :=
  let i := nodeIdx.toNat
  if g.offsets.length - 1 ≤ i then some []
  else do
    let start ← g.offsets[i]?
    let stop ← g.offsets[i + 1]?
    if stop.toNat > g.targets.length ∨ start > stop then return []
    if start.toNat ≤ stop.toNat ∧ stop.toNat ≤ g.targets.length then
      return (g.targets.drop start.toNat).take (stop.toNat - start.toNat)
    else none

def degree (checks : Bool) (g : CsrGraph) (nodeIdx : UInt32) : Option UInt32 :=
  let i := nodeIdx.toNat
  if g.offsets.length - 1 ≤ i then some 0
  else do
    let stop ← g.offsets[i + 1]?
    let start ← g.offsets[i]?
    return (← subUsize checks stop start).toUInt32

def bounds (g : CsrGraph) (nodeIdx : UInt32) : Option (UInt64 × UInt64) :=
  if g.offsets.length - 1 ≤ nodeIdx.toNat then none
  else do
    let start ← g.offsets[nodeIdx.toNat]?
    let stop ← g.offsets[nodeIdx.toNat + 1]?
    return (start, stop)

def Agree (checks : Bool) (g : CsrGraph) (nodeIdx : UInt32) : Prop :=
  (∀ b ∈ g.bounds nodeIdx, b.1 ≤ b.2) ∧
    ∃ ns, g.neighbors nodeIdx = some ns ∧ ∃ d, g.degree checks nodeIdx = some d ∧ d.toNat = ns.length

def Sound (g : CsrGraph) (nodeIdx : UInt32) : Prop :=
  ∀ b ∈ g.bounds nodeIdx, b.1 ≤ b.2 ∧ (b.2.toNat ≤ g.targets.length ∨ (b.2.toNat - b.1.toNat) % 2 ^ 32 = 0)

end CsrGraph

theorem readWords_length {width n : ℕ} {data : List UInt8} {offset : ℕ} {out : List ℕ × ℕ}
    (h : readWords width n data offset = .ok out) : out.1.length = n := by
  induction n generalizing offset out with
  | zero =>
    cases h
    rfl
  | succ n ih =>
    rw [readWords] at h
    split at h
    · exact nomatch h
    · cases hr : readWords width n data (offset + width) with
      | error e =>
        rw [hr] at h
        exact nomatch h
      | ok rest =>
        rw [hr] at h
        cases h
        exact congrArg (· + 1) (ih hr)

namespace CsrGraph

theorem deserializeBody_targets {data : List UInt8} {nodeCount edgeCount : UInt32} {hasWeights : UInt8}
    {offsetsLen : ℕ} {g : CsrGraph} (h : deserializeBody data nodeCount edgeCount hasWeights offsetsLen = .ok g) :
    g.targets.length = edgeCount.toNat := by
  rw [deserializeBody] at h
  cases ho : readWords 8 offsetsLen data serializedCsrSize with
  | error e =>
    rw [ho] at h
    exact nomatch h
  | ok offsets =>
    rw [ho] at h
    simp only [bind, Except.bind] at h
    cases ht : readWords 4 edgeCount.toNat data offsets.2 with
    | error e =>
      rw [ht] at h
      exact nomatch h
    | ok targets =>
      rw [ht] at h
      simp only at h
      cases hw : readWeights hasWeights edgeCount.toNat data targets.2 with
      | error e =>
        rw [hw] at h
        exact nomatch h
      | ok weights =>
        rw [hw] at h
        cases h
        simpa using readWords_length ht

theorem targets_length_lt {checks : Bool} {data : List UInt8} {g : CsrGraph}
    (h : deserialize checks data = some (.ok g)) : g.targets.length < 2 ^ 32 := by
  rw [deserialize] at h
  split at h
  · exact nomatch h
  split at h
  · exact nomatch h
  split at h
  · exact nomatch h
  obtain ⟨offsetsLen, -, hbody⟩ := Option.map_eq_some_iff.mp h
  rw [deserializeBody_targets hbody]
  exact UInt32.toNat_lt _

theorem accessors_cases (checks : Bool) (g : CsrGraph) (i : UInt32) :
    (g.bounds i = none ∧ g.neighbors i = some [] ∧ g.degree checks i = some 0) ∨
      ∃ start stop, g.bounds i = some (start, stop) ∧
        g.neighbors i = some (if stop.toNat > g.targets.length ∨ start > stop then []
          else (g.targets.drop start.toNat).take (stop.toNat - start.toNat)) ∧
        g.degree checks i = (subUsize checks stop start).map UInt64.toUInt32 := by
  by_cases hi : g.offsets.length - 1 ≤ i.toNat
  · left
    simp [bounds, neighbors, degree, hi]
  · right
    have hlt : i.toNat < g.offsets.length := by omega
    have hlt' : i.toNat + 1 < g.offsets.length := by omega
    refine ⟨g.offsets[i.toNat], g.offsets[i.toNat + 1], ?_, ?_, ?_⟩
    · simp [bounds, hi, hlt, hlt']
    · simp only [neighbors, hi, if_false, List.getElem?_eq_getElem hlt, List.getElem?_eq_getElem hlt']
      by_cases hbad : g.offsets[i.toNat + 1].toNat > g.targets.length ∨ g.offsets[i.toNat] > g.offsets[i.toNat + 1]
      · simp [hbad]
      · obtain ⟨hend, hstart⟩ := not_or.mp hbad
        have hle : g.offsets[i.toNat].toNat ≤ g.offsets[i.toNat + 1].toNat :=
          UInt64.le_iff_toNat_le.mp (UInt64.not_lt.mp hstart)
        have hend' : g.offsets[i.toNat + 1].toNat ≤ g.targets.length := Nat.le_of_not_gt hend
        simp [hbad, hle, hend']
    · simp only [degree, hi, if_false, List.getElem?_eq_getElem hlt, List.getElem?_eq_getElem hlt']
      cases hsub : subUsize checks g.offsets[i.toNat + 1] g.offsets[i.toNat] <;> simp [hsub]

theorem subUsize_toNat (checks : Bool) {a b : UInt64} (h : b ≤ a) :
    ∃ d, subUsize checks a b = some d ∧ d.toUInt32.toNat = (a.toNat - b.toNat) % 2 ^ 32 := by
  refine ⟨a - b, if_pos h, ?_⟩
  rw [UInt64.toNat_toUInt32, UInt64.toNat_sub_of_le _ _ h]

theorem degree_agrees_iff (checks : Bool) (data : List UInt8) (g : CsrGraph)
    (h : deserialize checks data = some (.ok g)) : (∀ i, g.Agree checks i) ↔ ∀ i, g.Sound i := by
  have hlen := targets_length_lt h
  refine forall_congr' fun i => ?_
  obtain ⟨hb, hn, hd⟩ | ⟨start, stop, hb, hn, hd⟩ := accessors_cases checks g i
  · simp [Agree, Sound, hb, hn, hd]
  · simp only [Agree, Sound, hb, hn, hd, Option.mem_def, Option.some.injEq, forall_eq', exists_eq_left']
    refine and_congr_right fun hle => ?_
    obtain ⟨d, hsub, hval⟩ := subUsize_toNat checks hle
    have hnot : ¬ start > stop := UInt64.not_lt.mpr hle
    have hle' := UInt64.le_iff_toNat_le.mp hle
    simp only [hsub, Option.map_some, Option.some.injEq, exists_eq_left', hval, hnot, or_false]
    by_cases hend : stop.toNat ≤ g.targets.length
    · have hmod : (stop.toNat - start.toNat) % 2 ^ 32 = stop.toNat - start.toNat := Nat.mod_eq_of_lt (by omega)
      simp only [Nat.not_lt.mpr hend, if_false, List.length_take, List.length_drop, hmod, hend, true_or, iff_true]
      omega
    · simp [Nat.lt_of_not_le hend, hend]

def ringBlob : List UInt8 :=
  [0x43, 0x53, 0x52, 0x47, 1, 0, 0, 0, 2, 0, 0, 0, 2, 0, 0, 0, 0, 0, 0, 0,
    0, 0, 0, 0, 0, 0, 0, 0, 1, 0, 0, 0, 0, 0, 0, 0, 2, 0, 0, 0, 0, 0, 0, 0, 1, 0, 0, 0, 0, 0, 0, 0]

def bareBlob (start stop : UInt8) : List UInt8 :=
  [0x43, 0x53, 0x52, 0x47, 1, 0, 0, 0, 1, 0, 0, 0, 0, 0, 0, 0, 0, 0, 0, 0,
    start, 0, 0, 0, 0, 0, 0, 0, stop, 0, 0, 0, 0, 0, 0, 0]

theorem ringBlob_agrees :
    (∀ i, Agree true ⟨2, 2, [0, 1, 2], [1, 0], none⟩ i) ↔ ∀ i, Sound ⟨2, 2, [0, 1, 2], [1, 0], none⟩ i :=
  degree_agrees_iff true ringBlob ⟨2, 2, [0, 1, 2], [1, 0], none⟩ (by decide +kernel)

theorem corrupted_blob_disagrees :
    deserialize true (bareBlob 0 1) = some (.ok ⟨1, 0, [0, 1], [], none⟩) ∧
      neighbors ⟨1, 0, [0, 1], [], none⟩ 0 = some [] ∧ degree true ⟨1, 0, [0, 1], [], none⟩ 0 = some 1 ∧
      deserialize true (bareBlob 1 0) = some (.ok ⟨1, 0, [1, 0], [], none⟩) ∧
      neighbors ⟨1, 0, [1, 0], [], none⟩ 0 = some [] ∧ degree true ⟨1, 0, [1, 0], [], none⟩ 0 = none ∧
      degree false ⟨1, 0, [1, 0], [], none⟩ 0 = some 4294967295 := by
  decide +kernel

end CsrGraph

theorem readWords_append {width : ℕ} {ns : List ℕ} (h : ∀ n ∈ ns, n < 256 ^ width) (pre rest : List UInt8) :
    readWords width ns.length (pre ++ (ns.flatMap (leBytes width) ++ rest)) pre.length =
      .ok (ns, (pre ++ ns.flatMap (leBytes width)).length) := by
  induction ns generalizing pre with
  | nil => simp [readWords]
  | cons n ns ih =>
    obtain ⟨hn, hns⟩ := List.forall_mem_cons.mp h
    have hrest := ih hns (pre ++ leBytes width n)
    simp only [List.length_append, length_leBytes, List.append_assoc] at hrest
    rw [List.length_cons, readWords, if_neg (by simp), List.flatMap_cons, List.append_assoc, hrest, wordAt_append hn]
    simp [bind, Except.bind, pure, Except.pure]

namespace CsrGraph

open Fluent.Library (bind_ok)

def serialize (g : CsrGraph) : List UInt8 :=
  (leBytes 4 csrMagic ++ leBytes 4 csrVersion ++ leBytes 4 g.nodeCount.toNat ++ leBytes 4 g.edgeCount.toNat ++
    [if g.weights.isSome then 1 else 0, 0, 0, 0]) ++ ((g.offsets.map UInt64.toNat).flatMap (leBytes 8) ++
      ((g.targets.map UInt32.toNat).flatMap (leBytes 4) ++ ((g.weights.getD []).map UInt32.toNat).flatMap (leBytes 4)))

structure Shaped (g : CsrGraph) (offsetsLen : ℕ) : Prop where
  offsets : g.offsets.length = offsetsLen
  targets : g.targets.length = g.edgeCount.toNat
  weights : ∀ w ∈ g.weights, w.length = g.edgeCount.toNat

theorem deserialize_serialize (checks : Bool) (g : CsrGraph) :
    deserialize checks g.serialize = (incrementU32 checks g.nodeCount).map fun offsetsLen =>
      deserializeBody g.serialize g.nodeCount g.edgeCount (if g.weights.isSome then 1 else 0) offsetsLen.toNat := by
  have hmagic : wordAt 4 g.serialize 0 = csrMagic := leValue_leBytes 4 csrMagic
  have hversion : wordAt 4 g.serialize 4 = csrVersion := leValue_leBytes 4 csrVersion
  have hnodes : wordAt 4 g.serialize 8 = g.nodeCount.toNat :=
    (leValue_leBytes 4 g.nodeCount.toNat).trans (Nat.mod_eq_of_lt g.nodeCount.toNat_lt)
  have hedges : wordAt 4 g.serialize 12 = g.edgeCount.toNat :=
    (leValue_leBytes 4 g.edgeCount.toNat).trans (Nat.mod_eq_of_lt g.edgeCount.toNat_lt)
  have hflag : g.serialize.getD 16 0 = if g.weights.isSome then 1 else 0 := rfl
  rw [deserialize, if_neg (by simp [serialize, serializedCsrSize]; omega), hmagic, hversion, hnodes, hedges, hflag]
  simp

theorem deserializeBody_shaped {data : List UInt8} {nodeCount edgeCount : UInt32} {hasWeights : UInt8}
    {offsetsLen : ℕ} {g : CsrGraph} (h : deserializeBody data nodeCount edgeCount hasWeights offsetsLen = .ok g) :
    g.Shaped offsetsLen := by
  obtain ⟨offsets, hoffsets, h⟩ := bind_ok h
  obtain ⟨targets, htargets, h⟩ := bind_ok h
  obtain ⟨weights, hweights, h⟩ := bind_ok h
  obtain rfl := Except.ok.inj h
  refine ⟨by simpa using readWords_length hoffsets, by simpa using readWords_length htargets, fun w hw => ?_⟩
  obtain rfl : weights = some w := hw
  rw [readWeights] at hweights
  split at hweights
  · obtain ⟨words, hwords, h⟩ := bind_ok hweights
    obtain rfl := Option.some.inj (Except.ok.inj h)
    simpa using readWords_length hwords
  · cases hweights

theorem Shaped.deserializeBody {g : CsrGraph} {offsetsLen : ℕ} (h : g.Shaped offsetsLen) :
    deserializeBody g.serialize g.nodeCount g.edgeCount (if g.weights.isSome then 1 else 0) offsetsLen = .ok g := by
  obtain ⟨nodeCount, edgeCount, offsets, targets, weights⟩ := g
  obtain ⟨rfl, htargets, hweights⟩ := h
  dsimp only at htargets hweights ⊢
  have h64 : ∀ n ∈ offsets.map UInt64.toNat, n < 256 ^ 8 := List.forall_mem_map.mpr fun x _ => x.toNat_lt
  have h32 : ∀ xs : List UInt32, ∀ n ∈ xs.map UInt32.toNat, n < 256 ^ 4 :=
    fun xs => List.forall_mem_map.mpr fun x _ => x.toNat_lt
  rw [serialize]
  generalize hheader : leBytes 4 csrMagic ++ _ ++ _ ++ _ ++ _ = header
  have hlen : header.length = serializedCsrSize := hheader ▸ rfl
  have hreadO := readWords_append h64 header
  have hreadT := readWords_append (h32 targets) (header ++ (offsets.map UInt64.toNat).flatMap (leBytes 8))
  have hreadW := fun w => readWords_append (h32 w) (header ++ ((offsets.map UInt64.toNat).flatMap (leBytes 8) ++
    (targets.map UInt32.toNat).flatMap (leBytes 4))) []
  simp only [List.length_map, List.append_assoc, List.append_nil, htargets, hlen] at hreadO hreadT hreadW
  rw [CsrGraph.deserializeBody, hreadO]
  dsimp only [bind, Except.bind]
  rw [hreadT]
  cases weights with
  | none => simp [readWeights, pure, Except.pure, Function.comp_def]
  | some w =>
    have hwords := hreadW w
    rw [hweights w rfl] at hwords
    simp only [Option.isSome_some, if_true, Option.getD_some, readWeights, hwords]
    simp [bind, Except.bind, pure, Except.pure, Function.comp_def]

theorem load_saved_iff (checks : Bool) (g : CsrGraph) :
    deserialize checks g.serialize = some (.ok g) ↔
      ∃ offsetsLen, incrementU32 checks g.nodeCount = some offsetsLen ∧ g.Shaped offsetsLen.toNat := by
  rw [deserialize_serialize, Option.map_eq_some_iff]
  refine exists_congr fun offsetsLen => and_congr_right fun _ => ⟨deserializeBody_shaped, Shaped.deserializeBody⟩

end CsrGraph

end Fluent.Knowledge
