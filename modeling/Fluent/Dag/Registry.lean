import Fluent.Library.HashContainers
import Mathlib.Data.List.Nodup

namespace Fluent.Dag

open Fluent.Library

abbrev Bits := List Bool

def Bits.iterOnes (bits : Bits) : List ℕ := (List.range bits.length).filter (bits.getD · false)

def Bits.notAny (bits : Bits) : Bool := bits.all (!·)

theorem Bits.notAny_iff (bits : Bits) : bits.notAny ↔ bits.iterOnes = [] := by
  simp only [notAny, iterOnes, List.all_eq_true, List.filter_eq_nil_iff, List.mem_range]
  constructor
  · intro h i hi
    have := h _ (List.getElem_mem hi)
    simpa [List.getD, hi] using this
  · intro h b hb
    obtain ⟨i, hi, rfl⟩ := List.mem_iff_getElem.mp hb
    simpa [List.getD, hi] using h i hi

inductive TargetType
  | file
  | phony
  | abstract
  deriving DecidableEq, Repr

structure Target where
  id : Int64
  name : String
  targetType : TargetType
  depends : Bits
  provides : Bits
  essential : Bool
  deriving DecidableEq

def Target.bitIdx (target : Target) : ℕ := target.id.toUInt64.toNat

theorem Target.bitIdx_inj {s t : Target} (h : s.bitIdx = t.bitIdx) : s.id = t.id := by
  have hu : s.id.toUInt64 = t.id.toUInt64 := UInt64.toNat_inj.mp h
  revert hu
  cases s.id
  cases t.id
  rintro rfl
  rfl

inductive RegistryError
  | duplicateTarget (name : String)
  deriving DecidableEq, Repr

/-- The four tables with what `register` keeps between them. Ids are not checked: the bit index
leads to the last target registered under it. -/
structure TargetRegistry where
  targets : List Target
  byName : HashMap String ℕ
  byBitIndex : HashMap ℕ ℕ
  providers : HashMap ℕ (List ℕ)
  byName_iff : ∀ name i, byName.lookup name = some i ↔ ∃ t, targets[i]? = some t ∧ t.name = name
  byBitIndex_lt : ∀ bit i, byBitIndex.lookup bit = some i → i < targets.length
  byBitIndex_last : ∀ bit, (byBitIndex.lookup bit).bind (targets[·]?) =
    targets.reverse.find? (·.bitIdx = bit)
  providers_eq : ∀ cap, (providers.lookup cap).getD [] =
    (targets.filter (cap ∈ ·.provides.iterOnes)).map Target.bitIdx

namespace TargetRegistry

def new : TargetRegistry where
  targets := []
  byName := ∅
  byBitIndex := ∅
  providers := ∅
  byName_iff := by simp
  byBitIndex_lt := by simp
  byBitIndex_last := by simp
  providers_eq := by simp

variable (r : TargetRegistry)

theorem byName_snoc {target : Target} (h : r.byName.lookup target.name = none)
    (name : String) (i : ℕ) :
    (r.byName.insert target.name r.targets.length).lookup name = some i ↔
      ∃ t, (r.targets ++ [target])[i]? = some t ∧ t.name = name := by
  rw [HashMap.lookup_insert_ite]
  split_ifs with hn
  · subst hn
    constructor
    · intro hi
      obtain rfl := Option.some.inj hi
      exact ⟨target, by simp, rfl⟩
    · rintro ⟨t, ht, hname⟩
      rw [List.getElem?_append] at ht
      split_ifs at ht with hi
      · have := (r.byName_iff target.name i).mpr ⟨t, ht, hname⟩
        rw [h] at this
        simp at this
      · obtain ⟨hlt, -⟩ := List.getElem?_eq_some_iff.mp ht
        rw [List.length_singleton] at hlt
        congr 1
        omega
  · rw [r.byName_iff]
    constructor
    · rintro ⟨t, ht, hname⟩
      exact ⟨t, by rw [List.getElem?_append_left (List.getElem?_eq_some_iff.mp ht).1, ht], hname⟩
    · rintro ⟨t, ht, hname⟩
      rw [List.getElem?_append] at ht
      split_ifs at ht with hi
      · exact ⟨t, ht, hname⟩
      · have := List.mem_of_getElem? ht
        rw [List.mem_singleton] at this
        exact absurd (hname.symm.trans (congrArg Target.name this)) hn

theorem byBitIndex_snoc (target : Target) (bit : ℕ) :
    ((r.byBitIndex.insert target.bitIdx r.targets.length).lookup bit).bind
      ((r.targets ++ [target])[·]?) = (r.targets ++ [target]).reverse.find? (·.bitIdx = bit) := by
  rw [HashMap.lookup_insert_ite, List.reverse_append, List.reverse_singleton, List.singleton_append,
    List.find?_cons]
  split_ifs with h
  · simp [h]
  · have h' : ¬target.bitIdx = bit := fun he => h he.symm
    simp only [h', decide_false]
    rw [← r.byBitIndex_last]
    cases hl : r.byBitIndex.lookup bit with
    | none => rfl
    | some i =>
      have hi := r.byBitIndex_lt bit i hl
      simp [List.getElem?_append_left hi]

theorem providers_snoc (target : Target) (cap : ℕ) :
    ((HashMap.pushEntries r.providers target.provides.iterOnes target.bitIdx).lookup cap).getD [] =
      ((r.targets ++ [target]).filter (cap ∈ ·.provides.iterOnes)).map Target.bitIdx := by
  rw [HashMap.lookup_pushEntries, List.filter_append, List.map_append, ← r.providers_eq]
  have hnodup : target.provides.iterOnes.Nodup := List.nodup_range.filter _
  split_ifs with h
  · rw [List.count_eq_one_of_mem hnodup h]
    simp [h]
  · simp [h]

def register (target : Target) : Except RegistryError TargetRegistry :=
  match hname : r.byName.lookup target.name with
  | some _ => .error (.duplicateTarget target.name)
  | none => .ok {
      targets := r.targets ++ [target]
      byName := r.byName.insert target.name r.targets.length
      byBitIndex := r.byBitIndex.insert target.bitIdx r.targets.length
      providers := HashMap.pushEntries r.providers target.provides.iterOnes target.bitIdx
      byName_iff := r.byName_snoc hname
      byBitIndex_lt := by
        intro bit i h
        rw [HashMap.lookup_insert_ite] at h
        rw [List.length_append, List.length_singleton]
        split_ifs at h
        · have := Option.some.inj h
          omega
        · have := r.byBitIndex_lt bit i h
          omega
      byBitIndex_last := r.byBitIndex_snoc target
      providers_eq := r.providers_snoc target }

def get (name : String) : Option Target :=
  (r.byName.lookup name).bind (r.targets[·]?)

def getByBitIndex (bit : ℕ) : Option Target :=
  (r.byBitIndex.lookup bit).bind (r.targets[·]?)

def getProviders (cap : ℕ) : List Target :=
  match r.providers.lookup cap with
  | none => []
  | some bits => bits.filterMap r.getByBitIndex

theorem register_targets {r r' : TargetRegistry} {target : Target} (h : r.register target = .ok r') :
    r'.targets = r.targets ++ [target] := by
  unfold register at h
  split at h
  · simp at h
  · rw [← Except.ok.inj h]

def registerEach : TargetRegistry → List Target → TargetRegistry × List Target
  | r, [] => (r, [])
  | r, target :: rest =>
    match r.register target with
    | .error _ => registerEach r rest
    | .ok r' => ((registerEach r' rest).1, target :: (registerEach r' rest).2)

theorem registerEach_targets (calls : List Target) :
    (r.registerEach calls).1.targets = r.targets ++ (r.registerEach calls).2 := by
  induction calls generalizing r with
  | nil => simp [registerEach]
  | cons target rest ih =>
    unfold registerEach
    cases h : r.register target with
    | error e => exact ih r
    | ok r' =>
      simp only
      rw [ih r', register_targets h, List.append_assoc, List.singleton_append]

theorem targets_nodup : r.targets.Nodup := by
  apply List.nodup_iff_getElem?_ne_getElem?.mpr
  intro i j hij hj heq
  have hi := List.getElem?_eq_getElem (Nat.lt_trans hij hj)
  have hnames := (r.byName_iff _ i).mpr ⟨_, hi, rfl⟩
  rw [(r.byName_iff _ j).mpr ⟨_, heq ▸ hi, rfl⟩] at hnames
  have := Option.some.inj hnames
  omega

theorem get_eq_some_iff (name : String) (t : Target) :
    r.get name = some t ↔ t ∈ r.targets ∧ t.name = name := by
  simp only [get, Option.bind_eq_some_iff]
  constructor
  · rintro ⟨i, hi, ht⟩
    obtain ⟨t', ht', hname⟩ := (r.byName_iff name i).mp hi
    obtain rfl : t = t' := Option.some.inj (ht.symm.trans ht')
    exact ⟨List.mem_of_getElem? ht, hname⟩
  · rintro ⟨hmem, hname⟩
    obtain ⟨i, hi⟩ := List.mem_iff_getElem?.mp hmem
    exact ⟨i, (r.byName_iff name i).mpr ⟨t, hi, hname⟩, hi⟩

theorem getByBitIndex_eq (bit : ℕ) :
    r.getByBitIndex bit = r.targets.reverse.find? (·.bitIdx = bit) := r.byBitIndex_last bit

theorem mem_of_getByBitIndex {r : TargetRegistry} {bit : ℕ} {t : Target}
    (h : r.getByBitIndex bit = some t) : t ∈ r.targets ∧ t.bitIdx = bit := by
  rw [getByBitIndex_eq] at h
  exact ⟨List.mem_reverse.mp (List.mem_of_find?_eq_some h), by simpa using List.find?_some h⟩

theorem getByBitIndex_self {r : TargetRegistry} {bit : ℕ} {t : Target}
    (h : r.getByBitIndex bit = some t) : r.getByBitIndex t.bitIdx = some t :=
  (mem_of_getByBitIndex h).2 ▸ h

theorem exists_getByBitIndex {r : TargetRegistry} {t : Target} (h : t ∈ r.targets) :
    ∃ t', r.getByBitIndex t.bitIdx = some t' := by
  rw [getByBitIndex_eq]
  apply Option.isSome_iff_exists.mp
  rw [List.find?_isSome]
  exact ⟨t, List.mem_reverse.mpr h, by simp⟩

def bits : Finset ℕ := (r.targets.map Target.bitIdx).toFinset

theorem mem_bits (bit : ℕ) : bit ∈ r.bits ↔ ∃ t, r.getByBitIndex bit = some t := by
  rw [bits, List.mem_toFinset, List.mem_map]
  constructor
  · rintro ⟨t, ht, rfl⟩
    exact exists_getByBitIndex ht
  · rintro ⟨t, ht⟩
    exact ⟨t, mem_of_getByBitIndex ht⟩

theorem getProviders_eq (cap : ℕ) : r.getProviders cap =
    (r.targets.filter (cap ∈ ·.provides.iterOnes)).filterMap (r.getByBitIndex ·.bitIdx) := by
  have hmap := List.filterMap_map (f := Target.bitIdx) (g := r.getByBitIndex)
    (l := r.targets.filter (cap ∈ ·.provides.iterOnes))
  rw [← r.providers_eq] at hmap
  refine Eq.trans ?_ hmap
  unfold getProviders
  cases r.providers.lookup cap <;> rfl

theorem mem_getProviders {r : TargetRegistry} {cap : ℕ} {p : Target} (h : p ∈ r.getProviders cap) :
    r.getByBitIndex p.bitIdx = some p := by
  rw [getProviders_eq, List.mem_filterMap] at h
  obtain ⟨t, -, ht⟩ := h
  exact getByBitIndex_self ht

theorem mem_getProviders_of_provides {r : TargetRegistry} {cap bit : ℕ} {p : Target}
    (hp : r.getByBitIndex bit = some p) (hc : cap ∈ p.provides.iterOnes) : p ∈ r.getProviders cap := by
  rw [getProviders_eq, List.mem_filterMap]
  exact ⟨p, List.mem_filter.mpr ⟨(mem_of_getByBitIndex hp).1, by simpa using hc⟩, getByBitIndex_self hp⟩

theorem getProviders_eq_nil_iff (cap : ℕ) :
    r.getProviders cap = [] ↔ ∀ t ∈ r.targets, cap ∉ t.provides.iterOnes := by
  rw [getProviders_eq, List.filterMap_eq_nil_iff]
  constructor
  · intro h t ht hc
    obtain ⟨t', ht'⟩ := exists_getByBitIndex ht
    rw [h t (List.mem_filter.mpr ⟨ht, by simpa using hc⟩)] at ht'
    simp at ht'
  · intro h t ht
    obtain ⟨hmem, hc⟩ := List.mem_filter.mp ht
    exact absurd (by simpa using hc) (h t hmem)

def DistinctIds : Prop := (r.targets.map Target.id).Nodup

theorem DistinctIds.getByBitIndex {r : TargetRegistry} (hr : r.DistinctIds) {t : Target}
    (ht : t ∈ r.targets) : r.getByBitIndex t.bitIdx = some t := by
  obtain ⟨t', ht'⟩ := exists_getByBitIndex ht
  obtain ⟨hmem, hbit⟩ := mem_of_getByBitIndex ht'
  rw [ht', List.inj_on_of_nodup_map hr hmem ht (Target.bitIdx_inj hbit)]

theorem DistinctIds.getProviders {r : TargetRegistry} (hr : r.DistinctIds) (cap : ℕ) :
    r.getProviders cap = r.targets.filter (cap ∈ ·.provides.iterOnes) := by
  rw [getProviders_eq]
  refine (List.filterMap_congr fun t ht => ?_).trans List.filterMap_some
  exact hr.getByBitIndex (List.mem_filter.mp ht).1

end TargetRegistry

structure CapabilityRegistry where
  names : HashMap String ℕ
  indices : List String
  names_iff : ∀ name i, names.lookup name = some i ↔ indices[i]? = some name

namespace CapabilityRegistry

def new : CapabilityRegistry := ⟨∅, [], by simp⟩

variable (caps : CapabilityRegistry)

theorem names_snoc {name : String} (h : caps.names.lookup name = none)
    (name' : String) (i : ℕ) :
    (caps.names.insert name caps.indices.length).lookup name' = some i ↔
      (caps.indices ++ [name])[i]? = some name' := by
  rw [HashMap.lookup_insert_ite]
  split_ifs with hn
  · subst hn
    constructor
    · intro hi
      obtain rfl := Option.some.inj hi
      simp
    · intro hi
      rw [List.getElem?_append] at hi
      split_ifs at hi
      · rw [(caps.names_iff name' i).mpr hi] at h
        simp at h
      · obtain ⟨hlt, -⟩ := List.getElem?_eq_some_iff.mp hi
        rw [List.length_singleton] at hlt
        congr 1
        omega
  · rw [caps.names_iff]
    constructor
    · intro hi
      rw [List.getElem?_append_left (List.getElem?_eq_some_iff.mp hi).1, hi]
    · intro hi
      rw [List.getElem?_append] at hi
      split_ifs at hi
      · exact hi
      · have := List.mem_of_getElem? hi
        exact absurd (List.mem_singleton.mp this) hn

def intern (name : String) : CapabilityRegistry × ℕ :=
  match hname : caps.names.lookup name with
  | some idx => (caps, idx)
  | none => (⟨caps.names.insert name caps.indices.length, caps.indices ++ [name],
      caps.names_snoc hname⟩, caps.indices.length)

def internList (names : List String) : CapabilityRegistry :=
  names.foldl (fun caps name => (caps.intern name).1) caps

def getIndex (name : String) : Option ℕ := caps.names.lookup name

def getName (idx : ℕ) : Option String := caps.indices[idx]?

end CapabilityRegistry

end Fluent.Dag
