import Mathlib.Algebra.BigOperators.Group.Finset.Basic
import Mathlib.Algebra.Order.BigOperators.Group.Finset
import Mathlib.Data.Fintype.Card
import Mathlib.Logic.Relation
import Fluent.Library.HashContainers

namespace Fluent.Dag

open Fluent.Library

/-- The ancestors of the classes, as bit vectors with a bit for each place in the list of the class ids. -/
structure TypeInference where
  classCount : ℕ
  ancestors : HashMap ℤ (Finset (Fin classCount))
  idToBit : HashMap ℤ (Fin classCount)

namespace TypeInference

section Rounds

variable {n : ℕ} (idToBit : HashMap ℤ (Fin n)) (ancestors : HashMap ℤ (Finset (Fin n)))

def merged (edge : ℤ × ℤ) : Option (ℤ × Finset (Fin n)) :=
  match idToBit.lookup edge.2, ancestors.lookup edge.1 with
  | some parentBit, some childAncestors =>
    let parentAncestors := (ancestors.lookup edge.2).getD ∅
    if parentBit ∉ childAncestors ∨ ¬parentAncestors ⊆ childAncestors then
      some (edge.1, insert parentBit childAncestors ∪ parentAncestors)
    else none
  | _, _ => none

def updates (edges : List (ℤ × ℤ)) : List (ℤ × Finset (Fin n)) := edges.filterMap (merged idToBit ancestors)

def overwrite (us : List (ℤ × Finset (Fin n))) : HashMap ℤ (Finset (Fin n)) :=
  us.foldl (fun m u => m.insert u.1 u.2) ancestors

def missing : ℕ := ∑ id ∈ ancestors.keys, (n - ((ancestors.lookup id).getD ∅).card)

variable {idToBit ancestors}

theorem merged_eq_some {edge : ℤ × ℤ} {u : ℤ × Finset (Fin n)} (h : merged idToBit ancestors edge = some u) :
    ∃ parentBit old, idToBit.lookup edge.2 = some parentBit ∧ ancestors.lookup edge.1 = some old ∧ u.1 = edge.1 ∧
      u.2 = insert parentBit old ∪ (ancestors.lookup edge.2).getD ∅ ∧ old ⊂ u.2 := by
  unfold merged at h
  cases hbit : idToBit.lookup edge.2 with
  | none => simp [hbit] at h
  | some parentBit =>
    cases hold : ancestors.lookup edge.1 with
    | none => simp [hbit, hold] at h
    | some old =>
      simp only [hbit, hold] at h
      split_ifs at h with hnew
      obtain rfl := Option.some.inj h
      refine ⟨parentBit, old, rfl, rfl, rfl, rfl, Finset.ssubset_iff_subset_ne.mpr ⟨?_, fun heq => ?_⟩⟩
      · exact (Finset.subset_insert _ _).trans Finset.subset_union_left
      · dsimp only at heq
        rcases hnew with hnew | hnew
        · exact hnew (heq ▸ Finset.mem_union_left _ (Finset.mem_insert_self _ _))
        · apply hnew
          conv_rhs => rw [heq]
          exact Finset.subset_union_right

theorem merged_eq_none {edge : ℤ × ℤ} (h : merged idToBit ancestors edge = none) {parentBit : Fin n}
    (hbit : idToBit.lookup edge.2 = some parentBit) {old : Finset (Fin n)} (hold : ancestors.lookup edge.1 = some old) :
    parentBit ∈ old ∧ (ancestors.lookup edge.2).getD ∅ ⊆ old := by
  simp only [merged, hbit, hold, ite_eq_right_iff, reduceCtorEq, imp_false, not_or, not_not] at h
  exact h

theorem lookup_overwrite (us : List (ℤ × Finset (Fin n))) (ancestors : HashMap ℤ (Finset (Fin n))) (id : ℤ) :
    (∀ u ∈ us, u.1 ≠ id) ∧ (overwrite ancestors us).lookup id = ancestors.lookup id ∨
      ∃ u ∈ us, u.1 = id ∧ (overwrite ancestors us).lookup id = some u.2 := by
  induction us generalizing ancestors with
  | nil => exact .inl ⟨by simp, rfl⟩
  | cons u us ih =>
    change _ ∧ (overwrite (ancestors.insert u.1 u.2) us).lookup id = _ ∨ ∃ v ∈ u :: us, v.1 = id ∧
      (overwrite (ancestors.insert u.1 u.2) us).lookup id = _
    rcases ih (ancestors.insert u.1 u.2) with ⟨hnone, hlookup⟩ | ⟨v, hv, hid, hlookup⟩
    · rw [hlookup, HashMap.lookup_insert_ite]
      by_cases hu : id = u.1
      · exact .inr ⟨u, List.mem_cons_self, hu.symm, if_pos hu⟩
      · exact .inl ⟨List.forall_mem_cons.mpr ⟨fun h => hu h.symm, hnone⟩, if_neg hu⟩
    · exact .inr ⟨v, List.mem_cons_of_mem _ hv, hid, hlookup⟩

theorem mem_updates {edges : List (ℤ × ℤ)} {u : ℤ × Finset (Fin n)} (h : u ∈ updates idToBit ancestors edges) :
    ∃ edge ∈ edges, merged idToBit ancestors edge = some u := List.mem_filterMap.mp h

theorem lookup_round (idToBit : HashMap ℤ (Fin n)) (edges : List (ℤ × ℤ)) {id : ℤ} {old : Finset (Fin n)}
    (h : ancestors.lookup id = some old) :
    ∃ bits, (overwrite ancestors (updates idToBit ancestors edges)).lookup id = some bits ∧ old ⊆ bits ∧
      ((∃ u ∈ updates idToBit ancestors edges, u.1 = id) → old ⊂ bits) := by
  rcases lookup_overwrite (updates idToBit ancestors edges) ancestors id with ⟨hnone, hlookup⟩ | ⟨u, hu, hid, hlookup⟩
  · exact ⟨old, hlookup.trans h, Finset.Subset.refl _, fun ⟨u, hu, hid⟩ => absurd hid (hnone u hu)⟩
  · obtain ⟨edge, -, hedge⟩ := mem_updates hu
    obtain ⟨-, old', -, hold, hfst, -, hgrows⟩ := merged_eq_some hedge
    rw [← hfst, hid, h] at hold
    obtain rfl := Option.some.inj hold
    exact ⟨u.2, hlookup, hgrows.subset, fun _ => hgrows⟩

theorem lookup_round_none {edges : List (ℤ × ℤ)} {id : ℤ} (h : ancestors.lookup id = none) :
    (overwrite ancestors (updates idToBit ancestors edges)).lookup id = none := by
  rcases lookup_overwrite (updates idToBit ancestors edges) ancestors id with ⟨-, hlookup⟩ | ⟨u, hu, hid, -⟩
  · exact hlookup.trans h
  · obtain ⟨edge, -, hedge⟩ := mem_updates hu
    obtain ⟨-, old, -, hold, hfst, -⟩ := merged_eq_some hedge
    rw [← hfst, hid, h] at hold
    cases hold

theorem keys_round (edges : List (ℤ × ℤ)) :
    (overwrite ancestors (updates idToBit ancestors edges)).keys = ancestors.keys := by
  ext id
  rw [Finmap.mem_keys, Finmap.mem_keys, ← not_iff_not, ← Finmap.lookup_eq_none, ← Finmap.lookup_eq_none]
  cases hold : ancestors.lookup id with
  | none => simp [lookup_round_none hold]
  | some old =>
    obtain ⟨bits, hbits, -⟩ := lookup_round idToBit edges hold
    simp [hbits]

theorem missing_round {edges : List (ℤ × ℤ)} {u : ℤ × Finset (Fin n)} (hu : u ∈ updates idToBit ancestors edges) :
    missing (overwrite ancestors (updates idToBit ancestors edges)) < missing ancestors := by
  unfold missing
  rw [keys_round]
  obtain ⟨edge, -, hedge⟩ := mem_updates hu
  obtain ⟨-, old, -, hold, hfst, -⟩ := merged_eq_some hedge
  rw [← hfst] at hold
  have hcard (bits : Finset (Fin n)) : bits.card ≤ n := (Finset.card_le_univ bits).trans_eq (Fintype.card_fin n)
  apply Finset.sum_lt_sum
  · intro id hid
    obtain ⟨before, hbefore⟩ := Finmap.mem_iff.mp (Finmap.mem_keys.mp hid)
    obtain ⟨bits, hbits, hsub, -⟩ := lookup_round idToBit edges hbefore
    rw [hbits, hbefore]
    exact Nat.sub_le_sub_left (Finset.card_le_card hsub) n
  · obtain ⟨bits, hbits, -, hgrows⟩ := lookup_round idToBit edges hold
    refine ⟨u.1, Finmap.mem_keys.mpr (Finmap.mem_of_lookup_eq_some hold), ?_⟩
    have hlt : old.card < bits.card := Finset.card_lt_card (hgrows ⟨u, hu, rfl⟩)
    have hle := hcard bits
    rw [hbits, hold]
    change n - bits.card < n - old.card
    omega

variable (idToBit)

def fixpoint (edges : List (ℤ × ℤ)) (ancestors : HashMap ℤ (Finset (Fin n))) : HashMap ℤ (Finset (Fin n)) :=
  let us := updates idToBit ancestors edges
  if _hchanged : ∃ u ∈ us, ancestors.lookup u.1 ≠ some u.2 then fixpoint edges (overwrite ancestors us)
  else overwrite ancestors us
termination_by missing ancestors
decreasing_by
  obtain ⟨u, hu, -⟩ := _hchanged
  exact missing_round hu

end Rounds

def bitOf (classIds : List ℤ) : HashMap ℤ (Fin classIds.length) :=
  (List.finRange classIds.length).foldl (fun m i => m.insert (classIds.get i) i) ∅

def ownBits (classIds : List ℤ) : HashMap ℤ (Finset (Fin classIds.length)) :=
  classIds.foldl (fun m id => m.insert id ((bitOf classIds).lookup id).toFinset) ∅

def build (classIds : List ℤ) (edges : List (ℤ × ℤ)) : TypeInference :=
  ⟨classIds.length, fixpoint (bitOf classIds) edges (ownBits classIds), bitOf classIds⟩

def isSubclassOf (ti : TypeInference) (child parent : ℤ) : Bool :=
  match ti.idToBit.lookup child, ti.idToBit.lookup parent with
  | some _, some parentBit =>
    match ti.ancestors.lookup child with
    | some childAncestors => parentBit ∈ childAncestors
    | none => false
  | _, _ => false

variable {classIds : List ℤ} {edges : List (ℤ × ℤ)}

theorem foldl_insert_get (ks : List (Fin classIds.length)) (m : HashMap ℤ (Fin classIds.length)) (id : ℤ) :
    (∀ i ∈ ks, classIds.get i ≠ id) ∧
        (ks.foldl (fun m i => m.insert (classIds.get i) i) m).lookup id = m.lookup id ∨
      ∃ i ∈ ks, classIds.get i = id ∧ (ks.foldl (fun m i => m.insert (classIds.get i) i) m).lookup id = some i := by
  induction ks generalizing m with
  | nil => exact .inl ⟨by simp, rfl⟩
  | cons k ks ih =>
    rw [List.foldl_cons]
    rcases ih (m.insert (classIds.get k) k) with ⟨hnone, hlookup⟩ | ⟨i, hi, hid, hlookup⟩
    · rw [hlookup, HashMap.lookup_insert_ite]
      by_cases hk : id = classIds.get k
      · exact .inr ⟨k, List.mem_cons_self, hk.symm, if_pos hk⟩
      · exact .inl ⟨List.forall_mem_cons.mpr ⟨fun h => hk h.symm, hnone⟩, if_neg hk⟩
    · exact .inr ⟨i, List.mem_cons_of_mem _ hi, hid, hlookup⟩

theorem get_bitOf {id : ℤ} {bit : Fin classIds.length} (h : (bitOf classIds).lookup id = some bit) :
    classIds.get bit = id := by
  rcases foldl_insert_get (List.finRange classIds.length) ∅ id with ⟨-, hlookup⟩ | ⟨i, -, hid, hlookup⟩
  · cases (h.symm.trans hlookup).trans (Finmap.lookup_empty id)
  · obtain rfl := Option.some.inj (h.symm.trans hlookup)
    exact hid

theorem exists_bitOf {id : ℤ} : (∃ bit, (bitOf classIds).lookup id = some bit) ↔ id ∈ classIds := by
  constructor
  · rintro ⟨bit, h⟩
    exact get_bitOf h ▸ List.get_mem classIds bit
  · intro h
    obtain ⟨i, hi⟩ := List.get_of_mem h
    rcases foldl_insert_get (List.finRange classIds.length) ∅ id with ⟨hnone, -⟩ | ⟨i, -, -, hlookup⟩
    · exact absurd hi (hnone i (List.mem_finRange i))
    · exact ⟨i, hlookup⟩

theorem lookup_ownBits {id : ℤ} : (ownBits classIds).lookup id =
    if id ∈ classIds then some ((bitOf classIds).lookup id).toFinset else none := by
  have hrun : ∀ (ids : List ℤ) (m : HashMap ℤ (Finset (Fin classIds.length))),
      (ids.foldl (fun m id => m.insert id ((bitOf classIds).lookup id).toFinset) m).lookup id =
        if id ∈ ids then some ((bitOf classIds).lookup id).toFinset else m.lookup id := by
    intro ids
    induction ids with
    | nil => intro m; rfl
    | cons k ids ih =>
      intro m
      rw [List.foldl_cons, ih, HashMap.lookup_insert_ite]
      rcases eq_or_ne id k with rfl | hk
      · by_cases hids : id ∈ ids <;> simp [hids]
      · simp [hk]
  exact (hrun classIds ∅).trans (by rw [Finmap.lookup_empty])

def Step (classIds : List ℤ) (edges : List (ℤ × ℤ)) (c p : ℤ) : Prop :=
  (c, p) ∈ edges ∧ c ∈ classIds ∧ p ∈ classIds

structure Sound (classIds : List ℤ) (edges : List (ℤ × ℤ)) (ancestors : HashMap ℤ (Finset (Fin classIds.length))) :
    Prop where
  own : ∀ id bit, (bitOf classIds).lookup id = some bit → ∃ bits, ancestors.lookup id = some bits ∧ bit ∈ bits
  above : ∀ id bits, ancestors.lookup id = some bits → id ∈ classIds ∧ ∀ bit ∈ bits, ∃ p,
    (bitOf classIds).lookup p = some bit ∧ Relation.ReflTransGen (Step classIds edges) id p

theorem sound_ownBits (classIds : List ℤ) (edges : List (ℤ × ℤ)) : Sound classIds edges (ownBits classIds) where
  own id bit h := ⟨_, by rw [lookup_ownBits, if_pos (exists_bitOf.mp ⟨bit, h⟩)], by simp [h]⟩
  above id bits h := by
    rw [lookup_ownBits] at h
    split_ifs at h with hid
    obtain rfl := Option.some.inj h
    refine ⟨hid, fun bit hbit => ⟨id, ?_, .refl⟩⟩
    simpa using hbit

theorem Sound.round {ancestors : HashMap ℤ (Finset (Fin classIds.length))} (h : Sound classIds edges ancestors) :
    Sound classIds edges (overwrite ancestors (updates (bitOf classIds) ancestors edges)) where
  own id bit hbit := by
    obtain ⟨old, hold, hmem⟩ := h.own id bit hbit
    obtain ⟨bits, hbits, hsub, -⟩ := lookup_round (bitOf classIds) edges hold
    exact ⟨bits, hbits, hsub hmem⟩
  above id bits hbits := by
    rcases lookup_overwrite (updates (bitOf classIds) ancestors edges) ancestors id with
      ⟨-, hlookup⟩ | ⟨u, hu, hid, hlookup⟩
    · exact h.above id bits (hlookup.symm.trans hbits)
    · obtain ⟨⟨child, parent⟩, hedge, hmerged⟩ := mem_updates hu
      obtain ⟨parentBit, old, hparent, hold, hchild, hu, -⟩ := merged_eq_some hmerged
      obtain rfl : bits = u.2 := Option.some.inj (hbits.symm.trans hlookup)
      obtain rfl : child = id := hchild.symm.trans hid
      obtain ⟨hregistered, habove⟩ := h.above child old hold
      have hstep : Step classIds edges child parent := ⟨hedge, hregistered, exists_bitOf.mp ⟨parentBit, hparent⟩⟩
      refine ⟨hregistered, fun bit hbit => ?_⟩
      rw [hu, Finset.mem_union, Finset.mem_insert] at hbit
      rcases hbit with (rfl | hbit) | hbit
      · exact ⟨parent, hparent, .single hstep⟩
      · exact habove bit hbit
      · cases hpa : ancestors.lookup parent with
        | none => simp [hpa] at hbit
        | some pa =>
          rw [hpa, Option.getD_some] at hbit
          obtain ⟨p, hp, hpath⟩ := (h.above parent pa hpa).2 bit hbit
          exact ⟨p, hp, .head hstep hpath⟩

theorem Sound.fixpoint {ancestors : HashMap ℤ (Finset (Fin classIds.length))} (h : Sound classIds edges ancestors) :
    Sound classIds edges (fixpoint (bitOf classIds) edges ancestors) ∧
      ∀ edge ∈ edges, merged (bitOf classIds) (TypeInference.fixpoint (bitOf classIds) edges ancestors) edge = none := by
  fun_induction TypeInference.fixpoint (bitOf classIds) edges ancestors with
  | case1 ancestors us hchanged ih => exact ih h.round
  | case2 ancestors us hchanged =>
    have hnone : us = [] := by
      apply List.eq_nil_iff_forall_not_mem.mpr
      intro u hu
      obtain ⟨edge, -, hedge⟩ := mem_updates hu
      obtain ⟨-, old, -, hold, hfst, -, hgrows⟩ := merged_eq_some hedge
      refine hchanged ⟨u, hu, fun heq => ?_⟩
      rw [hfst, hold] at heq
      exact hgrows.ne (Option.some.inj heq)
    rw [hnone]
    exact ⟨h, List.filterMap_eq_nil_iff.mp hnone⟩

theorem is_subclass_of_iff_reachable (classIds : List ℤ) (edges : List (ℤ × ℤ)) (c p : ℤ) :
    (build classIds edges).isSubclassOf c p = true ↔
      c ∈ classIds ∧ p ∈ classIds ∧ Relation.ReflTransGen (Step classIds edges) c p := by
  obtain ⟨hsound, hclosed⟩ := (sound_ownBits classIds edges).fixpoint
  constructor
  · intro h
    unfold isSubclassOf build at h
    dsimp only at h
    split at h
    · next childBit parentBit hc hp =>
      split at h
      · next bits hbits =>
        obtain ⟨q, hq, hpath⟩ := (hsound.above c bits hbits).2 parentBit (of_decide_eq_true h)
        obtain rfl : q = p := (get_bitOf hq).symm.trans (get_bitOf hp)
        exact ⟨exists_bitOf.mp ⟨_, hc⟩, exists_bitOf.mp ⟨_, hp⟩, hpath⟩
      · cases h
    · cases h
  · rintro ⟨hc, hp, hpath⟩
    obtain ⟨parentBit, hparent⟩ := exists_bitOf.mpr hp
    obtain ⟨childBit, hchild⟩ := exists_bitOf.mpr hc
    have hmem : ∃ bits, (fixpoint (bitOf classIds) edges (ownBits classIds)).lookup c = some bits ∧ parentBit ∈ bits := by
      clear hchild childBit
      induction hpath using Relation.ReflTransGen.head_induction_on with
      | refl => exact hsound.own p parentBit hparent
      | @head c m hstep _ ih =>
        obtain ⟨above, habove, hbit⟩ := ih hstep.2.2
        obtain ⟨mBit, hm⟩ := exists_bitOf.mpr hstep.2.2
        obtain ⟨childBit, hchild⟩ := exists_bitOf.mpr hstep.2.1
        obtain ⟨bits, hbits, -⟩ := hsound.own c childBit hchild
        have hsub := (merged_eq_none (hclosed (c, m) hstep.1) hm hbits).2
        rw [habove] at hsub
        exact ⟨bits, hbits, hsub hbit⟩
    obtain ⟨bits, hbits, hbit⟩ := hmem
    unfold isSubclassOf build
    dsimp only
    rw [hchild, hparent]
    dsimp only
    rw [hbits]
    exact decide_eq_true hbit

end TypeInference

end Fluent.Dag
