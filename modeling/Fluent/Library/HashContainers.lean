import Mathlib.Order.Lattice.Nat
import Mathlib.Data.Finmap
import Mathlib.Data.Finset.Lattice.Fold

namespace Fluent.Library

/-- One enumeration order of a hash set: a hash table promises nothing about it
beyond listing every element once. -/
structure HashOrder (K : Type*) where
  iter : Finset K → List K
  nodup : ∀ s, (iter s).Nodup
  mem_iter : ∀ s x, x ∈ iter s ↔ x ∈ s

def HashOrder.ascending : HashOrder ℕ where
  iter s := (List.range (s.sup id + 1)).filter (· ∈ s)
  nodup _ := List.nodup_range.filter _
  mem_iter s x := by
    simp only [List.mem_filter, List.mem_range, decide_eq_true_eq, and_iff_right_iff_imp]
    exact fun hx => Nat.lt_succ_of_le (Finset.le_sup (f := id) hx)

abbrev HashMap (K V : Type*) := Finmap (fun _ : K => V)

namespace HashMap

variable {K V : Type*} [DecidableEq K]

theorem lookup_insert_ite (m : HashMap K V) (a x : K) (v : V) :
    (m.insert a v).lookup x = if x = a then some v else m.lookup x := by
  split_ifs with h
  · rw [h, Finmap.lookup_insert]
  · rw [Finmap.lookup_insert_of_ne m h]

theorem lookup_erase_ite (m : HashMap K V) (a x : K) :
    (m.erase a).lookup x = if x = a then none else m.lookup x := by
  split_ifs with h
  · rw [h, Finmap.lookup_erase]
  · rw [Finmap.lookup_erase_ne h]

def pushEntry (m : HashMap K (List V)) (k : K) (v : V) : HashMap K (List V) :=
  m.insert k ((m.lookup k).getD [] ++ [v])

theorem lookup_pushEntry (m : HashMap K (List V)) (k x : K) (v : V) :
    (pushEntry m k v).lookup x =
      if x = k then some ((m.lookup k).getD [] ++ [v]) else m.lookup x :=
  lookup_insert_ite m k x _

def pushEntries (m : HashMap K (List V)) (ks : List K) (v : V) : HashMap K (List V) :=
  ks.foldl (fun m k => pushEntry m k v) m

theorem lookup_pushEntries (ks : List K) (m : HashMap K (List V)) (v : V) (x : K) :
    (pushEntries m ks v).lookup x =
      if x ∈ ks then some ((m.lookup x).getD [] ++ List.replicate (ks.count x) v)
      else m.lookup x := by
  induction ks generalizing m with
  | nil => simp [pushEntries]
  | cons k ks ih =>
    change (pushEntries (pushEntry m k v) ks v).lookup x = _
    rw [ih, lookup_pushEntry]
    by_cases hk : x = k
    · subst hk
      by_cases hx : x ∈ ks
      · simp [hx, List.replicate_succ]
      · simp [hx, List.count_eq_zero_of_not_mem hx]
    · have hk' : ¬k = x := fun h => hk h.symm
      simp [hk, hk']

omit [DecidableEq K] in
theorem nodupKeys_filter (p : K → V → Bool) (m : HashMap K V) :
    (m.entries.filter fun e => p e.1 e.2).NodupKeys := by
  rw [← Multiset.nodup_keys]
  exact Multiset.nodup_of_le (Multiset.map_le_map (Multiset.filter_le _ _)) m.nodupKeys.nodup_keys

def retain (p : K → V → Bool) (m : HashMap K V) : HashMap K V :=
  ⟨m.entries.filter fun e => p e.1 e.2, nodupKeys_filter p m⟩

theorem lookup_retain (p : K → V → Bool) (m : HashMap K V) (k : K) :
    (retain p m).lookup k = (m.lookup k).filter (p k) := by
  induction m using Finmap.induction_on with
  | _ s =>
    have hs : (s.entries.filter fun e => p e.1 e.2).NodupKeys := s.nodupKeys.sublist List.filter_sublist
    have hretain : retain p s.toFinmap = AList.toFinmap ⟨s.entries.filter fun e => p e.1 e.2, hs⟩ := by
      apply Finmap.ext
      simp [retain]
    rw [hretain, Finmap.lookup_toFinmap, Finmap.lookup_toFinmap]
    apply Option.ext
    intro v
    rw [← Option.mem_def, AList.mem_lookup_iff, List.mem_filter, ← AList.mem_lookup_iff, Option.filter_eq_some_iff,
      Option.mem_def]

end HashMap

end Fluent.Library
