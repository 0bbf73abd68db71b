import Fluent.Dag.NarrowRound
import Fluent.Dag.PlanOrder

namespace Fluent.Dag.DependencyResolver

open Fluent.Library

variable {r : DependencyResolver} {caps : CapabilityRegistry}

theorem narrowLoop_eq (hash : HashOrders) (st : NarrowState) : r.narrowLoop caps hash st =
    match r.narrowRound caps hash st with
    | .error e => .error e
    | .ok st' => if st'.changed then r.narrowLoop caps hash st' else .ok st' := by
  rw [narrowLoop]
  split <;> simp_all

theorem narrowLoop_hash (hash hash' : HashOrders) {st : NarrowState}
    (hst : ∀ cap ∈ st.narrowed, r.Contested cap) :
    (r.narrowLoop caps hash st).toOption = (r.narrowLoop caps hash' st).toOption := by
  have hround : ∀ st, (∀ cap ∈ st.narrowed, r.Contested cap) →
      (r.narrowRound caps hash st).toOption = (r.narrowRound caps hash' st).toOption :=
    fun _ => narrowRound_hash hash hash'
  fun_induction r.narrowLoop caps hash st with
  | case1 st e he =>
    obtain ⟨e', he'⟩ := toOption_error (hround st hst) he
    rw [narrowLoop_eq, he']
    rfl
  | case2 st mid hmid hc ih =>
    rw [narrowLoop_eq hash' st, toOption_ok (hround st hst) hmid]
    simp only [hc, ↓reduceIte]
    exact ih (narrowRound_ok hst hmid).1.contested
  | case3 st mid hmid hc =>
    rw [narrowLoop_eq, toOption_ok (hround st hst) hmid]
    simp only [hc, Bool.false_eq_true, ↓reduceIte]

theorem narrowSelection_hash (hash hash' : HashOrders) (seeds : List ℕ) :
    (r.narrowSelection caps hash seeds).toOption = (r.narrowSelection caps hash' seeds).toOption := by
  refine toOption_bind ?_ fun st => ?_
  · apply narrowLoop_hash
    simp [NarrowState.start]
  · refine toOption_bind ?_ fun expansion => ?_
    · apply ClosureCtx.transitiveClosure_congr
      intro bit
      rw [hash.resolvedSet.mem_iter, hash'.resolvedSet.mem_iter]
    · rfl

theorem any_multiProvider_hash (hash hash' : HashOrders) (closureSet : Finset ℕ) :
    (hash.closureSet.iter closureSet).any r.multiProvider =
      (hash'.closureSet.iter closureSet).any r.multiProvider := by
  rw [Bool.eq_iff_iff, List.any_eq_true, List.any_eq_true]
  simp only [hash.closureSet.mem_iter, hash'.closureSet.mem_iter]

theorem selected_hash (hash hash' : HashOrders) (names : List String) :
    (r.selected hash names).toOption = (r.selected hash' names).toOption := by
  unfold selected
  split_ifs
  · rfl
  · refine toOption_bind rfl fun seeds => ?_
    cases r.selection with
    | all => rfl
    | narrowOne =>
      cases r.caps with
      | none => rfl
      | some caps =>
        refine toOption_bind rfl fun closureSet => ?_
        rw [any_multiProvider_hash hash hash']
        split_ifs
        · rfl
        · exact narrowSelection_hash hash hash' seeds

theorem resolve_hash (hash hash' : HashOrders) (names : List String) :
    (r.resolve hash names).toOption = (r.resolve hash' names).toOption := by
  rw [resolve_eq, resolve_eq]
  exact toOption_bind (selected_hash hash hash' names) (planFromSet_hash hash hash')

theorem resolve_independent_of_hash_order (r : DependencyResolver) (hash hash' : HashOrders)
    (names : List String) :
    (∃ plan, r.resolve hash names = .ok plan ∧ r.resolve hash' names = .ok plan) ∨
      ∃ e e', r.resolve hash names = .error e ∧ r.resolve hash' names = .error e' := by
  have heq : (r.resolve hash names).toOption = (r.resolve hash' names).toOption :=
    resolve_hash hash hash' names
  cases h : r.resolve hash names with
  | ok plan => exact Or.inl ⟨plan, rfl, toOption_ok heq h⟩
  | error e =>
    obtain ⟨e', he'⟩ := toOption_error heq h
    exact Or.inr ⟨e, e', rfl, he'⟩

end Fluent.Dag.DependencyResolver
