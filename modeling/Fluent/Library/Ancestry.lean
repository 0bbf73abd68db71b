import Mathlib.Data.Finset.Filter
import Mathlib.Data.Finset.Erase
import Mathlib.Order.Defs.LinearOrder

namespace Fluent.Library

structure Ancestry (α : Type*) where
  parent : α → Option α
  size : α → ℕ
  parent_lt : ∀ {p q}, parent p = some q → size q < size p

namespace Ancestry

variable {α : Type*} (t : Ancestry α)

def ancestors (p : α) : List α :=
  match _h : t.parent p with
  | none => []
  | some q => q :: ancestors q
termination_by t.size p
decreasing_by exact t.parent_lt ‹_›

def Above (q p : α) : Prop := q ∈ t.ancestors p

def AtOrAbove (q p : α) : Prop := q = p ∨ t.Above q p

variable {t}

theorem ancestors_of_none {p : α} (h : t.parent p = none) : t.ancestors p = [] := by
  rw [ancestors]
  split
  · rfl
  · next q hq => exact nomatch h.symm.trans hq

theorem ancestors_of_some {p q : α} (h : t.parent p = some q) : t.ancestors p = q :: t.ancestors q := by
  rw [ancestors]
  split
  · next hq => exact nomatch h.symm.trans hq
  · next r hr => rw [Option.some.inj (h.symm.trans hr)]

theorem above_iff {q p : α} : t.Above q p ↔ ∃ r, t.parent p = some r ∧ t.AtOrAbove q r := by
  unfold Above AtOrAbove
  cases h : t.parent p with
  | none => simp [ancestors_of_none h]
  | some r => simp [ancestors_of_some h, Above]

theorem AtOrAbove.refl (p : α) : t.AtOrAbove p p := .inl rfl

theorem Above.size_lt {q p : α} (h : t.Above q p) : t.size q < t.size p := by
  induction hn : t.size p using Nat.strong_induction_on generalizing p with
  | _ n ih =>
    obtain ⟨r, hr, rfl | habove⟩ := above_iff.mp h
    · exact hn ▸ t.parent_lt hr
    · have hlt := t.parent_lt hr
      rw [hn] at hlt
      exact (ih _ hlt habove rfl).trans hlt

theorem Above.trans {r q p : α} (hrq : t.Above r q) (hqp : t.Above q p) : t.Above r p := by
  induction hn : t.size p using Nat.strong_induction_on generalizing p with
  | _ n ih =>
    obtain ⟨s, hs, rfl | habove⟩ := above_iff.mp hqp
    · exact above_iff.mpr ⟨q, hs, .inr hrq⟩
    · exact above_iff.mpr ⟨s, hs, .inr (ih _ (hn ▸ t.parent_lt hs) habove rfl)⟩

theorem Above.trans_atOrAbove {r q p : α} (hrq : t.Above r q) (hqp : t.AtOrAbove q p) : t.Above r p := by
  obtain rfl | hqp := hqp
  · exact hrq
  · exact hrq.trans hqp

theorem AtOrAbove.trans {r q p : α} (hrq : t.AtOrAbove r q) (hqp : t.AtOrAbove q p) : t.AtOrAbove r p := by
  obtain rfl | hrq := hrq
  · exact hqp
  · exact .inr (hrq.trans_atOrAbove hqp)

section Scopes

variable [DecidableEq α] (t)

def hasAncestor (paths : Finset α) (target : α) : Bool := (t.ancestors target).any (· ∈ paths)

def tops (paths : Finset α) : Finset α := paths.filter fun p => t.hasAncestor paths p = false

def prune (order : List α) (paths : Finset α) : Finset α :=
  order.foldl (fun paths p => if t.hasAncestor paths p then paths.erase p else paths) paths

variable {t}

variable {paths : Finset α}

theorem hasAncestor_iff {p : α} : t.hasAncestor paths p = true ↔ ∃ q ∈ paths, t.Above q p := by
  unfold hasAncestor Above
  simp only [List.any_eq_true, decide_eq_true_eq]
  exact ⟨fun ⟨q, hq, hmem⟩ => ⟨q, hmem, hq⟩, fun ⟨q, hmem, hq⟩ => ⟨q, hq, hmem⟩⟩

theorem hasAncestor_eq_false_iff {p : α} :
    t.hasAncestor paths p = false ↔ ∀ q ∈ paths, ¬t.Above q p := by
  rw [← Bool.not_eq_true, hasAncestor_iff]
  simp

theorem mem_tops {p : α} : p ∈ t.tops paths ↔ p ∈ paths ∧ ∀ q ∈ paths, ¬t.Above q p := by
  rw [tops, Finset.mem_filter, hasAncestor_eq_false_iff]

theorem exists_top {p : α} (h : p ∈ paths) : ∃ q ∈ t.tops paths, t.AtOrAbove q p := by
  induction hn : t.size p using Nat.strong_induction_on generalizing p with
  | _ n ih =>
    by_cases htop : ∃ q ∈ paths, t.Above q p
    · obtain ⟨q, hq, hqp⟩ := htop
      obtain ⟨r, hr, hrq⟩ := ih _ (hn ▸ hqp.size_lt) hq rfl
      exact ⟨r, hr, hrq.trans (.inr hqp)⟩
    · exact ⟨p, mem_tops.mpr ⟨h, fun q hq hqp => htop ⟨q, hq, hqp⟩⟩, .refl p⟩

theorem exists_tops_above {p : α} :
    (∃ q ∈ t.tops paths, t.Above q p) ↔ ∃ q ∈ paths, t.Above q p := by
  constructor
  · rintro ⟨q, hq, hqp⟩
    exact ⟨q, (mem_tops.mp hq).1, hqp⟩
  · rintro ⟨q, hq, hqp⟩
    obtain ⟨r, hr, rfl | hrq⟩ := exists_top (t := t) hq
    · exact ⟨r, hr, hqp⟩
    · exact ⟨r, hr, hrq.trans hqp⟩

theorem prune_eq_filter {paths left : Finset α} (order : List α) (hsub : left ⊆ paths) (htops : t.tops paths ⊆ left) :
    t.prune order left = left.filter fun p => p ∈ t.tops paths ∨ p ∉ order := by
  induction order generalizing left with
  | nil => simp [prune]
  | cons p order ih =>
    have hanc : t.hasAncestor left p = t.hasAncestor paths p := by
      rw [Bool.eq_iff_iff, hasAncestor_iff, hasAncestor_iff]
      refine ⟨fun ⟨q, hq, hqp⟩ => ⟨q, hsub hq, hqp⟩, fun h => ?_⟩
      obtain ⟨q, hq, hqp⟩ := exists_tops_above.mpr h
      exact ⟨q, htops hq, hqp⟩
    change t.prune order (if t.hasAncestor left p then left.erase p else left) = _
    rw [hanc]
    split_ifs with h
    · have hp : p ∉ t.tops paths := fun hp => by
        rw [tops, Finset.mem_filter, h] at hp
        exact nomatch hp.2
      have hleft : t.tops paths ⊆ left.erase p := by
        intro q hq
        refine Finset.mem_erase.mpr ⟨fun he => ?_, htops hq⟩
        rw [he] at hq
        exact hp hq
      rw [ih ((Finset.erase_subset _ _).trans hsub) hleft]
      ext q
      simp only [Finset.mem_filter, Finset.mem_erase, List.mem_cons, not_or]
      by_cases he : q = p
      · simp [he, hp]
      · simp [he]
    · rw [ih hsub htops]
      ext q
      simp only [Finset.mem_filter, List.mem_cons, not_or]
      by_cases he : q = p
      · subst he
        have : q ∈ left → q ∈ t.tops paths := fun hq =>
          Finset.mem_filter.mpr ⟨hsub hq, by simpa using h⟩
        tauto
      · simp [he]

theorem prune_eq_tops {order : List α} (h : ∀ p ∈ paths, p ∈ order) :
    t.prune order paths = t.tops paths := by
  rw [prune_eq_filter order Finset.Subset.rfl (Finset.filter_subset _ _)]
  ext p
  rw [Finset.mem_filter]
  refine ⟨fun ⟨hp, htop⟩ => htop.resolve_right fun hn => hn (h p hp), fun hp => ⟨(mem_tops.mp hp).1, .inl hp⟩⟩

end Scopes

end Ancestry

end Fluent.Library
