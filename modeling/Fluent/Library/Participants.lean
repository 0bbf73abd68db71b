import Mathlib.Algebra.GroupWithZero.Nat
import Mathlib.Algebra.BigOperators.Group.List.Basic

namespace Fluent.Library

variable {P : Type*}

def total (share : P → ℕ) (ps : List P) : ℕ :=
  (ps.map share).sum

variable {share : P → ℕ} {ps : List P} {p : P} {i : ℕ}

@[simp] theorem total_nil : total share [] = 0 :=
  rfl

@[simp] theorem total_cons : total share (p :: ps) = share p + total share ps := by
  simp [total]

@[simp] theorem total_append {qs : List P} :
    total share (ps ++ qs) = total share ps + total share qs := by
  simp [total]

theorem total_mono {other : P → ℕ} (h : ∀ p, share p ≤ other p) (ps : List P) :
    total share ps ≤ total other ps := by
  induction ps with
  | nil => exact Nat.le_refl _
  | cons a ps ih =>
    have ha := h a
    simp only [total_cons]
    omega

theorem total_set (share : P → ℕ) (q : P) (h : ps[i]? = some p) :
    total share (ps.set i q) + share p = total share ps + share q := by
  induction ps generalizing i with
  | nil => simp at h
  | cons a ps ih =>
    cases i with
    | zero =>
      obtain rfl : a = p := by simpa using h
      simp only [List.set_cons_zero, total_cons]
      omega
    | succ i =>
      have htail := ih (by simpa using h)
      simp only [List.set_cons_succ, total_cons]
      omega

theorem total_eraseIdx (share : P → ℕ) (h : ps[i]? = some p) :
    total share (ps.eraseIdx i) + share p = total share ps := by
  induction ps generalizing i with
  | nil => simp at h
  | cons a ps ih =>
    cases i with
    | zero =>
      obtain rfl : a = p := by simpa using h
      simp only [List.eraseIdx_cons_zero, total_cons]
      omega
    | succ i =>
      have htail := ih (by simpa using h)
      simp only [List.eraseIdx_cons_succ, total_cons]
      omega

theorem exists_rest (share : P → ℕ) (h : ps[i]? = some p) :
    ∃ rest, total share ps = share p + rest ∧ ∀ q, total share (ps.set i q) = share q + rest := by
  have herase := total_eraseIdx share h
  refine ⟨total share (ps.eraseIdx i), by omega, fun q => ?_⟩
  have hset := total_set share q h
  omega

theorem exists_split (h : ps[i]? = some p) : ∃ before after, ps = before ++ p :: after ∧
    ∀ q, ps.set i q = before ++ q :: after := by
  obtain ⟨hi, hp⟩ := List.getElem?_eq_some_iff.mp h
  refine ⟨ps.take i, ps.drop (i + 1), ?_, fun q => List.set_eq_take_append_cons_drop.trans (if_pos hi)⟩
  rw [← hp, List.cons_getElem_drop_succ, List.take_append_drop]

theorem total_indicator (q : P → Bool) : total (fun p => if q p then 1 else 0) ps = ps.countP q := by
  induction ps with
  | nil => rfl
  | cons a ps ih =>
    rw [total_cons, ih, List.countP_cons]
    omega

end Fluent.Library
