import Mathlib.Logic.Function.Iterate

namespace Fluent.Library

section Settle

variable {σ : Type} (step : σ → σ) (size : σ → ℕ)

structure Shrinks : Prop where
  stays : ∀ s, size s = 0 → step s = s
  shrinks : ∀ s, size s ≠ 0 → size (step s) < size s

def settle (s : σ) : σ := step^[size s] s

variable {step size}

theorem Shrinks.size_iterate (h : Shrinks step size) (n : ℕ) (s : σ) : size (step^[n] s) ≤ size s - n := by
  induction n with
  | zero => exact Nat.le_refl _
  | succ n ih =>
    rw [Function.iterate_succ_apply']
    by_cases hzero : size (step^[n] s) = 0
    · rw [h.stays _ hzero, hzero]
      exact Nat.zero_le _
    · have hlt := h.shrinks _ hzero
      omega

theorem Shrinks.iterate_eq_settle (h : Shrinks step size) {n : ℕ} {s : σ} (hn : size s ≤ n) :
    step^[n] s = settle step size s := by
  obtain ⟨k, rfl⟩ := Nat.exists_eq_add_of_le' hn
  have hzero : size (settle step size s) = 0 := by
    have hle := h.size_iterate (size s) s
    rwa [Nat.sub_self, Nat.le_zero] at hle
  rw [Function.iterate_add_apply]
  exact Function.iterate_fixed (h.stays _ hzero) k

theorem Shrinks.settle_step (h : Shrinks step size) (s : σ) : settle step size (step s) = settle step size s := by
  by_cases hzero : size s = 0
  · rw [h.stays s hzero]
  · obtain ⟨k, hk⟩ := Nat.exists_eq_succ_of_ne_zero hzero
    have hlt := h.shrinks s hzero
    rw [← h.iterate_eq_settle (show size (step s) ≤ k by omega), ← Function.iterate_succ_apply, ← hk, settle]

end Settle

end Fluent.Library
