import Mathlib.Algebra.GroupWithZero.Nat
import Mathlib.Data.List.Sort
import Mathlib.Order.Lattice.Nat
import Mathlib.Order.MinMax
import Mathlib.Data.Int.Order.Basic

namespace Fluent.CommonCore

/-! Saturating arithmetic of `u64` and `i64`. -/

def u64Max : ℕ := 18446744073709551615

def satAdd (a b : ℕ) : ℕ := min (a + b) u64Max

def satMul (a b : ℕ) : ℕ := min (a * b) u64Max

def i64Max : ℤ := 9223372036854775807

def clampI64 (x : ℤ) : ℤ := max (-i64Max - 1) (min i64Max x)

theorem satAdd_le (a b : ℕ) : satAdd a b ≤ u64Max := min_le_right _ _

theorem foldl_satAdd {α : Type*} (f : α → ℕ) (l : List α) {used : ℕ} (h : used ≤ u64Max) :
    l.foldl (fun used a => satAdd used (f a)) used = min (used + (l.map f).sum) u64Max := by
  induction l generalizing used with
  | nil => simpa using h
  | cons a l ih =>
    rw [List.foldl_cons, ih (satAdd_le _ _), List.map_cons, List.sum_cons, satAdd]
    omega

def coldCap : ℤ := 1099511627776

def coldness (lastUsed now : ℤ) : ℕ :=
  if lastUsed < 0 then coldCap.toNat else (min coldCap (max 1 (clampI64 (now - lastUsed)))).toNat

def evictionScore (freedBytes : ℕ) (lastUsed now : ℤ) : ℕ := satMul freedBytes (coldness lastUsed now)

section Order

variable {C : Type*} (now : ℤ) (freedOf : C → ℕ) (lastUsedOf : C → ℤ)

def scoreOf (c : C) : ℕ := evictionScore (freedOf c) (lastUsedOf c) now

def evictsBefore (a b : C) : Bool :=
  scoreOf now freedOf lastUsedOf b < scoreOf now freedOf lastUsedOf a ∨
    scoreOf now freedOf lastUsedOf b = scoreOf now freedOf lastUsedOf a ∧ lastUsedOf b ≤ lastUsedOf a

def evictionOrder (candidates : List C) : List C := candidates.mergeSort (evictsBefore now freedOf lastUsedOf)

end Order

section Loop

variable {C S : Type*}

def evictUntilFit (evict : C → S → Option ℕ × S) (budget batch : ℕ) : List C → ℕ → ℕ → S → (ℕ × ℕ) × S
  | [], used, evicted, s => ((used, evicted), s)
  | c :: cs, used, evicted, s =>
    if used ≤ budget ∨ batch ≤ evicted then ((used, evicted), s)
    else
      match evict c s with
      | (some freed, s) => evictUntilFit evict budget batch cs (used - freed) (evicted + 1) s
      | (none, s) => evictUntilFit evict budget batch cs used evicted s

variable {evict : C → S → Option ℕ × S} {budget batch : ℕ}

variable {cs : List C} {used evicted : ℕ} {s : S} {c : C}

theorem evictUntilFit_stop (h : used ≤ budget ∨ batch ≤ evicted) :
    evictUntilFit evict budget batch cs used evicted s = ((used, evicted), s) := by
  cases cs with
  | nil => rfl
  | cons c cs => rw [evictUntilFit, if_pos h]

theorem evictUntilFit_some (h : ¬(used ≤ budget ∨ batch ≤ evicted)) {freed : ℕ} (hout : (evict c s).1 = some freed) :
    evictUntilFit evict budget batch (c :: cs) used evicted s =
      evictUntilFit evict budget batch cs (used - freed) (evicted + 1) (evict c s).2 := by
  rw [evictUntilFit, if_neg h]
  split
  · next heq =>
    rw [heq] at hout ⊢
    rw [Option.some.inj hout]
  · next heq =>
    rw [heq] at hout
    cases hout

theorem evictUntilFit_none (h : ¬(used ≤ budget ∨ batch ≤ evicted)) (hout : (evict c s).1 = none) :
    evictUntilFit evict budget batch (c :: cs) used evicted s =
      evictUntilFit evict budget batch cs used evicted (evict c s).2 := by
  rw [evictUntilFit, if_neg h]
  split
  · next heq =>
    rw [heq] at hout
    cases hout
  · next heq => rw [heq]

theorem evictUntilFit_induct {P : S → Prop} (hstep : ∀ c ∈ cs, ∀ s, P s → P (evict c s).2) (used evicted : ℕ)
    (hs : P s) : P (evictUntilFit evict budget batch cs used evicted s).2 := by
  induction cs generalizing used evicted s with
  | nil => exact hs
  | cons c cs ih =>
    obtain ⟨hc, hcs⟩ := List.forall_mem_cons.mp hstep
    by_cases hstop : used ≤ budget ∨ batch ≤ evicted
    · rw [evictUntilFit_stop hstop]
      exact hs
    · cases hout : (evict c s).1 with
      | some freed =>
        rw [evictUntilFit_some hstop hout]
        exact ih hcs _ _ (hc s hs)
      | none =>
        rw [evictUntilFit_none hstop hout]
        exact ih hcs _ _ (hc s hs)

end Loop

end Fluent.CommonCore
