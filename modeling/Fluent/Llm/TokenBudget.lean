import Mathlib.Algebra.GroupWithZero.Nat
import Fluent.Library.Runs
import Mathlib.Data.Nat.Notation
import Mathlib.Logic.Function.Basic

open Fluent.Library

namespace Fluent.Llm

structure AtomicTokenBudget where
  total : UInt64
  used : UInt64
deriving DecidableEq

def saturatingSub (a b : UInt64) : UInt64 := if b ≤ a then a - b else 0

namespace AtomicTokenBudget

variable {ι : Type*}

def new (total : UInt64) : AtomicTokenBudget := ⟨total, 0⟩

def remaining (budget : AtomicTokenBudget) : UInt64 := saturatingSub budget.total budget.used

def release (budget : AtomicTokenBudget) (tokens : UInt64) : AtomicTokenBudget :=
  { budget with used := saturatingSub budget.used tokens }

inductive Call where
  | reserve (tokens : UInt64)
  | release (tokens : UInt64)
deriving DecidableEq

inductive Phase where
  | load
  | exchange (current : UInt64)
  | returned (result : Bool)
deriving DecidableEq

def check (budget : AtomicTokenBudget) (current : UInt64) : Call → Phase
  | .reserve tokens => if current + tokens > budget.total then .returned false else .exchange current
  | .release _ => .exchange current

def exchanged (current : UInt64) : Call → UInt64
  | .reserve tokens => current + tokens
  | .release tokens => saturatingSub current tokens

/-- One atomic step of a call; a weak exchange may fail though `used` has not changed. -/
def advance (budget : AtomicTokenBudget) (call : Call) (spurious : Bool) : Phase → AtomicTokenBudget × Phase
  | .load => (budget, budget.check budget.used call)
  | .exchange current =>
    if budget.used = current ∧ spurious = false then
      ({ budget with used := exchanged current call }, .returned true)
    else (budget, budget.check budget.used call)
  | .returned result => (budget, .returned result)

structure Tasks (ι : Type*) where
  budget : AtomicTokenBudget
  phase : ι → Phase

namespace Tasks

variable [DecidableEq ι] (calls : ι → Call)

def start (total : UInt64) : Tasks ι := ⟨.new total, fun _ => .load⟩

def step (s : Tasks ι) (op : ι × Bool) : Tasks ι :=
  let next := s.budget.advance (calls op.1) op.2 (s.phase op.1)
  ⟨next.1, Function.update s.phase op.1 next.2⟩

def Reserves (s : Tasks ι) (op : ι × Bool) (tokens : UInt64) : Prop :=
  calls op.1 = .reserve tokens ∧ s.phase op.1 ≠ .returned true ∧ (step calls s op).phase op.1 = .returned true

def Fits (s : Tasks ι) (op : ι × Bool) : Prop :=
  ∀ tokens, Reserves calls s op tokens →
    s.budget.used.toNat + tokens.toNat ≤ s.budget.total.toNat ∧
      ((step calls s op).budget.release tokens).remaining = s.budget.remaining

def NoOverflow (s : Tasks ι) (op : ι × Bool) : Prop :=
  ∀ tokens, calls op.1 = .reserve tokens → s.phase op.1 = .exchange s.budget.used →
    op.2 = false → s.budget.used.toNat + tokens.toNat < 2 ^ 64

structure Bounded (s : Tasks ι) : Prop where
  used_le : s.budget.used ≤ s.budget.total
  exchange_le : ∀ i tokens current, calls i = .reserve tokens → s.phase i = .exchange current →
    current + tokens ≤ s.budget.total

end Tasks

end AtomicTokenBudget

open AtomicTokenBudget

theorem saturatingSub_le (a b : UInt64) : saturatingSub a b ≤ a := by
  rw [saturatingSub]
  split
  · rename_i h
    rw [UInt64.le_iff_toNat_le, UInt64.toNat_sub_of_le _ _ h]
    omega
  · exact UInt64.le_iff_toNat_le.mpr (Nat.zero_le _)

theorem saturatingSub_toNat (a b : UInt64) : (saturatingSub a b).toNat = a.toNat - b.toNat := by
  rw [saturatingSub]
  split
  · rename_i h
    exact UInt64.toNat_sub_of_le _ _ h
  · rename_i h
    rw [UInt64.le_iff_toNat_le] at h
    have hzero : (0 : UInt64).toNat = 0 := rfl
    omega

namespace AtomicTokenBudget

variable {ι : Type*} [DecidableEq ι] {calls : ι → Call} {s : Tasks ι} {op : ι × Bool}

theorem check_reserve {budget : AtomicTokenBudget} {tokens read current : UInt64}
    (h : budget.check read (.reserve tokens) = .exchange current) : current + tokens ≤ budget.total := by
  rw [check] at h
  split at h
  · cases h
  · rename_i hle
    cases h
    exact UInt64.not_lt.mp hle

theorem check_ne_true (budget : AtomicTokenBudget) (read : UInt64) (call : Call) :
    budget.check read call ≠ .returned true := by
  cases call with
  | reserve tokens =>
    rw [check]
    split <;> simp
  | release tokens => simp [check]

theorem advance_cases (budget : AtomicTokenBudget) (call : Call) (spurious : Bool) (phase : Phase) :
    (phase = .exchange budget.used ∧ spurious = false ∧
      budget.advance call spurious phase =
        ({ budget with used := exchanged budget.used call }, .returned true)) ∨
    (budget.advance call spurious phase = (budget, budget.check budget.used call) ∧
      ¬ (phase = .exchange budget.used ∧ spurious = false)) ∨
    ∃ result, phase = .returned result ∧ budget.advance call spurious phase = (budget, .returned result) := by
  cases phase with
  | load => exact Or.inr (Or.inl ⟨rfl, by simp⟩)
  | exchange current =>
    by_cases h : budget.used = current ∧ spurious = false
    · obtain ⟨rfl, rfl⟩ := h
      exact Or.inl ⟨rfl, rfl, by simp [advance]⟩
    · refine Or.inr (Or.inl ⟨by rw [advance, if_neg h], ?_⟩)
      rintro ⟨hphase, hspurious⟩
      cases hphase
      exact h ⟨rfl, hspurious⟩
  | returned result => exact Or.inr (Or.inr ⟨result, rfl, rfl⟩)

namespace Tasks

theorem phase_step (calls : ι → Call) (s : Tasks ι) (op : ι × Bool) (i : ι) :
    (step calls s op).phase i =
      if i = op.1 then (s.budget.advance (calls op.1) op.2 (s.phase op.1)).2 else s.phase i := by
  simp [step, Function.update_apply]

theorem total_step (calls : ι → Call) (s : Tasks ι) (op : ι × Bool) :
    (step calls s op).budget.total = s.budget.total := by
  obtain ⟨-, -, h⟩ | ⟨h, -⟩ | ⟨result, -, h⟩ := advance_cases s.budget (calls op.1) op.2 (s.phase op.1) <;>
    simp [step, h]

theorem reserves_iff {tokens : UInt64} :
    Reserves calls s op tokens ↔
      calls op.1 = .reserve tokens ∧ s.phase op.1 = .exchange s.budget.used ∧ op.2 = false := by
  rw [Reserves, phase_step, if_pos rfl]
  obtain ⟨hphase, hspurious, h⟩ | ⟨h, hno⟩ | ⟨result, hphase, h⟩ :=
    advance_cases s.budget (calls op.1) op.2 (s.phase op.1)
  · rw [h]
    simp [hphase, hspurious]
  · rw [h]
    simp [hno, check_ne_true]
  · rw [h]
    simp [hphase]

omit [DecidableEq ι] in
theorem bounded_start (total : UInt64) : Bounded calls (start total) :=
  ⟨UInt64.le_iff_toNat_le.mpr (Nat.zero_le _), fun _ _ _ _ h => by simp [start] at h⟩

theorem Bounded.used_step_le (h : Bounded calls s) : (step calls s op).budget.used ≤ s.budget.total := by
  obtain ⟨hphase, -, hadvance⟩ | ⟨hadvance, -⟩ | ⟨result, -, hadvance⟩ :=
    advance_cases s.budget (calls op.1) op.2 (s.phase op.1)
  · rw [step, hadvance]
    cases hcall : calls op.1 with
    | reserve tokens => exact h.exchange_le op.1 tokens _ hcall hphase
    | release tokens => exact UInt64.le_trans (saturatingSub_le _ _) h.used_le
  · rw [step, hadvance]
    exact h.used_le
  · rw [step, hadvance]
    exact h.used_le

theorem Bounded.step (h : Bounded calls s) (op : ι × Bool) : Bounded calls (step calls s op) := by
  refine ⟨by rw [total_step]; exact h.used_step_le, fun i tokens current hcall hphase => ?_⟩
  rw [total_step]
  rw [phase_step] at hphase
  split at hphase
  · rename_i hi
    subst hi
    obtain ⟨-, -, hadvance⟩ | ⟨hadvance, -⟩ | ⟨result, -, hadvance⟩ :=
      advance_cases s.budget (calls op.1) op.2 (s.phase op.1)
    · rw [hadvance] at hphase
      cases hphase
    · rw [hadvance, hcall] at hphase
      exact check_reserve hphase
    · rw [hadvance] at hphase
      cases hphase
  · exact h.exchange_le i tokens current hcall hphase

theorem release_remaining {budget : AtomicTokenBudget} {tokens : UInt64}
    (hfit : budget.used.toNat + tokens.toNat < 2 ^ 64) :
    (({ budget with used := budget.used + tokens } : AtomicTokenBudget).release tokens).remaining =
      budget.remaining := by
  have hsum : (budget.used + tokens).toNat = budget.used.toNat + tokens.toNat := by
    rw [UInt64.toNat_add, Nat.mod_eq_of_lt hfit]
  have hused : saturatingSub (budget.used + tokens) tokens = budget.used := by
    rw [← UInt64.toNat_inj, saturatingSub_toNat, hsum]
    omega
  simp [release, remaining, hused]

theorem fits_iff (h : Bounded calls s) : Fits calls s op ↔ NoOverflow calls s op := by
  constructor
  · intro hfits tokens hcall hphase hspurious
    obtain ⟨hle, -⟩ := hfits tokens (reserves_iff.mpr ⟨hcall, hphase, hspurious⟩)
    exact Nat.lt_of_le_of_lt hle s.budget.total.toNat_lt
  · intro hno tokens hreserves
    obtain ⟨hcall, hphase, hspurious⟩ := reserves_iff.mp hreserves
    have hfit := hno tokens hcall hphase hspurious
    have hstep : (step calls s op).budget = { s.budget with used := s.budget.used + tokens } := by
      simp [step, advance, exchanged, hcall, hphase, hspurious]
    have hle := UInt64.le_iff_toNat_le.mp (h.exchange_le op.1 tokens _ hcall hphase)
    rw [UInt64.toNat_add, Nat.mod_eq_of_lt hfit] at hle
    exact ⟨hle, by rw [hstep, release_remaining hfit]⟩

end Tasks

open Tasks

theorem reserve_fits_iff (total : UInt64) (calls : ι → Call) (schedule : List (ι × Bool)) :
    Along (step calls) (fun s => s.budget.used ≤ s.budget.total) (start total) schedule ∧
      (Respects (step calls) (Fits calls) (start total) schedule ↔
        Respects (step calls) (NoOverflow calls) (start total) schedule) := by
  have hbounded : Along (step calls) (Bounded calls) (start total) schedule :=
    along_of_step (fun _ op hs _ => hs.step op) (bounded_start total) (respects_true _ _)
  refine ⟨hbounded.mono fun _ hs => hs.used_le, ?_⟩
  exact respects_congr (I := Bounded calls) (fun _ op hs => hs.step op) (fun _ _ hs => fits_iff hs)
    (bounded_start total)

def wrappingCalls : Fin 2 → Call
  | 0 => .reserve 5
  | 1 => .reserve 18446744073709551615

theorem wrapped_reserve_granted :
    let last := [(0, false), (0, false), (1, false)].foldl (step wrappingCalls) (start 10)
    last.budget.used = 5 ∧ Reserves wrappingCalls last (1, false) 18446744073709551615 ∧
      (step wrappingCalls last (1, false)).budget.used = 4 ∧ ¬ Fits wrappingCalls last (1, false) := by
  have hlast : Reserves wrappingCalls
      ([(0, false), (0, false), (1, false)].foldl (step wrappingCalls) (start 10)) (1, false)
      18446744073709551615 := ⟨rfl, by decide, rfl⟩
  refine ⟨rfl, hlast, rfl, fun hfits => ?_⟩
  have hle := (hfits _ hlast).1
  exact absurd hle (by decide)

end AtomicTokenBudget

end Fluent.Llm
