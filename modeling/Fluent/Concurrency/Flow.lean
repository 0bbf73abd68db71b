import Mathlib.Data.Int.Basic
import Mathlib.Tactic.Cases
import Fluent.Library.Participants

open Fluent.Library (total total_append total_cons total_nil)

namespace Fluent.Concurrency

structure CreditSpec where
  initial : UInt64
  moreAfter : UInt64
deriving DecidableEq

/-- A sender and its receiver with the bump channel between them. `guard` names the `send` call that
holds the lock of the bump receiver. -/
structure CreditFlow where
  spec : CreditSpec
  credit : Int64
  blocked : Bool
  bumps : List UInt64
  guard : Option ℕ
  counter : UInt64
deriving DecidableEq

inductive SendPc where
  | load
  | compareExchange (current : {c : Int64 // 0 < c})
  | block
  | lock
  | await
  | fetchAdd (amount : UInt64)
  | unblock
  | op
deriving DecidableEq

inductive RecvPc where
  | count
  | reset
  | bump
deriving DecidableEq

namespace CreditFlow

def new (spec : CreditSpec) : CreditFlow where
  spec := spec
  credit := spec.initial.toInt64
  blocked := false
  bumps := []
  guard := none
  counter := 0

def sendStep (flow : CreditFlow) (me : ℕ) : SendPc → Option (CreditFlow × SendPc)
  | .load =>
    if h : 0 < flow.credit then some (flow, .compareExchange ⟨flow.credit, h⟩)
    else some (flow, .block)
  | .compareExchange current =>
    if flow.credit = current then some ({ flow with credit := current - 1 }, .op)
    else some (flow, .load)
  | .block => some ({ flow with blocked := true }, .lock)
  | .lock =>
    match flow.guard with
    | none => some ({ flow with guard := some me }, .await)
    | some _ => none
  | .await =>
    match flow.bumps with
    | [] => none
    | amount :: bumps => some ({ flow with bumps := bumps }, .fetchAdd amount)
  | .fetchAdd amount => some ({ flow with credit := flow.credit + amount.toInt64 }, .unblock)
  | .unblock => some ({ flow with blocked := false, guard := none }, .load)
  | .op => none

def recvStep (flow : CreditFlow) : RecvPc → CreditFlow × Option RecvPc
  | .count =>
    ({ flow with counter := flow.counter + 1 },
      if flow.spec.moreAfter ≤ flow.counter + 1 then some .reset else none)
  | .reset => ({ flow with counter := 0 }, some .bump)
  | .bump => ({ flow with bumps := flow.bumps ++ [flow.spec.moreAfter] }, none)

end CreditFlow

def SendPc.tokens : SendPc → ℕ
  | .load | .compareExchange _ | .block | .lock | .await | .unblock => 0
  | .fetchAdd amount => amount.toNat
  | .op => 1

def RecvPc.tokens (moreAfter : UInt64) : RecvPc → ℕ
  | .count => 1
  | .reset => 0
  | .bump => moreAfter.toNat

theorem toInt_toInt64 (n : UInt64) : n.toInt64.toInt = (n.toNat : ℤ).bmod (2 ^ 64) :=
  BitVec.toInt_eq_toNat_bmod n.toBitVec

theorem toInt_toInt64_le (n : UInt64) : n.toInt64.toInt ≤ n.toNat := by
  rw [toInt_toInt64, Int.bmod_def]
  split <;> omega

theorem toInt_pred {current : Int64} (h : 0 < current) : (current - 1).toInt = current.toInt - 1 := by
  have hpos : 0 < current.toInt := Int64.lt_iff_toInt_lt.mp h
  have hmax := current.toInt_lt
  rw [Int64.toInt_sub, Int64.toInt_one]
  apply Int.bmod_eq_of_le <;> omega

theorem toInt_add_toInt64 {credit : Int64} {amount : UInt64} (hc : 0 ≤ credit.toInt)
    (hsum : credit.toInt + amount.toNat < 2 ^ 63) :
    (credit + amount.toInt64).toInt = credit.toInt + amount.toNat := by
  have hamount : amount.toInt64.toInt = amount.toNat := by
    rw [toInt_toInt64]
    apply Int.bmod_eq_of_le <;> omega
  rw [Int64.toInt_add, hamount]
  apply Int.bmod_eq_of_le <;> omega

namespace CreditFlow

def stored (flow : CreditFlow) : ℕ :=
  total UInt64.toNat flow.bumps + flow.counter.toNat

structure Covers (flow : CreditFlow) (held : ℕ) : Prop where
  within : flow.credit.toInt + (flow.stored + held : ℕ) ≤ flow.spec.initial.toInt64.toInt
  unused : 0 ≤ flow.credit.toInt ∨ flow.stored + held = 0

variable {flow flow' : CreditFlow} {held less me : ℕ}

theorem covers_new (spec : CreditSpec) : (new spec).Covers 0 where
  within := by simp [new, stored]
  unused := by simp [new, stored]

theorem Covers.mono (h : flow.Covers held) (hle : less ≤ held) : flow.Covers less where
  within := by
    have hw := h.within
    omega
  unused := h.unused.imp_right (by omega)

theorem Covers.held_le (h : flow.Covers held) : held ≤ flow.spec.initial.toNat := by
  have hw := h.within
  have hi := toInt_toInt64_le flow.spec.initial
  rcases h.unused with hc | hc <;> omega

theorem Covers.room (h : flow.Covers held) (hpos : 0 < flow.stored + held) :
    0 ≤ flow.credit.toInt ∧ flow.credit.toInt + (flow.stored + held : ℕ) < 2 ^ 63 := by
  have hw := h.within
  have hmax := flow.spec.initial.toInt64.toInt_lt
  rcases h.unused with hc | hc <;> omega

theorem sendStep_frame {pc pc' : SendPc} (h : flow.sendStep me pc = some (flow', pc')) :
    flow'.spec = flow.spec ∧ flow'.counter = flow.counter := by
  cases pc <;> simp only [sendStep] at h <;> (try split at h) <;> cases h <;> exact ⟨rfl, rfl⟩

theorem recvStep_spec (pc : RecvPc) : (flow.recvStep pc).1.spec = flow.spec := by
  cases pc <;> rfl

theorem Covers.take (h : flow.Covers held) (hpos : 0 < flow.credit) :
    { flow with credit := flow.credit - 1 }.Covers (1 + held) := by
  have hw := h.within
  have hc : 0 < flow.credit.toInt := Int64.lt_iff_toInt_lt.mp hpos
  have hpred := toInt_pred hpos
  constructor <;> simp only [stored, hpred] at * <;> omega

theorem Covers.refill {amount : UInt64} (h : flow.Covers (amount.toNat + held)) :
    { flow with credit := flow.credit + amount.toInt64 }.Covers held := by
  by_cases hzero : amount = 0
  · subst hzero
    simpa [Covers, stored] using h.mono (by omega)
  · have hpos : 0 < amount.toNat := by
      rcases Nat.eq_zero_or_pos amount.toNat with h0 | h0
      · exact absurd (UInt64.toNat_inj.mp h0) hzero
      · exact h0
    obtain ⟨hc, hroom⟩ := h.room (by omega)
    have hw := h.within
    have hsum : flow.credit.toInt + amount.toNat < 2 ^ 63 := by omega
    have hadd := toInt_add_toInt64 hc hsum
    constructor <;> simp only [stored, hadd] at * <;> omega

theorem sendStep_covers {pc pc' : SendPc} (h : flow.sendStep me pc = some (flow', pc'))
    (hc : flow.Covers (pc.tokens + held)) : flow'.Covers (pc'.tokens + held) := by
  cases pc with
  | load =>
    simp only [sendStep] at h
    split at h <;> cases h <;> exact hc
  | compareExchange current =>
    simp only [sendStep] at h
    split at h
    · rename_i heq
      cases h
      rw [← heq]
      exact (hc.mono (by omega)).take (heq ▸ current.2)
    · cases h
      exact hc
  | block =>
    cases h
    exact ⟨hc.within, hc.unused⟩
  | lock =>
    simp only [sendStep] at h
    split at h <;> cases h
    exact ⟨hc.within, hc.unused⟩
  | await =>
    simp only [sendStep] at h
    split at h <;> cases h
    rename_i hbumps
    have hw := hc.within
    have hu := hc.unused
    constructor <;> simp only [stored, hbumps, total_cons, SendPc.tokens] at * <;> omega
  | fetchAdd amount =>
    cases h
    exact hc.refill.mono (by simp [SendPc.tokens])
  | unblock =>
    cases h
    exact ⟨hc.within, hc.unused⟩
  | op => cases h

theorem recvStep_covers {pc : RecvPc} (hc : flow.Covers (pc.tokens flow.spec.moreAfter + held))
    (hreset : pc = .reset → flow.spec.moreAfter ≤ flow.counter) :
    (flow.recvStep pc).1.Covers
      (((flow.recvStep pc).2.elim 0 (RecvPc.tokens flow.spec.moreAfter)) + held) := by
  have hw := hc.within
  have hu := hc.unused
  cases pc with
  | count =>
    obtain ⟨-, hroom⟩ := hc.room (by simp only [RecvPc.tokens]; omega)
    have hcount : (flow.counter + 1).toNat = flow.counter.toNat + 1 := by
      rw [UInt64.toNat_add, UInt64.toNat_one]
      apply Nat.mod_eq_of_lt
      simp only [stored, RecvPc.tokens] at *
      omega
    simp only [recvStep]
    split <;> constructor <;>
      simp only [stored, hcount, RecvPc.tokens, Option.elim_some, Option.elim_none] at * <;> omega
  | reset =>
    have hle := UInt64.le_iff_toNat_le.mp (hreset rfl)
    constructor <;>
      simp only [recvStep, stored, RecvPc.tokens, Option.elim_some, UInt64.toNat_zero] at * <;> omega
  | bump =>
    constructor <;>
      simp only [recvStep, stored, total_append, total_cons, total_nil, RecvPc.tokens,
        Option.elim_none] at * <;> omega

theorem reset_counter {pc : RecvPc} (h : (flow.recvStep pc).2 = some .reset) :
    flow.spec.moreAfter ≤ (flow.recvStep pc).1.counter := by
  cases pc with
  | count =>
    simp only [recvStep] at h ⊢
    split at h
    · assumption
    · cases h
  | reset => cases h
  | bump => cases h

end CreditFlow
end Fluent.Concurrency
