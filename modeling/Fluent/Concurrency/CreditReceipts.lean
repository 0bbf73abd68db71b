import Fluent.Concurrency.CreditGatedPool
import Fluent.Library.Runs

open Fluent.Library

namespace Fluent.Concurrency

def RecvPc.weight (moreAfter : UInt64) : RecvPc → ℕ
  | .count => 1
  | .reset => if moreAfter = 1 then 1 else 0
  | .bump => moreAfter.toNat

def RecvPc.resetting : RecvPc → ℕ
  | .reset => 1
  | .count | .bump => 0

namespace CreditFlow

def settled (flow : CreditFlow) : CreditFlow :=
  if flow.spec.moreAfter = 1 then { flow with counter := 0 } else flow

def Exclusive (flow : CreditFlow) (resets : ℕ) : Prop :=
  flow.spec.moreAfter = 1 ∨ resets ≤ 1 ∧ (0 < resets → flow.spec.moreAfter ≤ flow.counter)

variable {flow flow' : CreditFlow} {others held held' me : ℕ}

theorem settled_credit : flow.settled.credit = flow.credit := by
  simp only [settled]
  split <;> rfl

theorem settled_spec : flow.settled.spec = flow.spec := by
  simp only [settled]
  split <;> rfl

theorem settled_stored : flow.settled.stored =
    total UInt64.toNat flow.bumps + if flow.spec.moreAfter = 1 then 0 else flow.counter.toNat := by
  simp only [settled]
  split <;> simp [stored]

theorem toNat_succ_le (n : UInt64) : (n + 1).toNat ≤ n.toNat + 1 := by
  rw [UInt64.toNat_add, UInt64.toNat_one]
  exact Nat.mod_le _ _

theorem recvStep_credit (pc : RecvPc) : (flow.recvStep pc).1.credit = flow.credit := by
  cases pc <;> rfl

theorem recvStep_settled {pc : RecvPc} (h : flow.Exclusive (pc.resetting + others)) :
    (flow.recvStep pc).1.settled.stored +
        (flow.recvStep pc).2.elim 0 (RecvPc.weight flow.spec.moreAfter) ≤
      flow.settled.stored + pc.weight flow.spec.moreAfter := by
  rw [settled_stored, settled_stored, recvStep_spec]
  cases pc with
  | count =>
    have hsucc := toNat_succ_le flow.counter
    simp only [recvStep, RecvPc.weight]
    by_cases hone : flow.spec.moreAfter = 1
    · simp only [if_pos hone]
      split <;> simp only [Option.elim_some, Option.elim_none, RecvPc.weight, if_pos hone] <;> omega
    · simp only [if_neg hone]
      split <;> simp only [Option.elim_some, Option.elim_none, RecvPc.weight, if_neg hone] <;> omega
  | reset =>
    simp only [recvStep, Option.elim_some, RecvPc.weight]
    rcases h with hone | ⟨-, hcounter⟩
    · simp [hone]
    · have hle := UInt64.le_iff_toNat_le.mp (hcounter (by simp only [RecvPc.resetting]; omega))
      by_cases hone : flow.spec.moreAfter = 1
      · simp [hone]
      · simp only [if_neg hone, UInt64.toNat_zero]
        omega
  | bump =>
    simp only [recvStep, Option.elim_none, RecvPc.weight, total_append, total_cons, total_nil]
    omega

theorem recvStep_exclusive {pc : RecvPc} (h : flow.Exclusive (pc.resetting + others))
    (halone : pc = .count → flow.spec.moreAfter = 1 ∨ others = 0) :
    (flow.recvStep pc).1.Exclusive ((flow.recvStep pc).2.elim 0 RecvPc.resetting + others) := by
  rcases h with hone | ⟨hle, hcounter⟩
  · exact .inl (by rw [recvStep_spec, hone])
  cases pc with
  | count =>
    rcases halone rfl with hone | rfl
    · exact .inl hone
    right
    simp only [recvStep]
    split
    · rename_i hreached
      exact ⟨by simp [RecvPc.resetting], fun _ => hreached⟩
    · simp
  | reset =>
    simp only [RecvPc.resetting] at hle
    exact .inr ⟨by simp only [recvStep, Option.elim_some, RecvPc.resetting]; omega,
      fun hpos => by simp only [recvStep, Option.elim_some, RecvPc.resetting] at hpos; omega⟩
  | bump => exact .inr ⟨hle, hcounter⟩

theorem Covers.of_le (h : flow.Covers held) (hspec : flow'.spec = flow.spec)
    (hcredit : flow'.credit = flow.credit) (hle : flow'.stored + held' ≤ flow.stored + held) :
    flow'.Covers held' where
  within := by
    have hw := h.within
    rw [hspec, hcredit]
    omega
  unused := by
    have hu := h.unused
    rw [hcredit]
    omega

theorem sendStep_settled {pc pc' : SendPc} (h : flow.sendStep me pc = some (flow', pc')) :
    flow.settled.sendStep me pc = some (flow'.settled, pc') := by
  obtain ⟨hspec, -⟩ := sendStep_frame h
  simp only [settled, hspec]
  split
  · cases pc <;> simp only [sendStep] at h ⊢ <;> (try split at h) <;> cases h <;> simp_all
  · exact h

end CreditFlow

structure Receivers where
  flow : CreditFlow
  calls : List (Option RecvPc)

inductive ReceiversAction where
  | start
  | call (i : ℕ)

namespace Receivers

def new (spec : CreditSpec) : Receivers where
  flow := CreditFlow.new spec
  calls := []

def step (s : Receivers) : ReceiversAction → Option Receivers
  | .start => some { s with calls := s.calls ++ [some .count] }
  | .call i =>
    match s.calls[i]? with
    | some (some pc) =>
      some { flow := (s.flow.recvStep pc).1, calls := s.calls.set i (s.flow.recvStep pc).2 }
    | _ => none

def next (s : Receivers) (a : ReceiversAction) : Receivers :=
  (s.step a).getD s

def bumped (s : Receivers) : ℕ :=
  total UInt64.toNat s.flow.bumps

def overlaps (s : Receivers) : ReceiversAction → Bool
  | .start => false
  | .call i => s.flow.spec.moreAfter != 1 && s.calls[i]? == some (some .count) &&
      s.calls.contains (some .reset)

def weight (moreAfter : UInt64) (call : Option RecvPc) : ℕ :=
  call.elim 0 (RecvPc.weight moreAfter)

def resetting (call : Option RecvPc) : ℕ :=
  call.elim 0 RecvPc.resetting

structure Metered (s : Receivers) : Prop where
  covered : s.flow.settled.stored + total (weight s.flow.spec.moreAfter) s.calls ≤ s.calls.length
  exclusive : s.flow.Exclusive (total resetting s.calls)

variable {s s' : Receivers}

theorem metered_new (spec : CreditSpec) : Metered (new spec) where
  covered := by simp [new, CreditFlow.new, CreditFlow.settled_stored]
  exclusive := .inr (by simp [new])

theorem Metered.bumped_le (h : Metered s) : s.bumped ≤ s.calls.length := by
  have hcovered := h.covered
  rw [CreditFlow.settled_stored] at hcovered
  simp only [bumped]
  omega

theorem total_resetting_eq_zero {calls : List (Option RecvPc)} (h : calls.contains (some .reset) = false) :
    total resetting calls = 0 := by
  induction calls with
  | nil => rfl
  | cons call calls ih =>
    simp only [List.contains_cons, Bool.or_eq_false_iff] at h
    rw [total_cons, ih h.2]
    rcases call with - | - | - | -
    · rfl
    · rfl
    · exact absurd h.1 (by decide)
    · rfl

theorem Metered.step (h : Metered s) {a : ReceiversAction} (halone : s.overlaps a = false)
    (hs : s.step a = some s') : Metered s' := by
  cases a with
  | start =>
    cases hs
    refine ⟨?_, ?_⟩
    · have hcovered := h.covered
      simp only [total_append, total_cons, total_nil, List.length_append, List.length_singleton, weight,
        Option.elim_some, RecvPc.weight] at *
      omega
    · simpa [resetting, RecvPc.resetting] using h.exclusive
  | call i =>
    simp only [Receivers.step] at hs
    split at hs
    · rename_i pc hi
      cases hs
      obtain ⟨others, hothers, hresets⟩ := exists_rest resetting hi
      obtain ⟨rest, hrest, hweights⟩ := exists_rest (weight s.flow.spec.moreAfter) hi
      have hexclusive : s.flow.Exclusive (pc.resetting + others) := hothers ▸ h.exclusive
      refine ⟨?_, ?_⟩
      · have hcovered := h.covered
        have hsettled := CreditFlow.recvStep_settled hexclusive
        simp only [CreditFlow.recvStep_spec, List.length_set, hweights, hrest, weight, Option.elim_some] at *
        omega
      · rw [hresets]
        refine CreditFlow.recvStep_exclusive hexclusive ?_
        rintro rfl
        by_cases hone : s.flow.spec.moreAfter = 1
        · exact .inl hone
        · right
          have hnone : s.calls.contains (some .reset) = false := by
            simpa [overlaps, hone, hi] using halone
          have hzero := total_resetting_eq_zero hnone
          omega
    · cases hs

end Receivers

def PoolWorker.share {T H : Type*} (f : H → ℕ) (w : PoolWorker T H) : ℕ :=
  w.phase.elim 0 f

theorem PoolWorker.share_handling {T H : Type*} (f : H → ℕ) (job : T) (phase : H) :
    (handling job phase).share f = f phase :=
  rfl

theorem PoolWorker.share_tell {T H : Type*} (f : H → ℕ) (w : PoolWorker T H) : w.tell.share f = w.share f := by
  cases w <;> rfl

namespace WorkerPool

variable {T H : Type*} {s s' : WorkerPool T H} {i : ℕ}

def load (price : ℕ) (f : H → ℕ) (s : WorkerPool T H) : ℕ :=
  price * s.queue.items.length + total (PoolWorker.share f) s.workers

variable (price : ℕ) (f : H → ℕ)

theorem exists_load_rest {w : PoolWorker T H} (hi : s.workers[i]? = some w) :
    ∃ rest, s.load price f = w.share f + rest ∧
      ∀ w', (s.setWorker i w').load price f = w'.share f + rest := by
  obtain ⟨rest, hrest, hset⟩ := exists_rest (PoolWorker.share f) hi
  refine ⟨price * s.queue.items.length + rest, ?_, fun w' => ?_⟩
  · simp only [load, hrest]
    omega
  · simp only [load, setWorker, hset]
    omega

theorem load_setWorker_le {w w' : PoolWorker T H} (hi : s.workers[i]? = some w) (hw : w'.phase = none) :
    (s.setWorker i w').load price f ≤ s.load price f := by
  obtain ⟨rest, hrest, hset⟩ := exists_load_rest price f hi
  have hzero : w'.share f = 0 := by simp [PoolWorker.share, hw]
  rw [hset, hrest]
  omega

theorem load_workStep [Inhabited H] {w : PoolWorker T H} (hstart : f default ≤ price)
    (hi : s.workers[i]? = some w) (hs : s.workStep i w = some s') :
    s'.load price f ≤ s.load price f := by
  cases w with
  | handling | stopped => cases hs
  | loop =>
    cases hs
    exact load_setWorker_le price f hi rfl
  | select told pop =>
    cases pop with
    | unpolled | arm =>
      cases hs
      exact load_setWorker_le price f hi rfl
    | take notified =>
      simp only [workStep] at hs
      split at hs
      · rename_i job items hitems
        cases hs
        have hset := total_set (PoolWorker.share f) (.handling job default) hi
        simp only [PoolWorker.share, PoolWorker.phase, Option.elim_some, Option.elim_none] at hset
        simp only [load, setWorker, hitems, List.length_cons, Nat.mul_succ]
        omega
      · split at hs <;> cases hs <;> exact load_setWorker_le price f hi rfl
    | await notified =>
      cases hs
      exact load_setWorker_le (s := { s with queue := _ }) price f hi rfl

theorem load_quitStep {w : PoolWorker T H} (hi : s.workers[i]? = some w)
    (hs : s.quitStep i w = some s') : s'.load price f ≤ s.load price f := by
  simp only [quitStep] at hs
  split at hs <;> cases hs
  · exact load_setWorker_le price f hi rfl
  · exact load_setWorker_le (s := { s with queue := _ }) price f hi rfl

theorem load_shutStep (hs : s.shutStep = some s') : s'.load price f = s.load price f := by
  simp only [shutStep] at hs
  split at hs <;> try cases hs
  · rfl
  · rfl
  · rfl
  · simp only [load, total, List.map_map]
    congr 3
    exact funext (PoolWorker.share_tell f)
  · split at hs <;> cases hs
    rfl

theorem handlerStep_spec {w : PoolWorker T H} {after : T → PoolWorker T H}
    (hs : s.handlerStep i after w = some s') : ∃ job phase, w = .handling job phase ∧
      s' = s.setWorker i (after job) := by
  simp only [handlerStep] at hs
  split at hs <;> cases hs
  exact ⟨_, _, rfl, rfl⟩

theorem load_pushStep {p : Push T} (hi : s.pushes[i]? = some p) (hs : s.pushStep i p = some s') :
    s'.load price f = s.load price f ∨
      s'.load price f = s.load price f + price ∧
        (s'.pushes[i]?.bind fun p => p.pc.result) = some (.ok ()) := by
  obtain ⟨hlt, -⟩ := List.getElem?_eq_some_iff.mp hi
  simp only [pushStep] at hs
  split at hs
  · split at hs <;> cases hs <;> exact .inl rfl
  · cases hs
    exact .inl rfl
  · split at hs <;> cases hs
    · refine .inr ⟨?_, ?_⟩
      · simp only [load, setPush, accept, Queue.pushBack, List.length_append, List.length_singleton,
          Nat.mul_succ]
        omega
      · simp [setPush, accept, hlt, PushPc.result]
    · exact .inl rfl
  · cases hs
    exact .inl rfl
  · cases hs
  · cases hs

theorem load_mono {price : ℕ} {f g : H → ℕ} (h : ∀ phase, f phase ≤ g phase) (s : WorkerPool T H) :
    s.load price f ≤ s.load price g := by
  have hworkers : total (PoolWorker.share f) s.workers ≤ total (PoolWorker.share g) s.workers := by
    apply total_mono
    intro w
    cases w with
    | handling job phase => exact h phase
    | loop | select | stopped => exact le_rfl
  simp only [load]
  omega

end WorkerPool

def GatedCall.tokens {J : Type*} (c : GatedCall J) : ℕ :=
  match c.pc with
  | .sending pc => pc.tokens
  | .submitting _ => 1
  | .locking | .returned _ | .cancelled => 0

namespace CreditGatedPool

def phaseWeight (moreAfter : UInt64) : Option RecvPc → ℕ
  | none => 1
  | some pc => pc.weight moreAfter

def phaseResetting : Option RecvPc → ℕ
  | none => 0
  | some pc => pc.resetting

def uncounted : Option RecvPc → ℕ
  | none | some .count => 1
  | some .reset | some .bump => 0

variable {J : Type*}

def outstanding (s : CreditGatedPool J) : ℤ :=
  s.flow.credit.toInt + (total UInt64.toNat s.flow.bumps + total GatedCall.tokens s.calls +
    s.pool.load 1 uncounted : ℕ)

def overlaps (s : CreditGatedPool J) : GatedAction J → Bool
  | .recv i => s.flow.spec.moreAfter != 1 && s.workerPhase i == some (some .count) &&
      s.pool.workers.any fun w => w.phase == some (some .reset)
  | _ => false

def held (s : CreditGatedPool J) : ℕ :=
  total GatedCall.tokens s.calls + s.pool.load 1 (phaseWeight s.flow.spec.moreAfter)

structure Metered (creditLimit : UInt64) (s : CreditGatedPool J) : Prop where
  spec_eq : s.flow.spec = creditSpec creditLimit
  covers : s.flow.settled.Covers s.held
  exclusive : s.flow.Exclusive (s.pool.load 0 phaseResetting)

variable {creditLimit : UInt64} {s s' : CreditGatedPool J} {i : ℕ}

theorem load_new (price : ℕ) (f : Option RecvPc → ℕ) (cap queueCapacity : UInt64) :
    (WorkerPool.new cap queueCapacity : WorkerPool J (Option RecvPc)).load price f = 0 := by
  simp [WorkerPool.load, WorkerPool.new, Queue.new, total, PoolWorker.share, PoolWorker.phase]

theorem metered_new (creditLimit queueCapacity : UInt64) :
    Metered creditLimit (new creditLimit queueCapacity : CreditGatedPool J) where
  spec_eq := rfl
  covers := by
    have hnew := CreditFlow.covers_new (creditSpec creditLimit)
    refine hnew.of_le CreditFlow.settled_spec CreditFlow.settled_credit ?_
    rw [CreditFlow.settled_stored]
    simp [held, new, load_new, CreditFlow.new]
  exclusive := .inr (by simp [new, load_new])

theorem Metered.outstanding_le (h : Metered creditLimit s) :
    s.outstanding ≤ (atLeastOne creditLimit).toNat := by
  have hw := h.covers.within
  have hi := toInt_toInt64_le (atLeastOne creditLimit)
  have hload : s.pool.load 1 uncounted ≤ s.pool.load 1 (phaseWeight s.flow.spec.moreAfter) := by
    apply WorkerPool.load_mono
    rintro (- | - | - | -) <;> simp [uncounted, phaseWeight, RecvPc.weight]
  rw [CreditFlow.settled_credit, CreditFlow.settled_spec, CreditFlow.settled_stored, h.spec_eq] at hw
  rw [h.spec_eq] at hload
  simp only [outstanding, held, h.spec_eq, creditSpec] at *
  omega

theorem exclusive_mono {flow : CreditFlow} {resets less : ℕ} (h : flow.Exclusive resets)
    (hle : less ≤ resets) : flow.Exclusive less :=
  h.imp_right fun ⟨hone, hcounter⟩ => ⟨by omega, fun hpos => hcounter (by omega)⟩

theorem Metered.quiet (h : Metered creditLimit s) (hflow : s'.flow = s.flow)
    (htokens : total GatedCall.tokens s'.calls + s'.pool.load 1 (phaseWeight s.flow.spec.moreAfter) ≤
      total GatedCall.tokens s.calls + s.pool.load 1 (phaseWeight s.flow.spec.moreAfter))
    (hresets : s'.pool.load 0 phaseResetting ≤ s.pool.load 0 phaseResetting) :
    Metered creditLimit s' where
  spec_eq := hflow ▸ h.spec_eq
  covers := by
    rw [hflow]
    exact h.covers.mono (by simpa only [held, hflow] using htokens)
  exclusive := by
    rw [hflow]
    exact exclusive_mono h.exclusive hresets

theorem Metered.withPool {a : PoolAction J (Option RecvPc)} (h : Metered creditLimit s)
    (hs : s.withPool a = some s')
    (hload : ∀ (price : ℕ) (f : Option RecvPc → ℕ), f none ≤ price →
      s'.pool.load price f ≤ s.pool.load price f) : Metered creditLimit s' := by
  obtain ⟨-, hflow, hcalls⟩ := withPool_spec hs
  have hweight := hload 1 (phaseWeight s.flow.spec.moreAfter) le_rfl
  refine h.quiet hflow ?_ (hload 0 phaseResetting le_rfl)
  rw [hcalls]
  omega

theorem tokens_setCall {c : GatedCall J} (hi : s.calls[i]? = some c) (pc : GatedPc) :
    total GatedCall.tokens (s.setCall i c pc).calls + c.tokens =
      total GatedCall.tokens s.calls + ({ c with pc := pc } : GatedCall J).tokens :=
  total_set GatedCall.tokens _ hi

theorem Metered.setCall (h : Metered creditLimit s) {c : GatedCall J} (hi : s.calls[i]? = some c)
    {pc : GatedPc} (hpc : ({ c with pc := pc } : GatedCall J).tokens ≤ c.tokens) :
    Metered creditLimit (s.setCall i c pc) := by
  have hset := tokens_setCall hi pc
  exact h.quiet rfl (by simp only [CreditGatedPool.setCall] at *; omega) le_rfl

theorem Metered.sendStep (h : Metered creditLimit s) {c : GatedCall J} (hi : s.calls[i]? = some c)
    {pc pc' : SendPc} {flow : CreditFlow} (hpc : c.pc = .sending pc)
    (hsend : s.flow.sendStep i pc = some (flow, pc')) :
    Metered creditLimit ({ s with flow := flow }.setCall i c (.sending pc')) := by
  obtain ⟨hspec, hcounter⟩ := CreditFlow.sendStep_frame hsend
  obtain ⟨rest, hrest, hset⟩ := exists_rest GatedCall.tokens hi
  have hbefore : s.held = pc.tokens + (rest + s.pool.load 1 (phaseWeight s.flow.spec.moreAfter)) := by
    simp only [held, hrest, GatedCall.tokens, hpc]
    omega
  have hcovers := CreditFlow.sendStep_covers (CreditFlow.sendStep_settled hsend) (hbefore ▸ h.covers)
  refine ⟨hspec.trans h.spec_eq, hcovers.mono (le_of_eq ?_), ?_⟩
  · simp only [held, CreditGatedPool.setCall, hset, GatedCall.tokens, hspec]
    omega
  · have hexclusive := h.exclusive
    simpa only [CreditGatedPool.setCall, CreditFlow.Exclusive, hspec, hcounter] using hexclusive

theorem Metered.pushStep (h : Metered creditLimit s) {c : GatedCall J} (hi : s.calls[i]? = some c)
    {k : ℕ} {pool : WorkerPool J (Option RecvPc)} (hpc : c.pc = .submitting k)
    (hpool : s.pool.step (.push k) = some pool) :
    Metered creditLimit (match pool.pushes[k]?.bind fun p => p.pc.result with
      | some result => { s with pool := pool, locked := false }.setCall i c (.returned result)
      | none => { s with pool := pool }) := by
  obtain ⟨p, hp, hpush⟩ := Option.bind_eq_some_iff.mp hpool
  have hweight := WorkerPool.load_pushStep 1 (phaseWeight s.flow.spec.moreAfter) hp hpush
  have hresets := WorkerPool.load_pushStep 0 phaseResetting hp hpush
  split
  · rename_i result hresult
    have hset := tokens_setCall hi (.returned result)
    simp only [GatedCall.tokens, hpc, CreditGatedPool.setCall] at hset
    refine h.quiet rfl ?_ ?_ <;> simp only [CreditGatedPool.setCall] <;> omega
  · rename_i hnone
    simp only [hnone, reduceCtorEq, and_false, or_false] at hweight
    exact h.quiet rfl (by simp only; omega) (by simp only; omega)

theorem Metered.callStep (h : Metered creditLimit s) {c : GatedCall J} (hi : s.calls[i]? = some c)
    (hs : s.callStep i c = some s') : Metered creditLimit s' := by
  simp only [CreditGatedPool.callStep] at hs
  split at hs
  case h_1 =>
    split at hs
    · cases hs
    · split at hs <;> cases hs <;> refine (h.setCall hi ?_).quiet rfl le_rfl le_rfl
      all_goals simp [GatedCall.tokens, SendPc.tokens]
  case h_2 hpc =>
    obtain ⟨pool, hpool, rfl⟩ := Option.map_eq_some_iff.mp hs
    cases hpool
    have hset : Metered creditLimit (s.setCall i c (.submitting s.pool.pushes.length)) := by
      apply h.setCall hi
      simp [GatedCall.tokens, hpc, SendPc.tokens]
    exact hset.quiet rfl le_rfl le_rfl
  case h_3 hpc =>
    obtain ⟨⟨flow, pc'⟩, hsend, rfl⟩ := Option.map_eq_some_iff.mp hs
    exact h.sendStep hi hpc hsend
  case h_4 hpc =>
    obtain ⟨pool, hpool, rfl⟩ := Option.map_eq_some_iff.mp hs
    exact h.pushStep hi hpc hpool
  case h_5 => cases hs
  case h_6 => cases hs

theorem Metered.cancelStep (h : Metered creditLimit s) {c : GatedCall J} (hi : s.calls[i]? = some c)
    (hs : s.cancelStep i c = some s') : Metered creditLimit s' := by
  have hbase : Metered creditLimit (s.setCall i c .cancelled) :=
    h.setCall hi (Nat.zero_le _)
  simp only [CreditGatedPool.cancelStep] at hs
  split at hs
  case h_4 =>
    obtain ⟨pool, hpool, rfl⟩ := Option.map_eq_some_iff.mp hs
    obtain ⟨p, -, hcancel⟩ := Option.bind_eq_some_iff.mp hpool
    simp only [WorkerPool.cancelStep] at hcancel
    split at hcancel <;> cases hcancel
    exact hbase.quiet rfl le_rfl le_rfl
  case h_3 =>
    cases hs
    refine ⟨hbase.spec_eq, ?_, hbase.exclusive⟩
    refine hbase.covers.of_le ?_ ?_ ?_
    · rw [CreditFlow.settled_spec, CreditFlow.settled_spec]
      rfl
    · rw [CreditFlow.settled_credit, CreditFlow.settled_credit]
      rfl
    · rw [CreditFlow.settled_stored, CreditFlow.settled_stored]
      exact le_rfl
  all_goals
    cases hs
    try exact hbase.quiet rfl le_rfl le_rfl

theorem worker_of_phase {phase : Option RecvPc} (h : s.workerPhase i = some phase) :
    ∃ job, s.pool.workers[i]? = some (.handling job phase) := by
  obtain ⟨w, hw, hphase⟩ := Option.bind_eq_some_iff.mp h
  cases w with
  | handling job phase' =>
    cases hphase
    exact ⟨job, hw⟩
  | loop | select | stopped => cases hphase

theorem step_handle {pool pool' : WorkerPool J (Option RecvPc)} {job : J} {phase phase' : Option RecvPc}
    (hi : pool.workers[i]? = some (.handling job phase)) (h : pool.step (.handle i phase') = some pool') :
    pool' = pool.setWorker i (.handling job phase') := by
  simp only [WorkerPool.step, hi, Option.bind_some, WorkerPool.handlerStep, Option.some.injEq] at h
  exact h.symm

def afterRecv (job : J) (next : Option RecvPc) : PoolWorker J (Option RecvPc) :=
  next.elim .loop fun pc => .handling job (some pc)

theorem weight_afterRecv (moreAfter : UInt64) (job : J) (next : Option RecvPc) :
    (afterRecv job next).share (phaseWeight moreAfter) = next.elim 0 (RecvPc.weight moreAfter) := by
  cases next <;> rfl

theorem resetting_afterRecv (job : J) (next : Option RecvPc) :
    (afterRecv job next).share phaseResetting = next.elim 0 RecvPc.resetting := by
  cases next <;> rfl

theorem step_advance {pool pool' : WorkerPool J (Option RecvPc)} {job : J} {phase next : Option RecvPc}
    (hi : pool.workers[i]? = some (.handling job phase)) (h : pool.step (advance i next) = some pool') :
    pool' = pool.setWorker i (afterRecv job next) := by
  cases next with
  | none =>
    simp only [advance, WorkerPool.step, hi, Option.bind_some, WorkerPool.handlerStep, Option.some.injEq] at h
    exact h.symm
  | some pc => exact step_handle hi h

theorem Metered.handled (h : Metered creditLimit s) (hphase : s.workerPhase i = some none)
    (hs : s.withPool (.handle i (some .count)) = some s') : Metered creditLimit s' := by
  obtain ⟨job, hi⟩ := worker_of_phase hphase
  obtain ⟨hstep, hflow, hcalls⟩ := withPool_spec hs
  have hpool := step_handle hi hstep
  obtain ⟨rest, hrest, hweight⟩ := WorkerPool.exists_load_rest 1 (phaseWeight s.flow.spec.moreAfter) hi
  obtain ⟨others, hothers, hresets⟩ := WorkerPool.exists_load_rest 0 phaseResetting hi
  refine h.quiet hflow ?_ ?_
  · rw [hcalls, hpool, hrest, hweight]
    exact le_rfl
  · rw [hpool, hothers, hresets]
    exact le_rfl

theorem resets_eq_zero (h : (s.pool.workers.any fun w => w.phase == some (some .reset)) = false) :
    s.pool.load 0 phaseResetting = 0 := by
  have hzero : ∀ w ∈ s.pool.workers, w.share phaseResetting = 0 := by
    intro w hw
    have hphase := List.any_eq_false.mp h w hw
    rcases w with - | - | ⟨job, - | - | - | -⟩ | - <;> first | rfl | exact absurd rfl hphase
  simp only [WorkerPool.load, Nat.zero_mul, Nat.zero_add, total]
  apply List.sum_eq_zero
  simpa using hzero

theorem Metered.recvStep (h : Metered creditLimit s) {pc : RecvPc}
    (hphase : s.workerPhase i = some (some pc)) (halone : s.overlaps (.recv i) = false)
    (hs : s.recvStep i pc = some s') : Metered creditLimit s' := by
  obtain ⟨job, hi⟩ := worker_of_phase hphase
  obtain ⟨hstep, hflow, hcalls⟩ := withPool_spec hs
  have hpool : s'.pool = s.pool.setWorker i (afterRecv job (s.flow.recvStep pc).2) := step_advance hi hstep
  obtain ⟨rest, hrest, hweight⟩ := WorkerPool.exists_load_rest 1 (phaseWeight s.flow.spec.moreAfter) hi
  obtain ⟨others, hothers, hresets⟩ := WorkerPool.exists_load_rest 0 phaseResetting hi
  have hexclusive : s.flow.Exclusive (pc.resetting + others) := hothers ▸ h.exclusive
  have hspec : s'.flow.spec = s.flow.spec := by rw [hflow, CreditFlow.recvStep_spec]
  refine ⟨hspec.trans h.spec_eq, ?_, ?_⟩
  · have hsettled := CreditFlow.recvStep_settled hexclusive
    refine h.covers.of_le ?_ ?_ ?_
    · rw [CreditFlow.settled_spec, CreditFlow.settled_spec, hspec]
    · rw [CreditFlow.settled_credit, CreditFlow.settled_credit, hflow, CreditFlow.recvStep_credit]
    · simp only [held, hcalls, hpool, hrest, hweight, weight_afterRecv, hflow, CreditFlow.recvStep_spec,
        PoolWorker.share_handling, phaseWeight]
      omega
  · rw [hflow, hpool, hresets, resetting_afterRecv]
    refine CreditFlow.recvStep_exclusive hexclusive ?_
    rintro rfl
    by_cases hone : s.flow.spec.moreAfter = 1
    · exact .inl hone
    · right
      have hnone : (s.pool.workers.any fun w => w.phase == some (some .reset)) = false := by
        simpa [overlaps, hone, hphase] using halone
      have hzero := resets_eq_zero hnone
      omega

theorem Metered.step (h : Metered creditLimit s) {a : GatedAction J} (halone : s.overlaps a = false)
    (hs : s.step a = some s') : Metered creditLimit s' := by
  cases a with
  | submit job =>
    cases hs
    refine h.quiet rfl ?_ le_rfl
    simp [GatedCall.tokens]
  | call i =>
    obtain ⟨c, hi, hs⟩ := Option.bind_eq_some_iff.mp hs
    exact h.callStep hi hs
  | cancel i =>
    obtain ⟨c, hi, hs⟩ := Option.bind_eq_some_iff.mp hs
    exact h.cancelStep hi hs
  | work i =>
    refine h.withPool hs fun price f hf => ?_
    obtain ⟨w, hi, hwork⟩ := Option.bind_eq_some_iff.mp (withPool_spec hs).1
    exact WorkerPool.load_workStep price f hf hi hwork
  | quit i =>
    refine h.withPool hs fun price f _ => ?_
    obtain ⟨w, hi, hquit⟩ := Option.bind_eq_some_iff.mp (withPool_spec hs).1
    exact WorkerPool.load_quitStep price f hi hquit
  | handled i =>
    simp only [CreditGatedPool.step] at hs
    split at hs
    · rename_i hphase
      exact h.handled hphase hs
    · cases hs
  | recv i =>
    simp only [CreditGatedPool.step] at hs
    split at hs
    · rename_i hphase
      exact h.recvStep hphase halone hs
    · cases hs
  | panic i =>
    simp only [CreditGatedPool.step] at hs
    split at hs
    · refine h.withPool hs fun price f _ => ?_
      obtain ⟨w, hi, hpanic⟩ := Option.bind_eq_some_iff.mp (withPool_spec hs).1
      obtain ⟨_, _, -, hpool⟩ := WorkerPool.handlerStep_spec hpanic
      rw [hpool]
      exact WorkerPool.load_setWorker_le price f hi rfl
    · cases hs
  | drain =>
    simp only [CreditGatedPool.step] at hs
    split at hs
    · cases hs
    · split at hs
      · cases hs
        exact h
      · obtain ⟨hstep, hflow, hcalls⟩ := withPool_spec hs
        simp only [WorkerPool.step] at hstep
        split at hstep
        · have hpool := Option.some.inj hstep
          exact h.quiet hflow (by rw [hcalls, ← hpool]; exact le_rfl) (by rw [← hpool]; exact le_rfl)
        · cases hstep
  | shut => exact h.withPool hs fun price f _ => (WorkerPool.load_shutStep price f (withPool_spec hs).1).le

end CreditGatedPool

theorem bumps_within_receipts {J : Type*} :
    (∀ (spec : CreditSpec) (as : List ReceiversAction),
      Respects Receivers.next (fun s a => s.overlaps a = false) (.new spec) as →
      Along Receivers.next (fun s => s.bumped ≤ s.calls.length) (.new spec) as) ∧
    ∀ (creditLimit queueCapacity : UInt64) (as : List (GatedAction J)),
      Respects CreditGatedPool.next (fun s a => s.overlaps a = false) (.new creditLimit queueCapacity) as →
      Along CreditGatedPool.next (fun s => s.outstanding ≤ (atLeastOne creditLimit).toNat)
        (.new creditLimit queueCapacity) as := by
  refine ⟨?_, ?_⟩
  · intro spec as h
    have hinv : Along Receivers.next Receivers.Metered (.new spec) as :=
      along_of_partial (fun _ _ _ hs ha hstep => hs.step ha hstep) (Receivers.metered_new spec) h
    exact hinv.mono fun _ hs => hs.bumped_le
  · intro creditLimit queueCapacity as h
    have hinv : Along CreditGatedPool.next (CreditGatedPool.Metered creditLimit)
        (.new creditLimit queueCapacity) as :=
      along_of_partial (fun _ _ _ hs ha hstep => hs.step ha hstep)
        (CreditGatedPool.metered_new creditLimit queueCapacity) h
    exact hinv.mono fun _ hs => hs.outstanding_le

def submitJob (i : ℕ) : List (GatedAction String) :=
  [.submit "job", .call i, .call i, .call i, .call i, .call i, .call i, .call i]

def takeJob (i : ℕ) : List (GatedAction String) :=
  [.work i, .work i, .work i, .handled i]

theorem overlapping_receipts_add_credit :
    ¬Along Receivers.next (fun s => s.bumped ≤ s.calls.length) (.new ⟨4, 2⟩)
      [.start, .call 0, .start, .start, .call 1, .call 2, .call 1, .call 2, .call 1, .call 2] ∧
    ¬Along CreditGatedPool.next (fun s => s.outstanding ≤ (atLeastOne 4).toNat) (.new 4 8)
      (submitJob 0 ++ takeJob 0 ++ [.recv 0] ++ submitJob 1 ++ submitJob 2 ++ takeJob 0 ++ takeJob 1 ++
        [.recv 0, .recv 1, .recv 0, .recv 1, .recv 0, .recv 1]) := by
  decide +kernel

theorem receipts_in_turn :
    Along Receivers.next (fun s => s.bumped ≤ s.calls.length) (.new ⟨4, 2⟩)
      [.start, .call 0, .start, .start, .call 1, .call 1, .call 2, .call 1] ∧
    Along CreditGatedPool.next (fun s => s.outstanding ≤ (atLeastOne 4).toNat) (.new 4 8)
      (submitJob 0 ++ takeJob 0 ++ [.recv 0] ++ submitJob 1 ++ submitJob 2 ++ takeJob 0 ++ takeJob 1 ++
        [.recv 0, .recv 0, .recv 1, .recv 0]) :=
  ⟨(bumps_within_receipts (J := String)).1 ⟨4, 2⟩ _ (by decide +kernel),
    bumps_within_receipts.2 4 8 _ (by decide +kernel)⟩

end Fluent.Concurrency
