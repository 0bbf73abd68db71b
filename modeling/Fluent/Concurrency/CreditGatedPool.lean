import Fluent.Concurrency.Flow
import Fluent.Concurrency.WorkerPool

namespace Fluent.Concurrency

inductive GatedPc where
  | locking
  | sending (pc : SendPc)
  | submitting (push : ℕ)
  | returned (result : Except PoolError Unit)
  | cancelled

structure GatedCall (J : Type*) where
  job : J
  pc : GatedPc

/-- The gated pool with the calls in progress. `taken` says that `drain` took the pool out of the
mutex. The handler of the pool runs the given handler, at phase `none`, and then a `recv`. -/
structure CreditGatedPool (J : Type*) where
  flow : CreditFlow
  locked : Bool
  taken : Bool
  pool : WorkerPool J (Option RecvPc)
  calls : List (GatedCall J)

inductive GatedAction (J : Type*) where
  | submit (job : J)
  | call (i : ℕ)
  | cancel (i : ℕ)
  | work (i : ℕ)
  | quit (i : ℕ)
  | handled (i : ℕ)
  | recv (i : ℕ)
  | panic (i : ℕ)
  | drain
  | shut

def PushPc.result : PushPc → Option (Except PoolError Unit)
  | .returned result => some result
  | _ => none

def PoolWorker.phase {T H : Type*} : PoolWorker T H → Option H
  | .handling _ phase => some phase
  | _ => none

def atLeastOne (n : UInt64) : UInt64 :=
  if n < 1 then 1 else n

namespace CreditGatedPool

variable {J : Type*}

def workerCap : UInt64 := 2

def creditSpec (creditLimit : UInt64) : CreditSpec where
  initial := atLeastOne creditLimit
  moreAfter := atLeastOne (creditLimit / 2)

def new (creditLimit queueCapacity : UInt64) : CreditGatedPool J where
  flow := CreditFlow.new (creditSpec creditLimit)
  locked := false
  taken := false
  pool := WorkerPool.new workerCap queueCapacity
  calls := []

def setCall (s : CreditGatedPool J) (i : ℕ) (c : GatedCall J) (pc : GatedPc) : CreditGatedPool J :=
  { s with calls := s.calls.set i { c with pc := pc } }

def callStep (s : CreditGatedPool J) (i : ℕ) (c : GatedCall J) : Option (CreditGatedPool J) :=
  match c.pc with
  | .locking =>
    if s.locked then none
    else if s.taken then some (s.setCall i c (.returned (.error .closed)))
    else some ({ s with locked := true }.setCall i c (.sending .load))
  | .sending .op =>
    (s.pool.step (.submit c.job)).map fun pool =>
      { s with pool := pool }.setCall i c (.submitting s.pool.pushes.length)
  | .sending pc =>
    (s.flow.sendStep i pc).map fun (flow, pc') => { s with flow := flow }.setCall i c (.sending pc')
  | .submitting k =>
    (s.pool.step (.push k)).map fun pool =>
      match pool.pushes[k]?.bind fun p => p.pc.result with
      | some result => { s with pool := pool, locked := false }.setCall i c (.returned result)
      | none => { s with pool := pool }
  | .returned _ | .cancelled => none

def cancelStep (s : CreditGatedPool J) (i : ℕ) (c : GatedCall J) : Option (CreditGatedPool J) :=
  match c.pc with
  | .locking => some (s.setCall i c .cancelled)
  | .sending .lock => some ({ s with locked := false }.setCall i c .cancelled)
  | .sending .await =>
    some ({ s with locked := false, flow := { s.flow with guard := none } }.setCall i c .cancelled)
  | .submitting k =>
    (s.pool.step (.cancel k)).map fun pool =>
      { s with pool := pool, locked := false }.setCall i c .cancelled
  | _ => none

def workerPhase (s : CreditGatedPool J) (i : ℕ) : Option (Option RecvPc) :=
  s.pool.workers[i]?.bind PoolWorker.phase

def withPool (s : CreditGatedPool J) (a : PoolAction J (Option RecvPc)) : Option (CreditGatedPool J) :=
  (s.pool.step a).map fun pool => { s with pool := pool }

def advance (i : ℕ) : Option RecvPc → PoolAction J (Option RecvPc)
  | none => .finish i
  | some pc => .handle i (some pc)

def recvStep (s : CreditGatedPool J) (i : ℕ) (pc : RecvPc) : Option (CreditGatedPool J) :=
  { s with flow := (s.flow.recvStep pc).1 }.withPool (advance i (s.flow.recvStep pc).2)

def step (s : CreditGatedPool J) : GatedAction J → Option (CreditGatedPool J)
  | .submit job => some { s with calls := s.calls ++ [⟨job, .locking⟩] }
  | .call i => s.calls[i]?.bind (s.callStep i)
  | .cancel i => s.calls[i]?.bind (s.cancelStep i)
  | .work i => s.withPool (.work i)
  | .quit i => s.withPool (.quit i)
  | .handled i =>
    match s.workerPhase i with
    | some none => s.withPool (.handle i (some .count))
    | _ => none
  | .recv i =>
    match s.workerPhase i with
    | some (some pc) => s.recvStep i pc
    | _ => none
  | .panic i =>
    match s.workerPhase i with
    | some none => s.withPool (.panic i)
    | _ => none
  | .drain =>
    if s.locked then none
    else if s.taken then some s
    else { s with taken := true }.withPool .callShutdown
  | .shut => s.withPool .shut

def next (s : CreditGatedPool J) (a : GatedAction J) : CreditGatedPool J :=
  (s.step a).getD s

def poolAction (s : CreditGatedPool J) : GatedAction J → Option (PoolAction J (Option RecvPc))
  | .submit _ => none
  | .call i =>
    s.calls[i]?.bind fun c =>
      match c.pc with
      | .sending .op => some (.submit c.job)
      | .submitting k => some (.push k)
      | _ => none
  | .cancel i =>
    s.calls[i]?.bind fun c =>
      match c.pc with
      | .submitting k => some (.cancel k)
      | _ => none
  | .work i => some (.work i)
  | .quit i => some (.quit i)
  | .handled i => some (.handle i (some .count))
  | .recv i =>
    (s.workerPhase i).bind fun phase =>
      phase.map fun pc => advance i (s.flow.recvStep pc).2
  | .panic i => some (.panic i)
  | .drain => some .callShutdown
  | .shut => some .shut

variable {s s' : CreditGatedPool J}

theorem withPool_spec {a : PoolAction J (Option RecvPc)} (h : s.withPool a = some s') :
    s.pool.step a = some s'.pool ∧ s'.flow = s.flow ∧ s'.calls = s.calls := by
  obtain ⟨pool, hpool, rfl⟩ := Option.map_eq_some_iff.mp h
  exact ⟨hpool, rfl, rfl⟩

theorem callStep_pool {i : ℕ} {c : GatedCall J} (hi : s.calls[i]? = some c)
    (h : s.callStep i c = some s') : s'.pool = s.pool ∨
      ∃ b, s.poolAction (.call i) = some b ∧ s.pool.step b = some s'.pool := by
  simp only [callStep] at h
  split at h
  case h_1 =>
    split at h
    · cases h
    · split at h <;> cases h <;> exact .inl rfl
  case h_2 hpc =>
    obtain ⟨pool, hpool, rfl⟩ := Option.map_eq_some_iff.mp h
    exact .inr ⟨.submit c.job, by simp [poolAction, hi, hpc], hpool⟩
  case h_3 =>
    obtain ⟨_, -, rfl⟩ := Option.map_eq_some_iff.mp h
    exact .inl rfl
  case h_4 k hpc =>
    obtain ⟨pool, hpool, rfl⟩ := Option.map_eq_some_iff.mp h
    refine .inr ⟨.push k, by simp [poolAction, hi, hpc], ?_⟩
    split <;> exact hpool
  case h_5 => cases h
  case h_6 => cases h

theorem cancelStep_pool {i : ℕ} {c : GatedCall J} (hi : s.calls[i]? = some c)
    (h : s.cancelStep i c = some s') : s'.pool = s.pool ∨
      ∃ b, s.poolAction (.cancel i) = some b ∧ s.pool.step b = some s'.pool := by
  simp only [cancelStep] at h
  split at h
  case h_4 k hpc =>
    obtain ⟨pool, hpool, rfl⟩ := Option.map_eq_some_iff.mp h
    exact .inr ⟨.cancel k, by simp [poolAction, hi, hpc], hpool⟩
  all_goals
    cases h
    try exact .inl rfl

theorem step_pool {a : GatedAction J} (h : s.step a = some s') : s'.pool = s.pool ∨
    ∃ b, s.poolAction a = some b ∧ s.pool.step b = some s'.pool := by
  cases a with
  | submit job =>
    cases h
    exact .inl rfl
  | call i =>
    obtain ⟨c, hi, h⟩ := Option.bind_eq_some_iff.mp h
    exact callStep_pool hi h
  | cancel i =>
    obtain ⟨c, hi, h⟩ := Option.bind_eq_some_iff.mp h
    exact cancelStep_pool hi h
  | work i | quit i | shut => exact .inr ⟨_, rfl, (withPool_spec h).1⟩
  | handled i | panic i =>
    simp only [step] at h
    split at h
    · exact .inr ⟨_, rfl, (withPool_spec h).1⟩
    · cases h
  | recv i =>
    simp only [step] at h
    split at h
    · rename_i pc hphase
      exact .inr ⟨advance i (s.flow.recvStep pc).2, by simp [poolAction, hphase], (withPool_spec h).1⟩
    · cases h
  | drain =>
    simp only [step] at h
    split at h
    · cases h
    · split at h
      · cases h
        exact .inl rfl
      · exact .inr ⟨_, rfl, (withPool_spec h).1⟩

end CreditGatedPool
end Fluent.Concurrency
