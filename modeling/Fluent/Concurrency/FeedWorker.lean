import Mathlib.Data.List.Basic
import Fluent.Concurrency.Flow

open Fluent.Library (total)

namespace Fluent.Concurrency

structure FeedConfig where
  queueCapacity : UInt64 := 1024
  creditLimit : UInt64 := 256
  creditMoreAfter : UInt64 := 8
  maxConcurrent : UInt64 := 8
  batchSize : UInt64 := 8
deriving DecidableEq

inductive FeedError where
  | feedClosed
deriving DecidableEq

/-- An item of the feed. `gated` records that it came through `enqueue_with_credit`; the code never
looks at it. -/
structure Entry (Item : Type*) where
  item : Item
  gated : Bool
deriving DecidableEq

inductive CallPc where
  | sending (pc : SendPc)
  | returned (result : Except FeedError Unit)
  | cancelled

structure Call (Item : Type*) where
  item : Item
  pc : CallPc

inductive TaskPc where
  | acquiring
  | running
  | finished
deriving DecidableEq

structure Task (Item : Type*) where
  entry : Entry Item
  pc : TaskPc

inductive JoinLoop (Item : Type*) where
  | bounding (rest : List (Entry Item))
  | finishing

inductive WorkerPc (Item : Type*) where
  | unstarted
  | top
  | sweep (batch : List (Entry Item))
  | first
  | fill (batch : List (Entry Item))
  | spawn (rest : List (Entry Item))
  | join (loop : JoinLoop Item)
  | recv (loop : JoinLoop Item) (pc : RecvPc)
  | leaving
  | exited

/-- The worker with the calls and tasks in progress. `sender` is false once `drain` took the sender
out, `clones` counts the senders handed out, `handled` lists what the handler was called with. -/
structure CreditedFeedWorker (Item : Type*) where
  config : FeedConfig
  flow : CreditFlow
  sender : Bool
  clones : ℕ
  feed : List (Entry Item)
  draining : Bool
  calls : List (Call Item)
  worker : WorkerPc Item
  tasks : List (Task Item)
  handled : List (Entry Item)

inductive Action (Item : Type*) where
  | enqueue (item : Item)
  | enqueueWithCredit (item : Item)
  | call (i : ℕ)
  | cancel (i : ℕ)
  | sender
  | sendClone (item : Item)
  | dropClone
  | start
  | takeSender
  | setDraining
  | work
  | timeout
  | permit (i : ℕ)
  | complete (i : ℕ)
  | joinNext (i : ℕ)

def CallPc.isSending : CallPc → Bool
  | .sending _ => true
  | _ => false

namespace CreditedFeedWorker

variable {Item : Type*}

def new (config : FeedConfig) : CreditedFeedWorker Item where
  config := config
  flow := CreditFlow.new ⟨config.creditLimit, config.creditMoreAfter⟩
  sender := true
  clones := 0
  feed := []
  draining := false
  calls := []
  worker := .unstarted
  tasks := []
  handled := []

def receiverDropped (s : CreditedFeedWorker Item) : Bool :=
  match s.worker with
  | .exited => true
  | _ => false

def disconnected (s : CreditedFeedWorker Item) : Bool :=
  !s.sender && s.clones == 0 && s.calls.all fun c => !c.pc.isSending

def hasRoom (s : CreditedFeedWorker Item) : Bool :=
  s.feed.length < s.config.queueCapacity.toNat

def push (s : CreditedFeedWorker Item) (entry : Entry Item) : CreditedFeedWorker Item :=
  { s with feed := s.feed ++ [entry] }

def admits (s : CreditedFeedWorker Item) : Bool :=
  !s.receiverDropped && s.hasRoom

def enqueue (s : CreditedFeedWorker Item) (item : Item) : CreditedFeedWorker Item :=
  if s.sender && s.admits then s.push ⟨item, false⟩ else s

def enqueueWithCredit (s : CreditedFeedWorker Item) (item : Item) : CreditedFeedWorker Item :=
  if s.sender then { s with calls := s.calls ++ [⟨item, .sending .load⟩] }
  else { s with calls := s.calls ++ [⟨item, .returned (.error .feedClosed)⟩] }

def setCall (s : CreditedFeedWorker Item) (i : ℕ) (c : Call Item) (pc : CallPc) :
    CreditedFeedWorker Item :=
  { s with calls := s.calls.set i { c with pc := pc } }

def callStep (s : CreditedFeedWorker Item) (i : ℕ) (c : Call Item) :
    Option (CreditedFeedWorker Item) :=
  match c.pc with
  | .sending .op =>
    if s.receiverDropped then some (s.setCall i c (.returned (.error .feedClosed)))
    else if s.hasRoom then some ((s.push ⟨c.item, true⟩).setCall i c (.returned (.ok ())))
    else none
  | .sending pc =>
    (s.flow.sendStep i pc).map fun (flow, pc') => { s with flow := flow }.setCall i c (.sending pc')
  | _ => none

def cancelStep (s : CreditedFeedWorker Item) (i : ℕ) (c : Call Item) :
    Option (CreditedFeedWorker Item) :=
  match c.pc with
  | .sending .lock | .sending .op => some (s.setCall i c .cancelled)
  | .sending .await =>
    some ({ s with flow := { s.flow with guard := none } }.setCall i c .cancelled)
  | _ => none

def workStep (s : CreditedFeedWorker Item) : Option (CreditedFeedWorker Item) :=
  match s.worker with
  | .unstarted => none
  | .top => some { s with worker := if s.draining then .sweep [] else .first }
  | .sweep batch =>
    match s.feed with
    | entry :: feed => some { s with feed := feed, worker := .sweep (batch ++ [entry]) }
    | [] => some { s with worker := if batch.isEmpty then .leaving else .spawn batch }
  | .first =>
    match s.feed with
    | entry :: feed => some { s with feed := feed, worker := .fill [entry] }
    | [] => if s.disconnected then some { s with worker := .leaving } else none
  | .fill batch =>
    if batch.length < s.config.batchSize.toNat then
      match s.feed with
      | entry :: feed => some { s with feed := feed, worker := .fill (batch ++ [entry]) }
      | [] => if s.disconnected then some { s with worker := .spawn batch } else none
    else some { s with worker := .spawn batch }
  | .spawn (entry :: rest) =>
    some { s with tasks := s.tasks ++ [⟨entry, .acquiring⟩], worker := .join (.bounding rest) }
  | .spawn [] => some { s with worker := .join .finishing }
  | .join (.bounding rest) =>
    if s.config.maxConcurrent.toNat ≤ s.tasks.length then
      if s.tasks.isEmpty then some { s with worker := .recv (.bounding rest) .count } else none
    else some { s with worker := .spawn rest }
  | .join .finishing => if s.tasks.isEmpty then some { s with worker := .top } else none
  | .recv loop pc =>
    let (flow, next) := s.flow.recvStep pc
    some { s with flow := flow, worker := next.elim (.join loop) (.recv loop) }
  | .leaving => some { s with feed := [], worker := .exited }
  | .exited => none

def timeoutStep (s : CreditedFeedWorker Item) : Option (CreditedFeedWorker Item) :=
  match s.worker with
  | .fill batch =>
    if batch.length < s.config.batchSize.toNat then some { s with worker := .spawn batch } else none
  | _ => none

def joining (s : CreditedFeedWorker Item) : Option (JoinLoop Item) :=
  match s.worker with
  | .join (.bounding rest) =>
    if s.config.maxConcurrent.toNat ≤ s.tasks.length then some (.bounding rest) else none
  | .join .finishing => some .finishing
  | _ => none

def joinStep (s : CreditedFeedWorker Item) (i : ℕ) : Option (CreditedFeedWorker Item) :=
  match s.joining, s.tasks[i]? with
  | some loop, some ⟨_, .finished⟩ =>
    some { s with tasks := s.tasks.eraseIdx i, worker := .recv loop .count }
  | _, _ => none

def running (s : CreditedFeedWorker Item) : ℕ :=
  s.tasks.countP fun t => t.pc == .running

def permitStep (s : CreditedFeedWorker Item) (i : ℕ) : Option (CreditedFeedWorker Item) :=
  match s.tasks[i]? with
  | some ⟨entry, .acquiring⟩ =>
    if s.running < max s.config.maxConcurrent.toNat 1 then
      some { s with tasks := s.tasks.set i ⟨entry, .running⟩, handled := s.handled ++ [entry] }
    else none
  | _ => none

def completeStep (s : CreditedFeedWorker Item) (i : ℕ) : Option (CreditedFeedWorker Item) :=
  match s.tasks[i]? with
  | some ⟨entry, .running⟩ => some { s with tasks := s.tasks.set i ⟨entry, .finished⟩ }
  | _ => none

def step (s : CreditedFeedWorker Item) : Action Item → Option (CreditedFeedWorker Item)
  | .enqueue item => some (s.enqueue item)
  | .enqueueWithCredit item => some (s.enqueueWithCredit item)
  | .call i => s.calls[i]?.bind (s.callStep i)
  | .cancel i => s.calls[i]?.bind (s.cancelStep i)
  | .sender => if s.sender then some { s with clones := s.clones + 1 } else none
  | .sendClone item => if 0 < s.clones ∧ s.admits then some (s.push ⟨item, false⟩) else none
  | .dropClone => if 0 < s.clones then some { s with clones := s.clones - 1 } else none
  | .start =>
    match s.worker with
    | .unstarted => some { s with worker := .top }
    | _ => none
  | .takeSender => some { s with sender := false }
  | .setDraining => if s.sender then none else some { s with draining := true }
  | .work => s.workStep
  | .timeout => s.timeoutStep
  | .permit i => s.permitStep i
  | .complete i => s.completeStep i
  | .joinNext i => s.joinStep i

def next (s : CreditedFeedWorker Item) (a : Action Item) : CreditedFeedWorker Item :=
  (s.step a).getD s

variable {s s' : CreditedFeedWorker Item} {i : ℕ}

theorem next_of_step {P : CreditedFeedWorker Item → Prop} {a : Action Item} (h : P s)
    (hstep : ∀ s', s.step a = some s' → P s') : P (s.next a) := by
  cases hs : s.step a with
  | none => simpa [next, hs] using h
  | some s' => simpa [next, hs] using hstep s' hs

theorem worker_of_joining {loop : JoinLoop Item} (h : s.joining = some loop) : s.worker = .join loop := by
  simp only [joining] at h
  split at h
  · split at h <;> cases h
    assumption
  · cases h
    assumption
  · cases h

end CreditedFeedWorker

def WorkerPc.batch {Item : Type*} : WorkerPc Item → List (Entry Item)
  | .sweep batch | .fill batch => batch
  | .spawn rest | .join (.bounding rest) | .recv (.bounding rest) _ => rest
  | _ => []

def Task.gatedUnfinished {Item : Type*} (t : Task Item) : Bool :=
  t.entry.gated && t.pc != .finished

def CreditedFeedWorker.gatedInFlight {Item : Type*} (s : CreditedFeedWorker Item) : ℕ :=
  s.feed.countP Entry.gated + s.worker.batch.countP Entry.gated + s.tasks.countP Task.gatedUnfinished

end Fluent.Concurrency
