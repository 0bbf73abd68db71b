import Mathlib.Data.List.Basic
import Mathlib.Data.List.Infix
import Mathlib.Tactic.Cases

namespace Fluent.Concurrency

/-- `tokio::sync::Notify`. `permit` is a stored `notify_one`, `rounds` counts the calls of
`notify_waiters`, `waiters` are the futures in line and `granted` those that `notify_one` took out of
it and that were not polled since. -/
structure Notify where
  permit : Bool
  rounds : ℕ
  waiters : List ℕ
  granted : List ℕ
deriving DecidableEq

inductive Notified where
  | fresh (rounds : ℕ)
  | registered
deriving DecidableEq

namespace Notify

def new : Notify where
  permit := false
  rounds := 0
  waiters := []
  granted := []

def notified (n : Notify) : Notified :=
  .fresh n.rounds

def notifyOne (n : Notify) : Notify :=
  match n.waiters with
  | [] => { n with permit := true }
  | w :: waiters => { n with waiters := waiters, granted := n.granted ++ [w] }

def notifyWaiters (n : Notify) : Notify :=
  { n with rounds := n.rounds + 1, waiters := [] }

def poll (n : Notify) (me : ℕ) : Notified → Notify × Bool
  | .fresh rounds =>
    if n.permit then ({ n with permit := false }, true)
    else if n.rounds = rounds then ({ n with waiters := n.waiters ++ [me] }, false)
    else (n, true)
  | .registered =>
    if me ∈ n.waiters then (n, false) else ({ n with granted := n.granted.erase me }, true)

def drop (n : Notify) (me : ℕ) : Notified → Notify
  | .fresh _ => n
  | .registered =>
    if me ∈ n.waiters then { n with waiters := n.waiters.erase me }
    else if me ∈ n.granted then { n with granted := n.granted.erase me }.notifyOne
    else n

end Notify

inductive PoolError where
  | full
  | closed
deriving DecidableEq

structure Queue (T : Type*) where
  items : List T
  capacity : UInt64
  closed : Bool
  notify : Notify
  spaceNotify : Notify

namespace Queue

variable {T : Type*}

def new (capacity : UInt64) : Queue T where
  items := []
  capacity := capacity
  closed := false
  notify := Notify.new
  spaceNotify := Notify.new

def hasSpace (q : Queue T) : Bool :=
  q.items.length < q.capacity.toNat

def pushBack (q : Queue T) (item : T) : Queue T :=
  { q with items := q.items ++ [item], notify := q.notify.notifyOne }

end Queue

inductive PushPc where
  | check (wait : Bool)
  | arm
  | insert (waited : Option Notified)
  | await (waited : Notified)
  | returned (result : Except PoolError Unit)
  | cancelled

structure Push (T : Type*) where
  item : T
  pc : PushPc

inductive PopPc where
  | unpolled
  | arm
  | take (notified : Notified)
  | await (notified : Notified)
deriving DecidableEq

/-- A worker task. `told` says that `notify_waiters` came after the shutdown future of this `select!`
was made, `phase` where the future of the handler stands. -/
inductive PoolWorker (T H : Type*) where
  | loop
  | select (told : Bool) (pop : PopPc)
  | handling (job : T) (phase : H)
  | stopped

namespace PoolWorker

variable {T H : Type*}

def tell : PoolWorker T H → PoolWorker T H
  | .select _ pop => .select true pop
  | w => w

def isStopped : PoolWorker T H → Bool
  | .stopped => true
  | _ => false

def busy : PoolWorker T H → Bool
  | .loop | .handling _ _ => true
  | .select _ _ | .stopped => false

def untold : PoolWorker T H → Bool
  | .loop | .handling _ _ | .select false _ => true
  | .select true _ | .stopped => false

end PoolWorker

inductive ShutdownPc where
  | notCalled
  | closing
  | wakingPops
  | wakingPushes
  | telling
  | joining
  | returned
deriving DecidableEq

/-- The pool with the calls in progress. `accepted` lists the jobs whose submission returned `Ok`
before `shutdown` was called, `handled` those given to the handler, each in order. -/
structure WorkerPool (T H : Type*) where
  queue : Queue T
  workers : List (PoolWorker T H)
  pushes : List (Push T)
  shutdown : ShutdownPc
  accepted : List T
  handled : List T

inductive PoolAction (T H : Type*) where
  | submit (job : T)
  | trySubmit (job : T)
  | push (i : ℕ)
  | cancel (i : ℕ)
  | work (i : ℕ)
  | quit (i : ℕ)
  | handle (i : ℕ) (phase : H)
  | finish (i : ℕ)
  | panic (i : ℕ)
  | callShutdown
  | shut

namespace WorkerPool

variable {T H : Type*}

def new (cap queueCapacity : UInt64) : WorkerPool T H where
  queue := Queue.new queueCapacity
  workers := List.replicate cap.toNat .loop
  pushes := []
  shutdown := .notCalled
  accepted := []
  handled := []

def setPush (s : WorkerPool T H) (i : ℕ) (p : Push T) (pc : PushPc) : WorkerPool T H :=
  { s with pushes := s.pushes.set i { p with pc := pc } }

def setWorker (s : WorkerPool T H) (i : ℕ) (w : PoolWorker T H) : WorkerPool T H :=
  { s with workers := s.workers.set i w }

def accept (s : WorkerPool T H) (job : T) : WorkerPool T H :=
  { s with
    queue := s.queue.pushBack job
    accepted := if s.shutdown = .notCalled then s.accepted ++ [job] else s.accepted }

def pushStep (s : WorkerPool T H) (i : ℕ) (p : Push T) : Option (WorkerPool T H) :=
  match p.pc with
  | .check wait =>
    if s.queue.closed then some (s.setPush i p (.returned (.error .closed)))
    else some (s.setPush i p (if wait then .arm else .insert none))
  | .arm => some (s.setPush i p (.insert (some s.queue.spaceNotify.notified)))
  | .insert waited =>
    if s.queue.hasSpace then some ((s.accept p.item).setPush i p (.returned (.ok ())))
    else some (s.setPush i p (waited.elim (.returned (.error .full)) .await))
  | .await waited =>
    let (spaceNotify, ready) := s.queue.spaceNotify.poll i waited
    some ({ s with queue := { s.queue with spaceNotify := spaceNotify } }.setPush i p
      (if ready then .check true else .await .registered))
  | .returned _ | .cancelled => none

def cancelStep (s : WorkerPool T H) (i : ℕ) (p : Push T) : Option (WorkerPool T H) :=
  match p.pc with
  | .await .registered =>
    some ({ s with queue := { s.queue with
      spaceNotify := s.queue.spaceNotify.drop i .registered } }.setPush i p .cancelled)
  | _ => none

def workStep [Inhabited H] (s : WorkerPool T H) (i : ℕ) : PoolWorker T H → Option (WorkerPool T H)
  | .loop => some (s.setWorker i (.select false .unpolled))
  | .select told .unpolled | .select told .arm =>
    some (s.setWorker i (.select told (.take s.queue.notify.notified)))
  | .select told (.take notified) =>
    match s.queue.items with
    | job :: items =>
      some ({ s with
        queue := { s.queue with items := items, spaceNotify := s.queue.spaceNotify.notifyOne }
        handled := s.handled ++ [job] }.setWorker i (.handling job default))
    | [] =>
      if s.queue.closed then some (s.setWorker i .stopped)
      else some (s.setWorker i (.select told (.await notified)))
  | .select told (.await notified) =>
    let (notify, ready) := s.queue.notify.poll i notified
    some ({ s with queue := { s.queue with notify := notify } }.setWorker i
      (.select told (if ready then .arm else .await .registered)))
  | .handling _ _ | .stopped => none

def quitStep (s : WorkerPool T H) (i : ℕ) : PoolWorker T H → Option (WorkerPool T H)
  | .select true .unpolled => some (s.setWorker i .stopped)
  | .select true (.await .registered) =>
    some ({ s with queue := { s.queue with
      notify := s.queue.notify.drop i .registered } }.setWorker i .stopped)
  | _ => none

def handlerStep (s : WorkerPool T H) (i : ℕ) (after : T → PoolWorker T H) :
    PoolWorker T H → Option (WorkerPool T H)
  | .handling job _ => some (s.setWorker i (after job))
  | _ => none

def shutStep (s : WorkerPool T H) : Option (WorkerPool T H) :=
  match s.shutdown with
  | .notCalled => none
  | .closing => some { s with queue := { s.queue with closed := true }, shutdown := .wakingPops }
  | .wakingPops =>
    some { s with queue := { s.queue with notify := s.queue.notify.notifyWaiters }, shutdown := .wakingPushes }
  | .wakingPushes =>
    some { s with
      queue := { s.queue with spaceNotify := s.queue.spaceNotify.notifyWaiters }
      shutdown := .telling }
  | .telling => some { s with workers := s.workers.map PoolWorker.tell, shutdown := .joining }
  | .joining => if s.workers.all PoolWorker.isStopped then some { s with shutdown := .returned } else none
  | .returned => none

def step [Inhabited H] (s : WorkerPool T H) : PoolAction T H → Option (WorkerPool T H)
  | .submit job => some { s with pushes := s.pushes ++ [⟨job, .check true⟩] }
  | .trySubmit job => some { s with pushes := s.pushes ++ [⟨job, .check false⟩] }
  | .push i => s.pushes[i]?.bind (s.pushStep i)
  | .cancel i => s.pushes[i]?.bind (s.cancelStep i)
  | .work i => s.workers[i]?.bind (s.workStep i)
  | .quit i => s.workers[i]?.bind (s.quitStep i)
  | .handle i phase => s.workers[i]?.bind (s.handlerStep i fun job => .handling job phase)
  | .finish i => s.workers[i]?.bind (s.handlerStep i fun _ => .loop)
  | .panic i => s.workers[i]?.bind (s.handlerStep i fun _ => .stopped)
  | .callShutdown => if s.shutdown = .notCalled then some { s with shutdown := .closing } else none
  | .shut => s.shutStep

/-- A run is any sequence of actions; one that is not possible changes nothing. -/
def next [Inhabited H] (s : WorkerPool T H) (a : PoolAction T H) : WorkerPool T H :=
  (s.step a).getD s

end WorkerPool
end Fluent.Concurrency
