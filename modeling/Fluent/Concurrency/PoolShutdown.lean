import Fluent.Concurrency.CreditGatedPool
import Fluent.Library.Runs

open Fluent.Library

namespace Fluent.Concurrency

variable {T H J : Type*}

theorem PoolWorker.untold_tell {w : PoolWorker T H} (h : w.busy = true) : w.tell.untold = true := by
  cases w with
  | loop | handling => rfl
  | select | stopped => cases h

theorem PoolWorker.untold_select {told : Bool} {pop pop' : PopPc}
    (h : (select told pop : PoolWorker T H).untold = true) :
    (select told pop' : PoolWorker T H).untold = true := by
  cases told with
  | false => rfl
  | true => cases h

namespace WorkerPool

def keepsDrainer (s : WorkerPool T H) : PoolAction T H → Bool
  | .shut => s.shutdown != .telling || s.queue.items.isEmpty || s.workers.any PoolWorker.busy
  | .panic i =>
    (s.shutdown != .notCalled && s.queue.items.isEmpty) || (s.workers.eraseIdx i).any PoolWorker.untold
  | _ => true

def Drained (s : WorkerPool T H) : Prop :=
  s.shutdown ≠ .notCalled ∧ s.accepted <+: s.handled

structure Draining (s : WorkerPool T H) : Prop where
  fifo : s.accepted <+: s.handled ++ s.queue.items
  accepting : s.shutdown = .notCalled → s.accepted = s.handled ++ s.queue.items
  closed : s.queue.closed = true → s.shutdown ≠ .notCalled
  drainer : s.Drained ∨ ∃ w ∈ s.workers, w.untold = true
  stopped : s.shutdown = .returned → ∀ w ∈ s.workers, w.isStopped = true

theorem draining_new {cap : UInt64} (hcap : 1 ≤ cap) (queueCapacity : UInt64) :
    Draining (new cap queueCapacity : WorkerPool T H) where
  fifo := List.nil_prefix
  accepting := fun _ => rfl
  closed := by simp [new, Queue.new]
  drainer := by
    have hpos : 1 ≤ cap.toNat := UInt64.le_iff_toNat_le.mp hcap
    exact .inr ⟨.loop, by simp [new]; omega, rfl⟩
  stopped := by simp [new]

variable {s s' : WorkerPool T H} {i : ℕ}

theorem Draining.prefix_of_returned (h : Draining s) (hs : s.shutdown = .returned) :
    s.accepted <+: s.handled := by
  rcases h.drainer with hdrained | ⟨w, hw, huntold⟩
  · exact hdrained.2
  · have hstopped := h.stopped hs w hw
    cases w <;> simp_all [PoolWorker.untold, PoolWorker.isStopped]

theorem Draining.drained (h : Draining s) (hcalled : s.shutdown ≠ .notCalled)
    (hempty : s.queue.items = []) : s.Drained := by
  have hfifo := h.fifo
  rw [hempty, List.append_nil] at hfifo
  exact ⟨hcalled, hfifo⟩

theorem exists_untold_set {workers : List (PoolWorker T H)} {w w' : PoolWorker T H}
    (hi : workers[i]? = some w) (hw : w.untold = true → w'.untold = true)
    (h : ∃ w ∈ workers, w.untold = true) : ∃ w ∈ workers.set i w', w.untold = true := by
  obtain ⟨v, hv, huntold⟩ := h
  obtain ⟨j, hj⟩ := List.mem_iff_getElem?.mp hv
  by_cases hij : i = j
  · subst hij
    obtain rfl : w = v := Option.some.inj (hi.symm.trans hj)
    obtain ⟨hlt, -⟩ := List.getElem?_eq_some_iff.mp hi
    exact ⟨w', List.mem_set hlt w', hw huntold⟩
  · refine ⟨v, List.mem_iff_getElem?.mpr ⟨j, ?_⟩, huntold⟩
    rw [List.getElem?_set_ne hij]
    exact hj

theorem Draining.quiet (h : Draining s) (hitems : s'.queue.items = s.queue.items)
    (hclosed : s'.queue.closed = s.queue.closed) (hworkers : s'.workers = s.workers)
    (hshutdown : s'.shutdown = s.shutdown) (haccepted : s'.accepted = s.accepted)
    (hhandled : s'.handled = s.handled) : Draining s' where
  fifo := by rw [haccepted, hhandled, hitems]; exact h.fifo
  accepting := by rw [hshutdown, haccepted, hhandled, hitems]; exact h.accepting
  closed := by rw [hclosed, hshutdown]; exact h.closed
  drainer := by
    rw [Drained, hworkers, hshutdown, haccepted, hhandled]
    exact h.drainer
  stopped := by rw [hshutdown, hworkers]; exact h.stopped

theorem Draining.setWorker {w w' : PoolWorker T H} (h : Draining s) (hi : s.workers[i]? = some w)
    (hnot : w.isStopped = false)
    (hw : s.Drained ∨ ∃ v ∈ s.workers.set i w', v.untold = true) : Draining (s.setWorker i w') where
  fifo := h.fifo
  accepting := h.accepting
  closed := h.closed
  drainer := hw
  stopped := by
    intro hreturned
    have hstopped := h.stopped hreturned w (List.mem_of_getElem? hi)
    exact absurd (hnot.symm.trans hstopped) (by decide)

theorem Draining.keep {w w' : PoolWorker T H} (h : Draining s) (hi : s.workers[i]? = some w)
    (hnot : w.isStopped = false) (hw : w.untold = true → w'.untold = true) :
    Draining (s.setWorker i w') :=
  h.setWorker hi hnot (h.drainer.imp_right (exists_untold_set hi hw))

theorem Draining.accept (h : Draining s) (job : T) : Draining (s.accept job) where
  fifo := by
    simp only [WorkerPool.accept, Queue.pushBack]
    split
    · rename_i hnot
      rw [h.accepting hnot, List.append_assoc]
    · rw [← List.append_assoc]
      exact h.fifo.trans (List.prefix_append _ _)
  accepting := by
    intro hnot
    simp only [WorkerPool.accept, Queue.pushBack] at *
    rw [if_pos hnot, h.accepting hnot, List.append_assoc]
  closed := h.closed
  drainer := by
    refine h.drainer.imp_left fun hdrained => ⟨hdrained.1, ?_⟩
    simp only [WorkerPool.accept, if_neg hdrained.1]
    exact hdrained.2
  stopped := h.stopped

theorem Draining.pushStep {p : Push T} (h : Draining s) (hs : s.pushStep i p = some s') : Draining s' := by
  simp only [WorkerPool.pushStep] at hs
  split at hs
  · split at hs <;> cases hs <;> exact h.quiet rfl rfl rfl rfl rfl rfl
  · cases hs
    exact h.quiet rfl rfl rfl rfl rfl rfl
  · split at hs <;> cases hs
    · exact (h.accept p.item).quiet rfl rfl rfl rfl rfl rfl
    · exact h.quiet rfl rfl rfl rfl rfl rfl
  · cases hs
    exact h.quiet rfl rfl rfl rfl rfl rfl
  · cases hs
  · cases hs

theorem Draining.cancelStep {p : Push T} (h : Draining s) (hs : s.cancelStep i p = some s') :
    Draining s' := by
  simp only [WorkerPool.cancelStep] at hs
  split at hs <;> cases hs
  exact h.quiet rfl rfl rfl rfl rfl rfl

theorem Draining.take {job : T} {items : List T} (h : Draining s) (hitems : s.queue.items = job :: items)
    (notify : Notify) : Draining { s with
      queue := { s.queue with items := items, spaceNotify := notify }
      handled := s.handled ++ [job] } where
  fifo := by
    have hfifo := h.fifo
    rw [hitems] at hfifo
    simpa using hfifo
  accepting := by
    intro hnot
    have haccepting := h.accepting hnot
    rw [hitems] at haccepting
    simpa using haccepting
  closed := h.closed
  drainer := h.drainer.imp_left fun hdrained => ⟨hdrained.1, hdrained.2.trans (List.prefix_append _ _)⟩
  stopped := h.stopped

theorem Draining.workStep [Inhabited H] {w : PoolWorker T H} (h : Draining s)
    (hi : s.workers[i]? = some w) (hs : s.workStep i w = some s') : Draining s' := by
  cases w with
  | loop =>
    cases hs
    exact h.keep hi rfl fun _ => rfl
  | handling | stopped => cases hs
  | select told pop =>
    cases pop with
    | unpolled | arm =>
      cases hs
      exact h.keep hi rfl PoolWorker.untold_select
    | take notified =>
      simp only [WorkerPool.workStep] at hs
      split at hs
      · rename_i job items hitems
        cases hs
        exact (h.take hitems _).keep hi rfl fun _ => rfl
      · rename_i hempty
        split at hs <;> cases hs
        · rename_i hclosed
          exact h.setWorker hi rfl (.inl (h.drained (h.closed hclosed) hempty))
        · exact h.keep hi rfl PoolWorker.untold_select
    | await notified =>
      cases hs
      have hquiet : Draining { s with queue := { s.queue with notify := (s.queue.notify.poll i notified).1 } } :=
        h.quiet rfl rfl rfl rfl rfl rfl
      exact hquiet.keep hi rfl PoolWorker.untold_select

theorem Draining.quitStep {w : PoolWorker T H} (h : Draining s) (hi : s.workers[i]? = some w)
    (hs : s.quitStep i w = some s') : Draining s' := by
  simp only [WorkerPool.quitStep] at hs
  split at hs
  · cases hs
    exact h.keep hi rfl id
  · cases hs
    have hquiet : Draining { s with queue := { s.queue with notify := s.queue.notify.drop i .registered } } :=
      h.quiet rfl rfl rfl rfl rfl rfl
    exact hquiet.keep hi rfl id
  · cases hs

theorem Draining.handlerStep {w : PoolWorker T H} {after : T → PoolWorker T H} (h : Draining s)
    (hi : s.workers[i]? = some w) (hafter : ∀ job, (after job).untold = true)
    (hs : s.handlerStep i after w = some s') : Draining s' := by
  simp only [WorkerPool.handlerStep] at hs
  split at hs <;> cases hs
  exact h.keep hi rfl fun _ => hafter _

theorem Draining.panicStep {w : PoolWorker T H} (h : Draining s) (hi : s.workers[i]? = some w)
    (hkeep : s.keepsDrainer (.panic i) = true) (hs : s.handlerStep i (fun _ => .stopped) w = some s') :
    Draining s' := by
  simp only [WorkerPool.handlerStep] at hs
  split at hs <;> cases hs
  refine h.setWorker hi rfl ?_
  simp only [keepsDrainer, Bool.or_eq_true, Bool.and_eq_true, bne_iff_ne, List.isEmpty_iff,
    List.any_eq_true] at hkeep
  rcases hkeep with ⟨hcalled, hempty⟩ | ⟨v, hv, huntold⟩
  · exact .inl (h.drained hcalled hempty)
  · right
    obtain ⟨j, hji, hj⟩ := List.mem_eraseIdx_iff_getElem?.mp hv
    refine ⟨v, List.mem_iff_getElem?.mpr ⟨j, ?_⟩, huntold⟩
    rw [List.getElem?_set_ne (Ne.symm hji)]
    exact hj

theorem Draining.shutStep (h : Draining s) (hkeep : s.keepsDrainer .shut = true)
    (hs : s.shutStep = some s') : Draining s' := by
  have hadvance {pc : ShutdownPc} {queue : Queue T} (hcalled : s.shutdown ≠ .notCalled)
      (hpc : pc ≠ .notCalled ∧ pc ≠ .returned) (hitems : queue.items = s.queue.items) :
      Draining { s with queue := queue, shutdown := pc } := by
    refine ⟨?_, fun hnot => absurd hnot hpc.1, fun _ => hpc.1, ?_, fun hret => absurd hret hpc.2⟩
    · rw [hitems]
      exact h.fifo
    · exact h.drainer.imp_left fun hdrained => ⟨hpc.1, hdrained.2⟩
  simp only [WorkerPool.shutStep] at hs
  cases hpc : s.shutdown with
  | notCalled | returned => simp [hpc] at hs
  | closing | wakingPops | wakingPushes =>
    simp only [hpc, Option.some.injEq] at hs
    subst hs
    exact hadvance (by simp [hpc]) (by decide) rfl
  | telling =>
    simp only [hpc, Option.some.injEq] at hs
    subst hs
    refine ⟨h.fifo, by simp, by simp, ?_, by simp⟩
    simp only [keepsDrainer, hpc, bne_self_eq_false, Bool.false_or, Bool.or_eq_true, List.isEmpty_iff,
      List.any_eq_true] at hkeep
    rcases hkeep with hempty | ⟨w, hw, hbusy⟩
    · exact .inl ⟨by simp, (h.drained (by simp [hpc]) hempty).2⟩
    · exact .inr ⟨w.tell, List.mem_map_of_mem hw, PoolWorker.untold_tell hbusy⟩
  | joining =>
    simp only [hpc] at hs
    split at hs <;> cases hs
    rename_i hall
    refine ⟨h.fifo, by simp, by simp, ?_, fun _ => List.all_eq_true.mp hall⟩
    exact h.drainer.imp_left fun hdrained => ⟨by simp, hdrained.2⟩

theorem Draining.step [Inhabited H] {a : PoolAction T H} (h : Draining s)
    (hkeep : s.keepsDrainer a = true) (hs : s.step a = some s') : Draining s' := by
  cases a with
  | submit job | trySubmit job =>
    cases hs
    exact h.quiet rfl rfl rfl rfl rfl rfl
  | push i =>
    obtain ⟨p, -, hs⟩ := Option.bind_eq_some_iff.mp hs
    exact h.pushStep hs
  | cancel i =>
    obtain ⟨p, -, hs⟩ := Option.bind_eq_some_iff.mp hs
    exact h.cancelStep hs
  | work i =>
    obtain ⟨w, hi, hs⟩ := Option.bind_eq_some_iff.mp hs
    exact h.workStep hi hs
  | quit i =>
    obtain ⟨w, hi, hs⟩ := Option.bind_eq_some_iff.mp hs
    exact h.quitStep hi hs
  | handle i phase =>
    obtain ⟨w, hi, hs⟩ := Option.bind_eq_some_iff.mp hs
    exact h.handlerStep hi (fun _ => rfl) hs
  | finish i =>
    obtain ⟨w, hi, hs⟩ := Option.bind_eq_some_iff.mp hs
    exact h.handlerStep hi (fun _ => rfl) hs
  | panic i =>
    obtain ⟨w, hi, hs⟩ := Option.bind_eq_some_iff.mp hs
    exact h.panicStep hi hkeep hs
  | callShutdown =>
    simp only [WorkerPool.step] at hs
    split at hs <;> cases hs
    refine ⟨h.fifo, by simp, by simp, ?_, by simp⟩
    exact h.drainer.imp_left fun hdrained => ⟨by simp, hdrained.2⟩
  | shut => exact h.shutStep hkeep hs

end WorkerPool

def CreditGatedPool.keepsDrainer (s : CreditGatedPool J) (a : GatedAction J) : Bool :=
  (s.poolAction a).all s.pool.keepsDrainer

theorem accepted_jobs_handled [Inhabited H] :
    (∀ (cap queueCapacity : UInt64) (as : List (PoolAction T H)), 1 ≤ cap →
      Respects WorkerPool.next (fun s a => s.keepsDrainer a = true) (.new cap queueCapacity) as →
      Along WorkerPool.next (fun s => s.shutdown = .returned → s.accepted <+: s.handled)
        (.new cap queueCapacity) as) ∧
    ∀ (creditLimit queueCapacity : UInt64) (as : List (GatedAction J)),
      Respects CreditGatedPool.next (fun s a => s.keepsDrainer a = true) (.new creditLimit queueCapacity) as →
      Along CreditGatedPool.next (fun s => s.pool.shutdown = .returned → s.pool.accepted <+: s.pool.handled)
        (.new creditLimit queueCapacity) as := by
  refine ⟨?_, ?_⟩
  · intro cap queueCapacity as hcap h
    have hinv : Along WorkerPool.next WorkerPool.Draining (.new cap queueCapacity) as :=
      along_of_partial (fun _ _ _ hs ha hstep => hs.step ha hstep)
        (WorkerPool.draining_new hcap queueCapacity) h
    exact hinv.mono fun _ hs => hs.prefix_of_returned
  · intro creditLimit queueCapacity as h
    have hinv : Along CreditGatedPool.next (fun s => s.pool.Draining) (.new creditLimit queueCapacity) as := by
      refine along_of_partial ?_ (WorkerPool.draining_new (by decide) queueCapacity) h
      intro s a s' hs ha hstep
      rcases CreditGatedPool.step_pool hstep with heq | ⟨b, hb, hpool⟩
      · rw [heq]
        exact hs
      · rw [CreditGatedPool.keepsDrainer, hb] at ha
        exact hs.step ha hpool
    exact hinv.mono fun _ hs => hs.prefix_of_returned

def park (i : ℕ) : List (PoolAction String Unit) :=
  [.work i, .work i, .work i, .work i]

def close : List (PoolAction String Unit) :=
  [.callShutdown, .shut, .shut, .shut, .shut]

def gatedPark (i : ℕ) : List (GatedAction String) :=
  [.work i, .work i, .work i, .work i]

def gatedSubmit : List (GatedAction String) :=
  [.submit "job", .call 0, .call 0, .call 0, .call 0, .call 0, .call 0, .call 0]

def gatedClose : List (GatedAction String) :=
  [.drain, .shut, .shut, .shut, .shut]

-- Every worker waits when the job comes in. `push` wakes one of them, and before it is polled
-- `shutdown` makes the other branch of its `select!` ready as well.
theorem parked_workers_quit :
    ¬Along WorkerPool.next (fun s => s.shutdown = .returned → s.accepted <+: s.handled) (.new 1 1)
      (park 0 ++ [.submit "job", .push 0, .push 0, .push 0] ++ close ++ [.quit 0, .shut]) ∧
    ¬Along CreditGatedPool.next (fun s => s.pool.shutdown = .returned → s.pool.accepted <+: s.pool.handled)
      (.new 4 8)
      (gatedPark 0 ++ gatedPark 1 ++ gatedSubmit ++ gatedClose ++ [.quit 0, .quit 1, .shut]) := by
  decide +kernel

def lateStart : List (PoolAction String Unit) :=
  [.submit "job", .push 0, .push 0, .push 0] ++ close ++
    [.work 0, .work 0, .work 0, .finish 0, .work 0, .work 0, .work 0, .shut]

def gatedLateStart : List (GatedAction String) :=
  gatedSubmit ++ gatedClose ++ [.work 0, .work 0, .work 0, .handled 0, .recv 0, .work 0, .work 0, .work 0,
    .work 1, .work 1, .work 1, .shut]

theorem busy_workers_drain :
    ((lateStart.foldl WorkerPool.next (.new 1 1)).shutdown = .returned ∧
      Along WorkerPool.next (fun s => s.shutdown = .returned → s.accepted <+: s.handled) (.new 1 1) lateStart) ∧
    ((gatedLateStart.foldl CreditGatedPool.next (.new 4 8)).pool.shutdown = .returned ∧
      Along CreditGatedPool.next (fun s => s.pool.shutdown = .returned → s.pool.accepted <+: s.pool.handled)
        (.new 4 8) gatedLateStart) :=
  ⟨⟨by decide +kernel, (accepted_jobs_handled (J := String)).1 1 1 _ (by decide) (by decide +kernel)⟩,
    ⟨by decide +kernel, (accepted_jobs_handled (T := String) (H := Unit)).2 4 8 _ (by decide +kernel)⟩⟩

end Fluent.Concurrency
