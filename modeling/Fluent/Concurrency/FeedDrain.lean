import Mathlib.Data.List.Perm.Basic
import Fluent.Concurrency.FeedWorker
import Fluent.Library.Runs

open Fluent.Library

namespace Fluent.Concurrency

variable {Item : Type*}

def CallPc.isOk : CallPc → Bool
  | .returned (.ok _) => true
  | _ => false

def WorkerPc.isLeaving : WorkerPc Item → Bool
  | .leaving => true
  | _ => false

def WorkerPc.closing : WorkerPc Item → Bool
  | .leaving | .exited => true
  | _ => false

def WorkerPc.betweenBatches : WorkerPc Item → Bool
  | .unstarted | .top | .sweep _ | .first | .fill _ | .leaving | .exited => true
  | .spawn _ | .join _ | .recv _ _ => false

namespace CreditedFeedWorker

def acknowledged (s : CreditedFeedWorker Item) : List Item :=
  (s.calls.filter fun c => c.pc.isOk).map Call.item

def handledGated (s : CreditedFeedWorker Item) : List Item :=
  (s.handled.filter Entry.gated).map Entry.item

def forwardsLate (s : CreditedFeedWorker Item) : Action Item → Bool
  | .call i =>
    s.worker.isLeaving && s.calls[i]?.any fun c =>
      match c.pc with
      | .sending .op => s.hasRoom
      | _ => false
  | _ => false

end CreditedFeedWorker

section Copies

variable [DecidableEq Item] (item : Item)

def Entry.copies (e : Entry Item) : ℕ :=
  if e.gated && e.item == item then 1 else 0

def Call.copies (c : Call Item) : ℕ :=
  if c.pc.isOk && c.item == item then 1 else 0

def Task.copies (t : Task Item) : ℕ :=
  match t.pc with
  | .acquiring => t.entry.copies item
  | .running | .finished => 0

variable {item}

theorem total_call_copies (calls : List (Call Item)) : total (Call.copies item) calls =
    calls.countP fun c => c.pc.isOk && c.item == item :=
  total_indicator _

theorem total_entry_copies (entries : List (Entry Item)) : total (Entry.copies item) entries =
    entries.countP fun e => e.gated && e.item == item :=
  total_indicator _

end Copies

namespace CreditedFeedWorker

variable [DecidableEq Item]

def queued (item : Item) (s : CreditedFeedWorker Item) : ℕ :=
  total (Entry.copies item) s.feed + total (Entry.copies item) s.worker.batch +
    total (Task.copies item) s.tasks

structure Conserved (s : CreditedFeedWorker Item) : Prop where
  balance : ∀ item, total (Call.copies item) s.calls =
    s.queued item + total (Entry.copies item) s.handled
  idle : s.worker.betweenBatches → s.tasks = []
  emptied : s.worker.closing → ∀ item, total (Entry.copies item) s.feed = 0

variable {config : FeedConfig} {s s' : CreditedFeedWorker Item}

theorem conserved_new (config : FeedConfig) : Conserved (new config : CreditedFeedWorker Item) where
  balance := by simp [new, queued, WorkerPc.batch]
  idle := by simp [new]
  emptied := by simp [new]

theorem Conserved.copies_eq (h : Conserved s) (hs : s.receiverDropped = true) (item : Item) :
    total (Call.copies item) s.calls = total (Entry.copies item) s.handled := by
  have hbalance := h.balance item
  simp only [receiverDropped] at hs
  split at hs
  · rename_i hw
    have hfeed := h.emptied (by simp [hw, WorkerPc.closing]) item
    have htasks := h.idle (by simp [hw, WorkerPc.betweenBatches])
    simp only [queued, hw, WorkerPc.batch, htasks, total_nil] at hbalance
    omega
  · cases hs

theorem Conserved.perm (h : Conserved s) (hs : s.receiverDropped = true) :
    s.acknowledged.Perm s.handledGated := by
  rw [List.perm_iff_count]
  intro item
  have hitem := h.copies_eq hs item
  rw [total_call_copies, total_entry_copies] at hitem
  simp only [acknowledged, handledGated, List.count, List.countP_map, List.countP_filter]
  simpa only [Function.comp_apply, Bool.and_comm] using hitem

theorem total_copies_setCall {i : ℕ} {c : Call Item} {pc : CallPc} (item : Item)
    (hi : s.calls[i]? = some c) (hpc : pc.isOk = c.pc.isOk) :
    total (Call.copies item) (s.setCall i c pc).calls = total (Call.copies item) s.calls := by
  have hset := total_set (Call.copies item) { c with pc := pc } hi
  simp only [Call.copies, hpc] at hset
  simp only [setCall]
  omega

theorem Conserved.quiet (h : Conserved s)
    (hcalls : ∀ item, total (Call.copies item) s'.calls = total (Call.copies item) s.calls)
    (hfeed : s'.feed = s.feed) (hworker : s'.worker = s.worker) (htasks : s'.tasks = s.tasks)
    (hhandled : s'.handled = s.handled) : Conserved s' where
  balance := by
    intro item
    simp only [hcalls, queued, hfeed, hworker, htasks, hhandled]
    exact h.balance item
  idle := by
    rw [hworker, htasks]
    exact h.idle
  emptied := by
    rw [hworker, hfeed]
    exact h.emptied

theorem Conserved.advance (h : Conserved s) {flow : CreditFlow} {feed : List (Entry Item)}
    {worker : WorkerPc Item} {tasks : List (Task Item)} (hidle : worker.betweenBatches → tasks = [])
    (hemptied : worker.closing → ∀ item, total (Entry.copies item) feed = 0)
    (hqueued : ∀ item, total (Entry.copies item) feed + total (Entry.copies item) worker.batch +
      total (Task.copies item) tasks = s.queued item) :
    Conserved { s with flow := flow, feed := feed, worker := worker, tasks := tasks } where
  balance := by
    intro item
    have hbalance := h.balance item
    have hsame := hqueued item
    simp only [queued] at *
    omega
  idle := hidle
  emptied := hemptied

theorem Conserved.push_ungated (h : Conserved s) (item : Item) : Conserved (s.push ⟨item, false⟩) where
  balance := by
    intro other
    have hbalance := h.balance other
    simp only [push, queued, total_append, total_cons, total_nil, Entry.copies] at *
    simpa using hbalance
  idle := h.idle
  emptied := by
    intro hclosing other
    simp [push, Entry.copies, h.emptied hclosing other]

theorem Conserved.enqueueWithCredit (h : Conserved s) (item : Item) :
    Conserved (s.enqueueWithCredit item) := by
  simp only [CreditedFeedWorker.enqueueWithCredit]
  split <;> refine h.quiet ?_ rfl rfl rfl rfl <;> simp [Call.copies, CallPc.isOk]

omit [DecidableEq Item] in
theorem closing_eq_false (hleaving : s.worker.isLeaving = false) (hdropped : s.receiverDropped = false) :
    s.worker.closing = false := by
  cases hw : s.worker <;> simp_all [WorkerPc.isLeaving, WorkerPc.closing, receiverDropped]

theorem Conserved.forward (h : Conserved s) {i : ℕ} {c : Call Item} (hi : s.calls[i]? = some c)
    (hpc : c.pc = .sending .op) (hopen : s.worker.closing = false) :
    Conserved ((s.push ⟨c.item, true⟩).setCall i c (.returned (.ok ()))) where
  balance := by
    intro item
    have hset := total_set (Call.copies item) { c with pc := .returned (.ok ()) } hi
    have hbalance := h.balance item
    simp only [Call.copies, hpc, CallPc.isOk, Bool.false_and, Bool.false_eq_true, if_false,
      Bool.true_and] at hset
    simp only [push, setCall, queued, total_append, total_cons, total_nil, Entry.copies,
      Bool.true_and] at *
    omega
  idle := h.idle
  emptied := by
    intro hclosing
    exact absurd (hopen.symm.trans hclosing) (by decide)

theorem Conserved.callStep (h : Conserved s) {i : ℕ} {c : Call Item} (hi : s.calls[i]? = some c)
    (hlate : s.forwardsLate (.call i) = false) (hs : s.callStep i c = some s') : Conserved s' := by
  simp only [CreditedFeedWorker.callStep] at hs
  split at hs
  case h_1 hpc =>
    split at hs
    · cases hs
      exact h.quiet (fun item => total_copies_setCall item hi (by simp [hpc, CallPc.isOk])) rfl rfl rfl rfl
    · rename_i hdropped
      split at hs
      · rename_i hroom
        cases hs
        have hleaving : s.worker.isLeaving = false := by
          simpa [forwardsLate, hi, hpc, hroom] using hlate
        exact h.forward hi hpc (closing_eq_false hleaving (by simpa using hdropped))
      · cases hs
  case h_2 pc _ hpc =>
    obtain ⟨⟨flow, pc'⟩, -, rfl⟩ := Option.map_eq_some_iff.mp hs
    exact h.quiet (fun item => total_copies_setCall (s := { s with flow := flow }) item hi
      (by simp [hpc, CallPc.isOk])) rfl rfl rfl rfl
  case h_3 => cases hs

theorem Conserved.cancelStep (h : Conserved s) {i : ℕ} {c : Call Item} (hi : s.calls[i]? = some c)
    (hs : s.cancelStep i c = some s') : Conserved s' := by
  simp only [CreditedFeedWorker.cancelStep] at hs
  split at hs <;> cases hs
  all_goals
    rename_i hpc
    exact h.quiet (fun item => total_copies_setCall (s := { s with flow := _ }) item hi
      (by simp [hpc, CallPc.isOk])) rfl rfl rfl rfl

theorem Conserved.move (h : Conserved s) {worker : WorkerPc Item} (hidle : worker.betweenBatches → s.tasks = [])
    (hemptied : worker.closing → s.feed = []) (hbatch : worker.batch = s.worker.batch) :
    Conserved { s with worker := worker } := by
  refine h.advance hidle (fun hclosing item => ?_) fun item => ?_
  · rw [hemptied hclosing, total_nil]
  · rw [hbatch, queued]

theorem Conserved.take (h : Conserved s) {entry : Entry Item} {feed : List (Entry Item)} {worker : WorkerPc Item}
    (hfeed : s.feed = entry :: feed) (hidle : s.worker.betweenBatches) (hopen : worker.closing = false)
    (hbatch : worker.batch = s.worker.batch ++ [entry]) : Conserved { s with feed := feed, worker := worker } := by
  refine h.advance (fun _ => h.idle hidle) (fun hclosing => ?_) fun item => ?_
  · rw [hopen] at hclosing
    cases hclosing
  · simp only [queued, hbatch, hfeed, total_append, total_cons, total_nil]
    omega

theorem Conserved.workStep_top (h : Conserved s) (hw : s.worker = .top)
    (hs : s.workStep = some s') : Conserved s' := by
  have htasks := h.idle (by simp [hw, WorkerPc.betweenBatches])
  simp only [CreditedFeedWorker.workStep, hw, Option.some.injEq] at hs
  subst hs
  refine h.move (fun _ => htasks) ?_ ?_
  · split <;> simp [WorkerPc.closing]
  · split <;> simp [hw, WorkerPc.batch]

theorem Conserved.workStep_sweep {batch : List (Entry Item)} (h : Conserved s) (hw : s.worker = .sweep batch)
    (hs : s.workStep = some s') : Conserved s' := by
  have hidle : s.worker.betweenBatches := by simp [hw, WorkerPc.betweenBatches]
  simp only [CreditedFeedWorker.workStep, hw] at hs
  split at hs <;> cases hs
  · rename_i entry feed hfeed
    exact h.take hfeed hidle rfl (by rw [hw]; rfl)
  · rename_i hfeed
    refine h.move (fun _ => h.idle hidle) (fun _ => hfeed) ?_
    cases batch <;> simp [hw, WorkerPc.batch]

theorem Conserved.workStep_first (h : Conserved s) (hw : s.worker = .first)
    (hs : s.workStep = some s') : Conserved s' := by
  have hidle : s.worker.betweenBatches := by simp [hw, WorkerPc.betweenBatches]
  simp only [CreditedFeedWorker.workStep, hw] at hs
  split at hs
  · rename_i entry feed hfeed
    cases hs
    exact h.take hfeed hidle rfl (by rw [hw]; rfl)
  · rename_i hfeed
    split at hs <;> cases hs
    exact h.move (fun _ => h.idle hidle) (fun _ => hfeed) (by rw [hw]; rfl)

theorem Conserved.workStep_fill {batch : List (Entry Item)} (h : Conserved s) (hw : s.worker = .fill batch)
    (hs : s.workStep = some s') : Conserved s' := by
  have hidle : s.worker.betweenBatches := by simp [hw, WorkerPc.betweenBatches]
  have hspawn : Conserved { s with worker := .spawn batch } :=
    h.move (fun _ => h.idle hidle) (by simp [WorkerPc.closing]) (by rw [hw]; rfl)
  simp only [CreditedFeedWorker.workStep, hw] at hs
  split at hs
  · split at hs
    · rename_i entry feed hfeed
      cases hs
      exact h.take hfeed hidle rfl (by rw [hw]; rfl)
    · split at hs <;> cases hs
      exact hspawn
  · cases hs
    exact hspawn

theorem Conserved.workStep_spawn {rest : List (Entry Item)} (h : Conserved s) (hw : s.worker = .spawn rest)
    (hs : s.workStep = some s') : Conserved s' := by
  cases rest with
  | nil =>
    simp only [CreditedFeedWorker.workStep, hw, Option.some.injEq] at hs
    subst hs
    exact h.move (by simp [WorkerPc.betweenBatches]) (by simp [WorkerPc.closing]) (by rw [hw]; rfl)
  | cons entry rest =>
    simp only [CreditedFeedWorker.workStep, hw, Option.some.injEq] at hs
    subst hs
    apply h.advance
    · simp [WorkerPc.betweenBatches]
    · simp [WorkerPc.closing]
    · intro item
      simp only [queued, hw, WorkerPc.batch, total_append, total_cons, total_nil, Task.copies]
      omega

theorem Conserved.workStep_join {loop : JoinLoop Item} (h : Conserved s) (hw : s.worker = .join loop)
    (hs : s.workStep = some s') : Conserved s' := by
  cases loop with
  | bounding rest =>
    simp only [CreditedFeedWorker.workStep, hw] at hs
    split at hs
    · split at hs <;> cases hs
      exact h.move (by simp [WorkerPc.betweenBatches]) (by simp [WorkerPc.closing]) (by rw [hw]; rfl)
    · cases hs
      exact h.move (by simp [WorkerPc.betweenBatches]) (by simp [WorkerPc.closing]) (by rw [hw]; rfl)
  | finishing =>
    simp only [CreditedFeedWorker.workStep, hw] at hs
    split at hs <;> cases hs
    rename_i hempty
    exact h.move (fun _ => List.isEmpty_iff.mp hempty) (by simp [WorkerPc.closing]) (by rw [hw]; rfl)

theorem Conserved.workStep_recv {loop : JoinLoop Item} {pc : RecvPc} (h : Conserved s) (hw : s.worker = .recv loop pc)
    (hs : s.workStep = some s') : Conserved s' := by
  simp only [CreditedFeedWorker.workStep, hw, Option.some.injEq] at hs
  subst hs
  apply h.advance <;> cases (s.flow.recvStep pc).2 <;> cases loop <;>
    simp [queued, hw, WorkerPc.batch, WorkerPc.betweenBatches, WorkerPc.closing]

theorem Conserved.workStep_leaving (h : Conserved s) (hw : s.worker = .leaving)
    (hs : s.workStep = some s') : Conserved s' := by
  have htasks := h.idle (by simp [hw, WorkerPc.betweenBatches])
  have hfeed := h.emptied (by simp [hw, WorkerPc.closing])
  simp only [CreditedFeedWorker.workStep, hw, Option.some.injEq] at hs
  subst hs
  apply h.advance
  · simp [htasks]
  · simp
  · intro item
    simp [queued, hw, WorkerPc.batch, hfeed item]

theorem Conserved.workStep (h : Conserved s) (hs : s.workStep = some s') : Conserved s' := by
  cases hw : s.worker with
  | unstarted => simp [CreditedFeedWorker.workStep, hw] at hs
  | top => exact h.workStep_top hw hs
  | sweep batch => exact h.workStep_sweep hw hs
  | first => exact h.workStep_first hw hs
  | fill batch => exact h.workStep_fill hw hs
  | spawn rest => exact h.workStep_spawn hw hs
  | join loop => exact h.workStep_join hw hs
  | recv loop pc => exact h.workStep_recv hw hs
  | leaving => exact h.workStep_leaving hw hs
  | exited => simp [CreditedFeedWorker.workStep, hw] at hs

theorem Conserved.timeoutStep (h : Conserved s) (hs : s.timeoutStep = some s') : Conserved s' := by
  simp only [CreditedFeedWorker.timeoutStep] at hs
  split at hs
  · rename_i hw
    split at hs <;> cases hs
    apply h.advance <;> simp [queued, hw, WorkerPc.batch, WorkerPc.betweenBatches, WorkerPc.closing]
  · cases hs

theorem Conserved.joinStep (h : Conserved s) {i : ℕ} (hs : s.joinStep i = some s') : Conserved s' := by
  simp only [CreditedFeedWorker.joinStep] at hs
  split at hs
  · rename_i loop entry hloop hi
    cases hs
    apply h.advance
    · simp [WorkerPc.betweenBatches]
    · simp [WorkerPc.closing]
    · intro item
      have herase := total_eraseIdx (Task.copies item) hi
      simp only [Task.copies] at herase
      simp only [queued, worker_of_joining hloop]
      cases loop <;> simp only [WorkerPc.batch] <;> omega
  · cases hs

theorem Conserved.processing (h : Conserved s) {i : ℕ} {t : Task Item} (hi : s.tasks[i]? = some t) :
    s.worker.betweenBatches = false := by
  cases hb : s.worker.betweenBatches with
  | false => rfl
  | true => simp [h.idle hb] at hi

theorem Conserved.permitStep (h : Conserved s) {i : ℕ} (hs : s.permitStep i = some s') :
    Conserved s' := by
  simp only [CreditedFeedWorker.permitStep] at hs
  split at hs
  · rename_i entry hi
    have hprocessing := h.processing hi
    split at hs <;> cases hs
    refine ⟨?_, by simp [hprocessing], h.emptied⟩
    intro item
    have hbalance := h.balance item
    have hset := total_set (Task.copies item) ⟨entry, .running⟩ hi
    simp only [Task.copies] at hset
    simp only [queued, total_append, total_cons, total_nil] at *
    omega
  · cases hs

theorem Conserved.completeStep (h : Conserved s) {i : ℕ} (hs : s.completeStep i = some s') :
    Conserved s' := by
  simp only [CreditedFeedWorker.completeStep] at hs
  split at hs <;> cases hs
  rename_i entry hi
  have hprocessing := h.processing hi
  apply h.advance
  · simp [hprocessing]
  · exact h.emptied
  · intro item
    have hset := total_set (Task.copies item) ⟨entry, .finished⟩ hi
    simp only [Task.copies] at hset
    simp only [queued]
    omega

theorem Conserved.step (h : Conserved s) {a : Action Item} (hlate : s.forwardsLate a = false)
    (hs : s.step a = some s') : Conserved s' := by
  cases a with
  | enqueue item =>
    cases hs
    simp only [enqueue]
    split
    · exact h.push_ungated item
    · exact h
  | enqueueWithCredit item =>
    cases hs
    exact h.enqueueWithCredit item
  | call i =>
    obtain ⟨c, hi, hs⟩ := Option.bind_eq_some_iff.mp hs
    exact h.callStep hi hlate hs
  | cancel i =>
    obtain ⟨c, hi, hs⟩ := Option.bind_eq_some_iff.mp hs
    exact h.cancelStep hi hs
  | sendClone item =>
    simp only [CreditedFeedWorker.step] at hs
    split at hs <;> cases hs
    exact h.push_ungated item
  | start =>
    simp only [CreditedFeedWorker.step] at hs
    split at hs <;> cases hs
    rename_i hw
    have htasks := h.idle (by simp [hw, WorkerPc.betweenBatches])
    apply h.advance <;> simp [htasks, queued, hw, WorkerPc.batch, WorkerPc.closing]
  | work => exact h.workStep hs
  | timeout => exact h.timeoutStep hs
  | permit i => exact h.permitStep hs
  | complete i => exact h.completeStep hs
  | joinNext i => exact h.joinStep hs
  | takeSender =>
    cases hs
    exact h.quiet (fun _ => rfl) rfl rfl rfl rfl
  | sender | dropClone | setDraining =>
    simp only [CreditedFeedWorker.step] at hs
    split at hs <;> cases hs
    exact h.quiet (fun _ => rfl) rfl rfl rfl rfl

omit [DecidableEq Item] in
theorem acknowledged_items_handled (config : FeedConfig) (as : List (Action Item))
    (h : Respects next (fun s a => s.forwardsLate a = false) (new config) as) :
    Along next (fun s => s.receiverDropped = true → s.acknowledged.Perm s.handledGated) (new config) as := by
  classical
  have hinv : Along next Conserved (new config) as :=
    along_of_step (fun _ _ hs ha => next_of_step hs fun _ hstep => hs.step ha hstep)
      (conserved_new config) h
  exact hinv.mono fun _ hs => hs.perm

-- A call has its credit when `drain` runs. The loop finds the feed empty, the call forwards its item
-- and returns `Ok`, and only then the receiver is dropped.
theorem item_forwarded_while_leaving : ¬Along next
    (fun s => s.receiverDropped = true → s.acknowledged.Perm s.handledGated) (new {})
    [.start, .enqueueWithCredit "late", .call 0, .call 0, .takeSender, .setDraining, .work, .work,
      .call 0, .work] := by
  decide +kernel

def drainOne : List (Action String) :=
  [.start, .enqueueWithCredit "early", .call 0, .call 0, .takeSender, .setDraining, .call 0, .work, .work,
    .work, .work, .permit 0, .complete 0, .work, .work, .joinNext 0, .work, .work, .work, .work, .work]

theorem item_forwarded_before_sweep : (drainOne.foldl next (new {})).receiverDropped = true ∧
    Along next (fun s => s.receiverDropped = true → s.acknowledged.Perm s.handledGated) (new {}) drainOne :=
  ⟨by decide +kernel, acknowledged_items_handled {} _ (by decide +kernel)⟩

end CreditedFeedWorker
end Fluent.Concurrency
