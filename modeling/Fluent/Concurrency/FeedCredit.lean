import Fluent.Concurrency.FeedWorker
import Fluent.Library.Runs

open Fluent.Library

namespace Fluent.Concurrency

variable {Item : Type*}

def CallPc.tokens : CallPc → ℕ
  | .sending pc => pc.tokens
  | .returned _ => 0
  | .cancelled => 0

def Call.tokens (c : Call Item) : ℕ :=
  c.pc.tokens

def WorkerPc.tokens (moreAfter : UInt64) : WorkerPc Item → ℕ
  | .recv _ pc => pc.tokens moreAfter
  | _ => 0

namespace CreditedFeedWorker

def held (s : CreditedFeedWorker Item) : ℕ :=
  total Call.tokens s.calls + s.feed.length + s.worker.batch.length + s.tasks.length +
    s.worker.tokens s.flow.spec.moreAfter

def entersUngated (s : CreditedFeedWorker Item) : Action Item → Bool
  | .enqueue _ => s.sender && s.admits
  | .sendClone _ => decide (0 < s.clones) && s.admits
  | _ => false

structure Balanced (config : FeedConfig) (s : CreditedFeedWorker Item) : Prop where
  config_eq : s.config = config
  spec_eq : s.flow.spec = ⟨config.creditLimit, config.creditMoreAfter⟩
  covers : s.flow.Covers s.held
  reset : ∀ loop, s.worker = .recv loop .reset → s.flow.spec.moreAfter ≤ s.flow.counter

variable {config : FeedConfig} {s s' : CreditedFeedWorker Item}

theorem balanced_new (config : FeedConfig) : Balanced config (new config : CreditedFeedWorker Item) where
  config_eq := rfl
  spec_eq := rfl
  covers := CreditFlow.covers_new _
  reset := by simp [new]

theorem gatedInFlight_le_held (s : CreditedFeedWorker Item) : s.gatedInFlight ≤ s.held := by
  have hfeed : s.feed.countP Entry.gated ≤ s.feed.length := List.countP_le_length
  have hbatch : s.worker.batch.countP Entry.gated ≤ s.worker.batch.length := List.countP_le_length
  have htasks : s.tasks.countP Task.gatedUnfinished ≤ s.tasks.length := List.countP_le_length
  simp only [gatedInFlight, held]
  omega

theorem Balanced.gatedInFlight_le (h : Balanced config s) :
    s.gatedInFlight ≤ config.creditLimit.toNat := by
  have hle := h.covers.held_le
  rw [h.spec_eq] at hle
  exact (gatedInFlight_le_held s).trans hle

theorem Balanced.quiet (h : Balanced config s) (hconfig : s'.config = s.config)
    (hflow : s'.flow = s.flow) (hheld : s'.held ≤ s.held)
    (hworker : ∀ loop, s'.worker = .recv loop .reset → s'.worker = s.worker) : Balanced config s' where
  config_eq := hconfig.trans h.config_eq
  spec_eq := hflow ▸ h.spec_eq
  covers := by
    rw [hflow]
    exact h.covers.mono hheld
  reset := by
    intro loop hloop
    rw [hflow]
    exact h.reset loop (hworker loop hloop ▸ hloop)

theorem held_setCall {i : ℕ} {c : Call Item} (pc : CallPc) (hi : s.calls[i]? = some c) :
    (s.setCall i c pc).held + c.pc.tokens = s.held + pc.tokens := by
  have hset := total_set Call.tokens { c with pc := pc } hi
  simp only [held, setCall]
  simp only [Call.tokens] at *
  omega

theorem held_push (entry : Entry Item) : (s.push entry).held = s.held + 1 := by
  simp only [held, push, List.length_append, List.length_singleton]
  omega

theorem Balanced.enqueueWithCredit (h : Balanced config s) (item : Item) :
    Balanced config (s.enqueueWithCredit item) := by
  simp only [CreditedFeedWorker.enqueueWithCredit]
  split <;> refine h.quiet rfl rfl ?_ (fun _ _ => rfl) <;>
    simp [held, Call.tokens, CallPc.tokens, SendPc.tokens]

theorem Balanced.callStep (h : Balanced config s) {i : ℕ} {c : Call Item} (hi : s.calls[i]? = some c)
    (hs : s.callStep i c = some s') : Balanced config s' := by
  simp only [CreditedFeedWorker.callStep] at hs
  split at hs
  case h_1 hpc =>
    have htokens : c.pc.tokens = 1 := by simp only [hpc, CallPc.tokens, SendPc.tokens]
    split at hs
    · cases hs
      have hset := held_setCall (.returned (.error .feedClosed)) hi
      rw [htokens, CallPc.tokens] at hset
      exact h.quiet rfl rfl (by omega) (fun _ _ => rfl)
    · split at hs <;> cases hs
      have hset := held_setCall (s := s.push ⟨c.item, true⟩) (.returned (.ok ())) hi
      have hpush := held_push (s := s) ⟨c.item, true⟩
      rw [htokens, CallPc.tokens] at hset
      exact h.quiet rfl rfl (by omega) (fun _ _ => rfl)
  case h_2 pc _ hpc =>
    obtain ⟨⟨flow, pc'⟩, hsend, rfl⟩ := Option.map_eq_some_iff.mp hs
    obtain ⟨hspec, hcounter⟩ := CreditFlow.sendStep_frame hsend
    have hheld : held { s with flow := flow } = s.held := by simp only [held, hspec]
    have hbefore := held_setCall .cancelled hi
    have hafter := held_setCall (s := { s with flow := flow }) (.sending pc') hi
    obtain ⟨rest, hrest⟩ : ∃ rest, s.held = pc.tokens + rest :=
      ⟨(s.setCall i c .cancelled).held, by simp only [hpc, CallPc.tokens] at hbefore; omega⟩
    have hheld' : (setCall { s with flow := flow } i c (.sending pc')).held = pc'.tokens + rest := by
      simp only [hpc, CallPc.tokens] at hafter
      omega
    refine ⟨h.config_eq, hspec.trans h.spec_eq, ?_, ?_⟩
    · rw [hheld']
      exact CreditFlow.sendStep_covers hsend (hrest ▸ h.covers)
    · intro loop hloop
      have hreset := h.reset loop hloop
      simpa only [setCall, hspec, hcounter] using hreset
  case h_3 => cases hs

theorem Balanced.cancelStep (h : Balanced config s) {i : ℕ} {c : Call Item} (hi : s.calls[i]? = some c)
    (hs : s.cancelStep i c = some s') : Balanced config s' := by
  have hset := held_setCall .cancelled hi
  have hle : (s.setCall i c .cancelled).held ≤ s.held := by
    simp only [CallPc.tokens] at hset
    omega
  have hbase : Balanced config (s.setCall i c .cancelled) := h.quiet rfl rfl hle (fun _ _ => rfl)
  simp only [CreditedFeedWorker.cancelStep] at hs
  split at hs <;> cases hs
  · exact hbase
  · exact hbase
  · exact ⟨hbase.config_eq, hbase.spec_eq, ⟨hbase.covers.within, hbase.covers.unused⟩, hbase.reset⟩

theorem Balanced.advance (h : Balanced config s) {feed : List (Entry Item)} {worker : WorkerPc Item}
    {tasks : List (Task Item)} (hreset : ∀ loop, worker ≠ .recv loop .reset)
    (hle : feed.length + worker.batch.length + tasks.length + worker.tokens s.flow.spec.moreAfter ≤
      s.feed.length + s.worker.batch.length + s.tasks.length + s.worker.tokens s.flow.spec.moreAfter) :
    Balanced config { s with feed := feed, worker := worker, tasks := tasks } := by
  refine h.quiet rfl rfl ?_ (fun loop hloop => absurd hloop (hreset loop))
  simp only [held]
  omega

theorem Balanced.recvStep (h : Balanced config s) {loop : JoinLoop Item} {pc : RecvPc}
    (hw : s.worker = .recv loop pc) :
    Balanced config { s with
      flow := (s.flow.recvStep pc).1
      worker := (s.flow.recvStep pc).2.elim (.join loop) (.recv loop) } := by
  have hspec : (s.flow.recvStep pc).1.spec = s.flow.spec := CreditFlow.recvStep_spec pc
  obtain ⟨rest, hrest⟩ : ∃ rest, rest = total Call.tokens s.calls + s.feed.length +
      s.worker.batch.length + s.tasks.length := ⟨_, rfl⟩
  have hheld : s.held = pc.tokens s.flow.spec.moreAfter + rest := by
    simp only [held, hw, WorkerPc.tokens] at *
    omega
  have hcovers := CreditFlow.recvStep_covers (hheld ▸ h.covers) (by
    rintro rfl
    exact h.reset loop hw)
  refine ⟨h.config_eq, hspec.trans h.spec_eq, ?_, ?_⟩
  · refine hcovers.mono (le_of_eq ?_)
    simp only [held, hspec, hrest, hw]
    cases (s.flow.recvStep pc).2 <;> cases loop <;>
      simp only [Option.elim_none, Option.elim_some, WorkerPc.batch, WorkerPc.tokens] <;> omega
  · intro back hback
    cases hnext : (s.flow.recvStep pc).2 with
    | none => simp [hnext] at hback
    | some pc' =>
      obtain ⟨-, rfl⟩ : loop = back ∧ pc' = .reset := by simpa [hnext] using hback
      rw [hspec]
      exact CreditFlow.reset_counter hnext

theorem Balanced.workStep_top (h : Balanced config s) (hw : s.worker = .top)
    (hs : s.workStep = some s') : Balanced config s' := by
  simp only [CreditedFeedWorker.workStep, hw, Option.some.injEq] at hs
  subst hs
  apply h.advance <;> split <;> simp [hw, WorkerPc.batch, WorkerPc.tokens]

theorem Balanced.workStep_sweep {batch : List (Entry Item)} (h : Balanced config s) (hw : s.worker = .sweep batch)
    (hs : s.workStep = some s') : Balanced config s' := by
  simp only [CreditedFeedWorker.workStep, hw] at hs
  split at hs <;> cases hs
  · apply h.advance <;> simp [WorkerPc.batch, WorkerPc.tokens, *]
    omega
  · apply h.advance <;> split <;> simp [hw, WorkerPc.batch, WorkerPc.tokens]

theorem Balanced.workStep_first (h : Balanced config s) (hw : s.worker = .first)
    (hs : s.workStep = some s') : Balanced config s' := by
  simp only [CreditedFeedWorker.workStep, hw] at hs
  split at hs
  · cases hs
    apply h.advance <;> simp [WorkerPc.batch, WorkerPc.tokens, *]
  · split at hs <;> cases hs
    apply h.advance <;> simp [hw, WorkerPc.batch, WorkerPc.tokens]

theorem Balanced.workStep_fill {batch : List (Entry Item)} (h : Balanced config s) (hw : s.worker = .fill batch)
    (hs : s.workStep = some s') : Balanced config s' := by
  simp only [CreditedFeedWorker.workStep, hw] at hs
  split at hs
  · split at hs
    · cases hs
      apply h.advance <;> simp [WorkerPc.batch, WorkerPc.tokens, *]
      omega
    · split at hs <;> cases hs
      apply h.advance <;> simp [hw, WorkerPc.batch, WorkerPc.tokens]
  · cases hs
    apply h.advance <;> simp [hw, WorkerPc.batch, WorkerPc.tokens]

theorem Balanced.workStep_spawn {rest : List (Entry Item)} (h : Balanced config s) (hw : s.worker = .spawn rest)
    (hs : s.workStep = some s') : Balanced config s' := by
  cases rest with
  | nil =>
    simp only [CreditedFeedWorker.workStep, hw, Option.some.injEq] at hs
    subst hs
    apply h.advance <;> simp [hw, WorkerPc.batch, WorkerPc.tokens]
  | cons entry rest =>
    simp only [CreditedFeedWorker.workStep, hw, Option.some.injEq] at hs
    subst hs
    apply h.advance <;> simp [hw, WorkerPc.batch, WorkerPc.tokens]
    omega

theorem Balanced.workStep_join {loop : JoinLoop Item} (h : Balanced config s) (hw : s.worker = .join loop)
    (hmax : 1 ≤ config.maxConcurrent) (hs : s.workStep = some s') : Balanced config s' := by
  cases loop with
  | bounding rest =>
    simp only [CreditedFeedWorker.workStep, hw] at hs
    split at hs
    · rename_i hfull
      have hpos : 1 ≤ s.config.maxConcurrent.toNat := by
        rw [h.config_eq]
        exact UInt64.le_iff_toNat_le.mp hmax
      have hne : s.tasks.isEmpty = false := by
        rw [List.isEmpty_eq_false_iff, ← List.length_pos_iff]
        omega
      simp [hne] at hs
    · cases hs
      apply h.advance <;> simp [hw, WorkerPc.batch, WorkerPc.tokens]
  | finishing =>
    simp only [CreditedFeedWorker.workStep, hw] at hs
    split at hs <;> cases hs
    apply h.advance <;> simp [hw, WorkerPc.batch, WorkerPc.tokens]

theorem Balanced.workStep_recv {loop : JoinLoop Item} {pc : RecvPc} (h : Balanced config s) (hw : s.worker = .recv loop pc)
    (hs : s.workStep = some s') : Balanced config s' := by
  simp only [CreditedFeedWorker.workStep, hw, Option.some.injEq] at hs
  subst hs
  exact h.recvStep hw

theorem Balanced.workStep_leaving (h : Balanced config s) (hw : s.worker = .leaving)
    (hs : s.workStep = some s') : Balanced config s' := by
  simp only [CreditedFeedWorker.workStep, hw, Option.some.injEq] at hs
  subst hs
  apply h.advance <;> simp [hw, WorkerPc.batch, WorkerPc.tokens]

theorem Balanced.workStep (h : Balanced config s) (hmax : 1 ≤ config.maxConcurrent)
    (hs : s.workStep = some s') : Balanced config s' := by
  cases hw : s.worker with
  | unstarted => simp [CreditedFeedWorker.workStep, hw] at hs
  | top => exact h.workStep_top hw hs
  | sweep batch => exact h.workStep_sweep hw hs
  | first => exact h.workStep_first hw hs
  | fill batch => exact h.workStep_fill hw hs
  | spawn rest => exact h.workStep_spawn hw hs
  | join loop => exact h.workStep_join hw hmax hs
  | recv loop pc => exact h.workStep_recv hw hs
  | leaving => exact h.workStep_leaving hw hs
  | exited => simp [CreditedFeedWorker.workStep, hw] at hs

theorem Balanced.timeoutStep (h : Balanced config s) (hs : s.timeoutStep = some s') :
    Balanced config s' := by
  simp only [CreditedFeedWorker.timeoutStep] at hs
  split at hs
  · rename_i hw
    split at hs <;> cases hs
    apply h.advance <;> simp [hw, WorkerPc.batch, WorkerPc.tokens]
  · cases hs

theorem Balanced.joinStep (h : Balanced config s) {i : ℕ} (hs : s.joinStep i = some s') :
    Balanced config s' := by
  simp only [CreditedFeedWorker.joinStep] at hs
  split at hs
  · rename_i loop entry hloop hi
    cases hs
    have hlen : (s.tasks.eraseIdx i).length + 1 = s.tasks.length := by
      obtain ⟨hlt, -⟩ := List.getElem?_eq_some_iff.mp hi
      rw [List.length_eraseIdx_of_lt hlt]
      omega
    apply h.advance
    · simp
    · rw [worker_of_joining hloop]
      cases loop <;> simp only [WorkerPc.batch, WorkerPc.tokens, RecvPc.tokens] <;> omega
  · cases hs

theorem Balanced.permitStep (h : Balanced config s) {i : ℕ} (hs : s.permitStep i = some s') :
    Balanced config s' := by
  simp only [CreditedFeedWorker.permitStep] at hs
  split at hs
  · split at hs <;> cases hs
    exact h.quiet rfl rfl (by simp [held]) (fun _ _ => rfl)
  · cases hs

theorem Balanced.completeStep (h : Balanced config s) {i : ℕ} (hs : s.completeStep i = some s') :
    Balanced config s' := by
  simp only [CreditedFeedWorker.completeStep] at hs
  split at hs <;> cases hs
  exact h.quiet rfl rfl (by simp [held]) (fun _ _ => rfl)

theorem Balanced.step (h : Balanced config s) (hmax : 1 ≤ config.maxConcurrent) {a : Action Item}
    (hgated : s.entersUngated a = false) (hs : s.step a = some s') : Balanced config s' := by
  cases a with
  | enqueue item =>
    simp only [entersUngated] at hgated
    simp only [CreditedFeedWorker.step, enqueue, hgated] at hs
    cases hs
    exact h
  | enqueueWithCredit item =>
    cases hs
    exact h.enqueueWithCredit item
  | call i =>
    obtain ⟨c, hi, hs⟩ := Option.bind_eq_some_iff.mp hs
    exact h.callStep hi hs
  | cancel i =>
    obtain ⟨c, hi, hs⟩ := Option.bind_eq_some_iff.mp hs
    exact h.cancelStep hi hs
  | sendClone item =>
    simp only [entersUngated, Bool.and_eq_false_iff, decide_eq_false_iff_not] at hgated
    simp only [CreditedFeedWorker.step] at hs
    split at hs
    · rename_i hadmits
      rcases hgated with hno | hno
      · exact absurd hadmits.1 hno
      · exact absurd (hno.symm.trans hadmits.2) (by decide)
    · cases hs
  | start =>
    simp only [CreditedFeedWorker.step] at hs
    split at hs <;> cases hs
    rename_i hw
    apply h.advance <;> simp [hw, WorkerPc.batch, WorkerPc.tokens]
  | work => exact h.workStep hmax hs
  | timeout => exact h.timeoutStep hs
  | permit i => exact h.permitStep hs
  | complete i => exact h.completeStep hs
  | joinNext i => exact h.joinStep hs
  | takeSender =>
    cases hs
    exact h.quiet rfl rfl le_rfl (fun _ _ => rfl)
  | sender | dropClone | setDraining =>
    simp only [CreditedFeedWorker.step] at hs
    split at hs <;> cases hs
    exact h.quiet rfl rfl le_rfl (fun _ _ => rfl)

theorem gated_in_flight_within_limit (config : FeedConfig) (hmax : 1 ≤ config.maxConcurrent)
    (as : List (Action Item)) (h : Respects next (fun s a => s.entersUngated a = false) (new config) as) :
    Along next (fun s => s.gatedInFlight ≤ config.creditLimit.toNat) (new config) as := by
  have hinv : Along next (Balanced config) (new config) as :=
    along_of_step (fun _ _ hs ha => next_of_step hs fun _ hstep => hs.step hmax ha hstep)
      (balanced_new config) h
  exact hinv.mono fun _ hs => hs.gatedInFlight_le

def single : FeedConfig where
  creditLimit := 1
  creditMoreAfter := 1
  maxConcurrent := 1
  batchSize := 1

def processOne : List (Action String) :=
  [.work, .work, .work, .work, .permit 0, .complete 0, .joinNext 0, .work, .work, .work, .work, .work]

def forward (i : ℕ) : List (Action String) :=
  [.call i, .call i, .call i]

theorem ungated_item_adds_credit : (1 : UInt64) ≤ single.creditMoreAfter ∧
    single.creditMoreAfter ≤ single.creditLimit ∧ 1 ≤ single.maxConcurrent ∧
    ¬Along next (fun s => s.gatedInFlight ≤ single.creditLimit.toNat) (new single)
      ([.start, .enqueue "tick", .enqueueWithCredit "a"] ++ forward 0 ++ processOne ++
        [.enqueueWithCredit "b", .call 1, .call 1, .call 1, .call 1, .call 1, .call 1] ++ forward 1) := by
  decide +kernel

theorem gated_items_one_by_one : Along next (fun s => s.gatedInFlight ≤ single.creditLimit.toNat) (new single)
    ([.start, .enqueueWithCredit "a"] ++ forward 0 ++ processOne ++
      [.enqueueWithCredit "b", .call 1, .call 1, .call 1, .call 1, .call 1, .call 1] ++ forward 1) :=
  gated_in_flight_within_limit single (by decide) _ (by decide +kernel)

end CreditedFeedWorker
end Fluent.Concurrency
