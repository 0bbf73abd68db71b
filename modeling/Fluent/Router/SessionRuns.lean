import Fluent.Router.DagSession

namespace Fluent.Router.DependencySession

open Fluent.Dag Fluent.Library

structure Inv (s : DependencySession) : Prop where
  wf : s.graph.Wf
  step_deps : ∀ id step, s.getStep id = some step → s.graph.graph.depsOf id = some step.dependsOn
  has_step : ∀ id ∈ s.graph.order, ∃ step, s.getStep id = some step
  done : ∀ id ∈ s.graph.completed, ∃ step, s.getStep id = some step ∧
    (step.status = .completed ∨ step.status = .failed)
  guarded : ∀ id step, s.getStep id = some step → step.status = .pending →
    ∀ d ∈ step.dependsOn, ¬s.FailedSatisfied d

theorem inv_new : Inv new := by
  refine ⟨CheckpointedStepGraph.wf_new, ?_, ?_, ?_, ?_⟩ <;>
    simp [new, getStep, CheckpointedStepGraph.new, CheckpointedStepGraph.status]

variable {s : DependencySession}

theorem Inv.offersReady (hi : Inv s) : OffersReady s := by
  intro id hid
  simp only [nextReady, List.mem_filter] at hid
  obtain ⟨⟨hready, -⟩, hpend⟩ := hid
  obtain ⟨deps, hdeps, hall⟩ := (s.graph.isReady_iff id).mp (List.mem_filter.mp hready).2
  cases hs : s.getStep id with
  | none => simp [hs] at hpend
  | some step =>
    have hstatus : step.status = .pending := by simpa [hs] using hpend
    refine ⟨step, rfl, hstatus, fun d hd => ?_⟩
    have hd' : d ∈ s.graph.completed := by
      have := (hi.step_deps id step hs).symm.trans hdeps
      exact hall d (Option.some.inj this ▸ hd)
    obtain ⟨prereq, hp, hcases⟩ := hi.done d hd'
    refine ⟨prereq, hp, hcases.resolve_right fun hf => ?_⟩
    exact hi.guarded id step hs hstatus d hd ⟨by simpa [CheckpointedStepGraph.isCompleted] using hd',
      prereq, hp, hf⟩

theorem Inv.update {s s' : DependencySession} (hi : Inv s) (f : String → SessionStep → SessionStep)
    (hf : ∀ x step, (f x step).dependsOn = step.dependsOn)
    (hgraph : s'.graph.graph = s.graph.graph) (horder : s'.graph.order = s.graph.order)
    (hstep : ∀ x, s'.getStep x = (s.getStep x).map (f x))
    (hcomp : ∀ x ∈ s'.graph.completed, ∃ step, s.getStep x = some step ∧ x ∈ s.graph.order ∧
      ((f x step).status = .completed ∨ (f x step).status = .failed))
    (hguard : ∀ x step, s.getStep x = some step → (f x step).status = .pending →
      ∀ d ∈ step.dependsOn, ¬s'.FailedSatisfied d) : Inv s' := by
  refine ⟨⟨hgraph ▸ hi.wf.indexed, ?_, ?_, ?_⟩, ?_, ?_, ?_, ?_⟩
  · rw [hgraph, horder, hi.wf.order_eq]
  · rw [hgraph, horder]
    exact hi.wf.provides_self
  · intro x hx
    obtain ⟨step, -, hx, -⟩ := hcomp x hx
    exact horder ▸ hx
  · intro x step h
    rw [hstep, Option.map_eq_some_iff] at h
    obtain ⟨old, hold, rfl⟩ := h
    rw [hgraph, hf]
    exact hi.step_deps x old hold
  · intro x hx
    obtain ⟨old, hold⟩ := hi.has_step x (horder ▸ hx)
    exact ⟨f x old, by rw [hstep, hold]; rfl⟩
  · intro x hx
    obtain ⟨step, hs, -, hstatus⟩ := hcomp x hx
    exact ⟨f x step, by rw [hstep, hs]; rfl, hstatus⟩
  · intro x step h hpend d hd
    rw [hstep, Option.map_eq_some_iff] at h
    obtain ⟨old, hold, rfl⟩ := h
    exact hguard x old hold hpend d (hf x old ▸ hd)

theorem Inv.completed (hi : Inv s) {x : String} (hx : x ∈ s.graph.completed) :
    ∃ step, s.getStep x = some step ∧ x ∈ s.graph.order ∧
      (step.status = .completed ∨ step.status = .failed) := by
  obtain ⟨step, hs, hstatus⟩ := hi.done x hx
  exact ⟨step, hs, hi.wf.completed_sub x hx, hstatus⟩

theorem Inv.mem_order (hi : Inv s) {x : String} {step : SessionStep}
    (h : s.getStep x = some step) : x ∈ s.graph.order := by
  rw [hi.wf.order_eq, hi.wf.indexed.mem_nodes]
  exact Finmap.mem_of_lookup_eq_some (hi.step_deps x step h)

theorem FailedSatisfied.back {s s' : DependencySession} {d : String}
    {f : SessionStep → SessionStep} (h : s'.FailedSatisfied d)
    (hcomp : s'.graph.isCompleted d → s.graph.isCompleted d)
    (hstep : s'.getStep d = (s.getStep d).map f)
    (hf : ∀ step, (f step).status = .failed → step.status = .failed) : s.FailedSatisfied d := by
  obtain ⟨hc, step, hs, hfail⟩ := h
  rw [hstep, Option.map_eq_some_iff] at hs
  obtain ⟨old, hold, rfl⟩ := hs
  exact ⟨hcomp hc, old, hold, hf old hfail⟩

theorem cancelStatus_idem (step : SessionStep) : cancelStatus (cancelStatus step) = cancelStatus step := by
  unfold cancelStatus
  split_ifs <;> simp_all

theorem cancelStatus_dependsOn (step : SessionStep) :
    (cancelStatus step).dependsOn = step.dependsOn := by
  unfold cancelStatus
  split_ifs <;> rfl

theorem cancelStatus_of_ended {step : SessionStep}
    (h : step.status = .completed ∨ step.status = .failed) : cancelStatus step = step := by
  unfold cancelStatus
  rcases h with h | h <;> simp [h]

theorem cancelStatus_ne_pending (step : SessionStep) : (cancelStatus step).status ≠ .pending := by
  unfold cancelStatus
  split_ifs with h
  · simp
  · exact (not_or.mp h).1

theorem of_cancelStatus_failed {step : SessionStep} (h : (cancelStatus step).status = .failed) :
    step.status = .failed := by
  unfold cancelStatus at h
  split_ifs at h
  exact h

theorem resetStatus_idem (step : SessionStep) : resetStatus (resetStatus step) = resetStatus step := by
  unfold resetStatus
  split_ifs with h h'
  · simp [finished] at h'
  · rfl
  · rfl

theorem resetStatus_dependsOn (step : SessionStep) : (resetStatus step).dependsOn = step.dependsOn := by
  unfold resetStatus
  split_ifs <;> rfl

theorem Inv.startStep (hi : Inv s) (key : String) :
    Inv (s.startStep key).1 := by
  unfold DependencySession.startStep
  cases hs : s.getStep key with
  | none => exact hi
  | some step =>
    by_cases hp : step.status = .pending
    · simp only [hp, ne_eq, not_true_eq_false, ↓reduceIte]
      let start : SessionStep → SessionStep := fun step => { step with status := .inProgress }
      obtain ⟨hgraph, horder, hcomp, -⟩ := CheckpointedStepGraph.updateState_frame start s.graph key
      have hnot : key ∉ s.graph.completed := by
        intro hc
        obtain ⟨old, hold, hended⟩ := hi.done key hc
        obtain rfl : step = old := Option.some.inj (hs.symm.trans hold)
        simp [hp] at hended
      have hget : ∀ x, getStep ⟨s.graph.updateState start key⟩ x =
          (s.getStep x).map (if x = key then start else fun step => step) := by
        intro x
        rw [getStep, CheckpointedStepGraph.status_updateState]
        split_ifs <;> simp [getStep]
      refine hi.update (fun x => if x = key then start else fun step => step) ?_ hgraph horder hget ?_ ?_
      · intro x old
        split_ifs <;> rfl
      · intro x hx
        rw [hcomp] at hx
        obtain ⟨old, hold, hmem, hended⟩ := hi.completed hx
        have hne : x ≠ key := by
          rintro rfl
          exact hnot hx
        exact ⟨old, hold, hmem, by rwa [if_neg hne]⟩
      · intro x old hold hpend d hd hfail
        have hxpend : old.status = .pending := by
          split_ifs at hpend
          exact hpend
        refine hi.guarded x old hold hxpend d hd (hfail.back (fun h => ?_) (hget d) fun step h => ?_)
        · rwa [CheckpointedStepGraph.isCompleted, ← hcomp]
        · split_ifs at h
          exact h
    · simpa [hp] using hi

theorem getStep_cancelDependents (s : DependencySession) (key x : String) :
    (s.cancelDependents key).getStep x = (s.getStep x).map
      (if x ∈ s.graph.cancelDependents key then cancelStatus else fun step => step) := by
  rw [getStep, cancelDependents, CheckpointedStepGraph.status_foldl_updateState cancelStatus_idem]
  split_ifs <;> simp [getStep]

theorem Inv.cancelDependents (hi : Inv s) (key : String) :
    Inv (s.cancelDependents key) := by
  obtain ⟨hgraph, horder, hcomp, -⟩ := CheckpointedStepGraph.foldl_updateState_frame cancelStatus
    (s.graph.cancelDependents key) s.graph
  refine hi.update (fun x => if x ∈ s.graph.cancelDependents key then cancelStatus else fun step => step)
    ?_ hgraph horder (s.getStep_cancelDependents key) ?_ ?_
  · intro x old
    split_ifs
    · exact cancelStatus_dependsOn old
    · rfl
  · intro x hx
    obtain ⟨old, hold, hmem, hended⟩ := hi.completed (hcomp ▸ hx)
    refine ⟨old, hold, hmem, ?_⟩
    split_ifs
    · rwa [cancelStatus_of_ended hended]
    · exact hended
  · intro x old hold hpend d hd hfail
    have hxpend : old.status = .pending := by
      split_ifs at hpend
      · exact absurd hpend (cancelStatus_ne_pending old)
      · exact hpend
    refine hi.guarded x old hold hxpend d hd
      (hfail.back (fun h => ?_) (s.getStep_cancelDependents key d) fun step h => ?_)
    · rwa [CheckpointedStepGraph.isCompleted, ← hcomp]
    · split_ifs at h
      · exact of_cancelStatus_failed h
      · exact h

def settleStatus (s : DependencySession) (key : String) (result : StepResult) (x : String)
    (step : SessionStep) : SessionStep :=
  let recorded := if x = key then recordResult result step else step
  if shouldCancel result ∧ x ∈ s.graph.cancelDependents key then cancelStatus recorded else recorded

theorem getStep_settle (s : DependencySession) (key : String) (result : StepResult) (x : String) :
    (s.settle key result).getStep x = (s.getStep x).map (s.settleStatus key result x) := by
  have hdone : getStep ⟨(s.graph.updateState (recordResult result) key).complete key⟩ x =
      (s.getStep x).map (fun step => if x = key then recordResult result step else step) := by
    change (s.graph.updateState (recordResult result) key).status x = _
    rw [CheckpointedStepGraph.status_updateState]
    split_ifs <;> simp [getStep]
  have hgraph := (CheckpointedStepGraph.updateState_frame (recordResult result) s.graph key).1
  unfold settle settleStatus
  cases shouldCancel result with
  | false => simpa using hdone
  | true =>
    have hdeps : CheckpointedStepGraph.cancelDependents
        ((s.graph.updateState (recordResult result) key).complete key) key =
        s.graph.cancelDependents key := congrArg (DependencyGraph.dependentsOf · key) hgraph
    simp only [↓reduceIte, true_and]
    rw [getStep_cancelDependents, hdone, hdeps, Option.map_map]
    congr 1
    funext step
    split_ifs <;> simp_all

theorem settle_frame (s : DependencySession) (key : String) (result : StepResult) :
    (s.settle key result).graph.graph = s.graph.graph ∧
      (s.settle key result).graph.order = s.graph.order ∧
      (s.settle key result).graph.completed = insert key s.graph.completed := by
  obtain ⟨hgraph, horder, hcomp, -⟩ :=
    CheckpointedStepGraph.updateState_frame (recordResult result) s.graph key
  unfold settle
  cases shouldCancel result with
  | false => exact ⟨hgraph, horder, congrArg (insert key) hcomp⟩
  | true =>
    obtain ⟨hgraph', horder', hcomp', -⟩ := CheckpointedStepGraph.foldl_updateState_frame cancelStatus
      (((s.graph.updateState (recordResult result) key).complete key).cancelDependents key)
      ((s.graph.updateState (recordResult result) key).complete key)
    exact ⟨hgraph'.trans hgraph, horder'.trans horder, hcomp'.trans (congrArg (insert key) hcomp)⟩

theorem settleStatus_dependsOn (s : DependencySession) (key : String) (result : StepResult) (x : String)
    (step : SessionStep) : (s.settleStatus key result x step).dependsOn = step.dependsOn := by
  unfold settleStatus
  split_ifs <;> simp [cancelStatus_dependsOn, recordResult]

theorem settleStatus_self (s : DependencySession) (key : String) (result : StepResult)
    (step : SessionStep) : (s.settleStatus key result key step).status =
      if shouldCancel result then .failed else .completed := by
  have hended : (recordResult result step).status = .completed ∨
      (recordResult result step).status = .failed := by
    cases hc : shouldCancel result <;> simp [recordResult, hc]
  simp only [settleStatus, ↓reduceIte]
  rw [cancelStatus_of_ended hended, ite_self]
  rfl

theorem settleStatus_of_ended (s : DependencySession) {key x : String} (result : StepResult)
    {step : SessionStep} (hx : x ≠ key) (h : step.status = .completed ∨ step.status = .failed) :
    s.settleStatus key result x step = step := by
  simp only [settleStatus, if_neg hx]
  rw [cancelStatus_of_ended h, ite_self]

theorem settleStatus_pending {key x : String} {result : StepResult}
    {step : SessionStep} (h : (s.settleStatus key result x step).status = .pending) :
    x ≠ key ∧ step.status = .pending ∧ (shouldCancel result → x ∉ s.graph.cancelDependents key) := by
  have hx : x ≠ key := by
    rintro rfl
    rw [settleStatus_self] at h
    split_ifs at h
  simp only [settleStatus, if_neg hx] at h
  split_ifs at h with hc
  · exact absurd h (cancelStatus_ne_pending step)
  · exact ⟨hx, h, fun hs hmem => hc ⟨hs, hmem⟩⟩

theorem of_settleStatus_failed {key x : String} {result : StepResult}
    {step : SessionStep} (hx : x ≠ key) (h : (s.settleStatus key result x step).status = .failed) :
    step.status = .failed := by
  simp only [settleStatus, if_neg hx] at h
  split_ifs at h
  · exact of_cancelStatus_failed h
  · exact h

theorem Inv.settle (hi : Inv s) {key : String} {step : SessionStep}
    (hs : s.getStep key = some step) (result : StepResult) : Inv (s.settle key result) := by
  obtain ⟨hgraph, horder, hcomp⟩ := s.settle_frame key result
  have hkey := hi.mem_order hs
  refine hi.update (s.settleStatus key result) (s.settleStatus_dependsOn key result) hgraph horder
    (s.getStep_settle key result) ?_ ?_
  · intro x hx
    by_cases hxk : x = key
    · subst hxk
      refine ⟨step, hs, hkey, ?_⟩
      rw [settleStatus_self]
      split_ifs
      · exact Or.inr rfl
      · exact Or.inl rfl
    · rw [hcomp] at hx
      obtain ⟨old, hold, hmem, hended⟩ := hi.completed (Finset.mem_of_mem_insert_of_ne hx hxk)
      exact ⟨old, hold, hmem, by rwa [settleStatus_of_ended s result hxk hended]⟩
  · intro x old hold hpend d hd hfail
    obtain ⟨hxk, hxpend, hnot⟩ := settleStatus_pending hpend
    by_cases hdk : d = key
    · subst hdk
      obtain ⟨-, new, hnew, hfailed⟩ := hfail
      rw [getStep_settle, hs] at hnew
      rw [← Option.some.inj hnew, settleStatus_self] at hfailed
      have hc : shouldCancel result := by
        by_contra hc
        simp [hc] at hfailed
      exact hnot hc (hi.wf.mem_cancelDependents hkey (hi.step_deps x old hold) hd hxk)
    · refine hi.guarded x old hold hxpend d hd (hfail.back (fun h => ?_) (s.getStep_settle key result d)
        fun step => of_settleStatus_failed hdk)
      rw [CheckpointedStepGraph.isCompleted, hcomp] at h
      simpa [CheckpointedStepGraph.isCompleted, hdk] using h

theorem getStep_rewind (s : DependencySession) (reset : List String)
    (graph : CheckpointedStepGraph String SessionStep) (hstate : graph.state = s.graph.state) (x : String) :
    getStep ⟨reset.foldl (CheckpointedStepGraph.updateState resetStatus) graph⟩ x =
      (s.getStep x).map (if x ∈ reset then resetStatus else fun step => step) := by
  rw [getStep, CheckpointedStepGraph.status_foldl_updateState resetStatus_idem]
  simp only [CheckpointedStepGraph.status, hstate]
  split_ifs <;> simp [getStep, CheckpointedStepGraph.status]

section Runs

variable [Debug String]

theorem Inv.checkpoint {s : DependencySession} (hi : Inv s) {name : String}
    {graph : CheckpointedStepGraph String SessionStep} (h : s.graph.checkpoint name = .ok graph) :
    Inv ⟨graph⟩ := by
  obtain ⟨idx, -, rfl⟩ := CheckpointedStepGraph.checkpoint_ok h
  exact ⟨⟨hi.wf.indexed, hi.wf.order_eq, hi.wf.provides_self, hi.wf.completed_sub⟩, hi.step_deps,
    hi.has_step, hi.done, hi.guarded⟩

theorem Inv.completeStep {s : DependencySession} (hi : Inv s) (key : String) (result : StepResult) :
    Inv (s.completeStep key result).1 := by
  unfold DependencySession.completeStep
  cases hs : s.getStep key with
  | none => exact hi
  | some step =>
    have hset := hi.settle hs result
    by_cases hc : step.status = .completed
    · simpa [hc] using hi
    · simp only [hc, ↓reduceIte]
      split_ifs
      · cases hk : (s.settle key result).graph.checkpoint key with
        | error e => exact hset
        | ok graph => exact hset.checkpoint hk
      · exact hset

theorem Inv.addStep {s : DependencySession} (hi : Inv s) (step : SessionStep)
    (hop : NoFailedPrereq s (.addStep step)) : Inv (s.addStep step).1 := by
  unfold DependencySession.addStep
  cases ha : s.graph.addStep step.id step.dependsOn step with
  | error e => exact hi
  | ok graph =>
    have hwf := hi.wf.addStep ha
    obtain ⟨g, hr, rfl⟩ := CheckpointedStepGraph.addStep_ok ha
    obtain ⟨hfresh, rfl⟩ := DependencyGraph.register_ok hr
    have hnot : step.id ∉ s.graph.completed := fun hc =>
      hfresh ((hi.wf.indexed.mem_nodes _).mp (hi.wf.order_eq ▸ hi.wf.completed_sub _ hc))
    have hlater : ∀ x ∈ s.graph.completed, x ≠ step.id := by
      rintro x hx rfl
      exact hnot hx
    refine ⟨hwf, fun x st hx => ?_, fun x hx => ?_, fun x hx => ?_, fun x st hx hpend d hd => ?_⟩ <;>
      simp only [getStep, CheckpointedStepGraph.status, FailedSatisfied, DependencyGraph.depsOf,
        HashMap.lookup_insert_ite] at *
    · split_ifs at hx ⊢ with he
      · rw [Option.some.inj hx]
      · exact hi.step_deps x st hx
    · split_ifs with he
      · exact ⟨step, rfl⟩
      · exact hi.has_step x ((List.mem_append.mp hx).resolve_right (by simpa using he))
    · rw [if_neg (hlater x hx)]
      exact hi.done x hx
    · rintro ⟨hc, prereq, hp, hfail⟩
      rw [if_neg (hlater d (of_decide_eq_true hc))] at hp
      have hback : s.FailedSatisfied d := ⟨hc, prereq, hp, hfail⟩
      split_ifs at hx
      · obtain rfl := Option.some.inj hx
        exact hop hpend d hd hback
      · exact hi.guarded x st hx hpend d hd hback

theorem Inv.rewindToCheckpoint {s : DependencySession} (hi : Inv s) (name : String)
    (hop : NoFailedPrereq s (.rewindToCheckpoint name)) : Inv (s.rewindToCheckpoint name).1 := by
  unfold DependencySession.rewindToCheckpoint
  cases hr : s.graph.rewindTo name with
  | error e => exact hi
  | ok r =>
    obtain ⟨graph, reset⟩ := r
    obtain ⟨idx, hidx, hreset, rfl⟩ := CheckpointedStepGraph.rewindTo_ok hr
    have hget := s.getStep_rewind reset _ (rfl : { s.graph with
        checkpoints := s.graph.checkpoints.erase name
        completed := s.graph.completed \ reset.toFinset }.state = s.graph.state)
    obtain ⟨hgraph, horder, hcomp, -⟩ := CheckpointedStepGraph.foldl_updateState_frame resetStatus reset
      { s.graph with
        checkpoints := s.graph.checkpoints.erase name
        completed := s.graph.completed \ reset.toFinset }
    refine hi.update (fun x => if x ∈ reset then resetStatus else fun step => step) ?_ hgraph horder
      hget ?_ ?_
    · intro x old
      split_ifs
      · exact resetStatus_dependsOn old
      · rfl
    · intro x hx
      rw [hcomp, Finset.mem_sdiff, List.mem_toFinset] at hx
      obtain ⟨old, hold, hmem, hended⟩ := hi.completed hx.1
      exact ⟨old, hold, hmem, by rwa [if_neg hx.2]⟩
    · intro x old hold hpend d hd hfail
      have hd' := hfail.1
      rw [CheckpointedStepGraph.isCompleted, hcomp] at hd'
      obtain ⟨hdc, hdout⟩ := Finset.mem_sdiff.mp (of_decide_eq_true hd')
      have hback : s.FailedSatisfied d := by
        refine hfail.back (fun _ => decide_eq_true hdc) (hget d) fun step h => ?_
        rwa [if_neg (fun hm => hdout (List.mem_toFinset.mpr hm))] at h
      by_cases hx : x ∈ reset ∧ finished old
      · exact hdout (List.mem_toFinset.mpr (hreset ▸ hop idx hidx x (hreset ▸ hx.1) old hold hx.2 d hd hback))
      · have hxpend : old.status = .pending := by
          rw [not_and] at hx
          split_ifs at hpend with hm
          · rwa [resetStatus, if_neg (hx hm)] at hpend
          · exact hpend
        exact hi.guarded x old hold hxpend d hd hback

theorem Inv.perform {s : DependencySession} (hi : Inv s) (op : Op) (hop : NoFailedPrereq s op) :
    Inv (s.perform op) := by
  cases op with
  | addStep step => exact hi.addStep step hop
  | startStep id => exact hi.startStep id
  | completeStep id result => exact hi.completeStep id result
  | cancelDependents id => exact hi.cancelDependents id
  | rewindToCheckpoint name => exact hi.rewindToCheckpoint name hop

theorem next_ready_completed_prereqs (ops : List Op) (h : Respects perform NoFailedPrereq new ops) :
    Along perform OffersReady new ops := by
  have hinv : Along perform Inv new ops :=
    along_of_step (fun _ op hi hop => Inv.perform hi op hop) inv_new h
  exact hinv.mono fun _ hi => hi.offersReady

end Runs

instance quoted : Debug String := ⟨fun key => "\"" ++ key ++ "\""⟩

theorem next_ready_after_failure : ¬Along perform OffersReady new
    [.addStep (.new "A"), .completeStep "A" ⟨"", false, none⟩,
      .addStep { SessionStep.new "B" with dependsOn := ["A"] }] := by
  rintro ⟨-, -, -, h⟩
  obtain ⟨step, hs, -, hdeps⟩ := h "B" (by decide +kernel)
  obtain rfl : { SessionStep.new "B" with dependsOn := ["A"] } = step :=
    Option.some.inj ((by decide +kernel : _ = some _).symm.trans hs)
  obtain ⟨prereq, hp, hstatus⟩ := hdeps "A" (by decide)
  obtain rfl : { SessionStep.new "A" with status := .failed, result := some ⟨"", false, none⟩ } = prereq :=
    Option.some.inj ((by decide +kernel : _ = some _).symm.trans hp)
  simp at hstatus

theorem next_ready_plan_execute : Along perform OffersReady new
    [.addStep (.new "plan"), .addStep { SessionStep.new "execute" with dependsOn := ["plan"] },
      .startStep "plan", .completeStep "plan" ⟨"ok", true, none⟩] :=
  next_ready_completed_prereqs _ ⟨fun _ _ hd => absurd hd List.not_mem_nil, fun _ d hd => by
    rintro ⟨hc, -⟩
    obtain rfl : d = "plan" := List.mem_singleton.mp hd
    revert hc
    decide +kernel, trivial, trivial, trivial⟩

end Fluent.Router.DependencySession
