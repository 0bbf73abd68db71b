import Fluent.Router.Charts.Report

namespace Fluent.Router.Charts

open Fluent.Library
open Fluent.Spacy (Text)
open Fluent.Dag (DependencyGraph Debug)

variable {N F K : Type}

def Execution.rejected (st : Execution N K) : Bool := st.audit.any fun e => e.verdict = .rubricRejected

def Execution.UnitsCompleted (st : Execution N K) : Prop := ∀ w ∈ st.waves, ∀ e ∈ w.events, e.isCompleted = true

namespace ChartExecutionPlan

variable [DecidableEq K] {plan : ChartExecutionPlan F} {env : Surroundings N F K}

omit [DecidableEq K] in
theorem rejected_log (st : Execution N K) (target : Text) (verdict : ChartTargetVerdict) (reason : Text) :
    (plan.log st target verdict reason).rejected = (st.rejected || decide (verdict = .rubricRejected)) := by
  simp [log, Execution.rejected]

theorem Outcome.failed_iff {st st' : Execution N K} {e : SupervisedBatchEvent N} (h : plan.Outcome env st e st')
    (hrejected : st'.rejected = false) :
    st.rejected = false ∧ (st'.failed = ∅ ↔ st.failed = ∅ ∧ e.isCompleted = true) := by
  cases h with
  | unknown _ hcompleted => exact ⟨hrejected, (and_iff_left hcompleted).symm⟩
  | promoted hcompleted _ =>
    change (plan.log { st with cache := _ } e.name _ _).rejected = false at hrejected
    rw [rejected_log, Bool.or_eq_false_iff] at hrejected
    exact ⟨hrejected.1, (and_iff_left hcompleted).symm⟩
  | rejected =>
    change (plan.log { st with cache := _ } e.name _ _).rejected = false at hrejected
    rw [rejected_log, Bool.or_eq_false_iff] at hrejected
    exact absurd hrejected.2 (by decide)
  | fault hcompleted =>
    change (plan.log st e.name _ _).rejected = false at hrejected
    rw [rejected_log, Bool.or_eq_false_iff] at hrejected
    refine ⟨hrejected.1, ?_⟩
    simp [fail, hcompleted]

theorem Outcome.waves {st st' : Execution N K} {e : SupervisedBatchEvent N} (h : plan.Outcome env st e st') :
    st'.waves = st.waves := by
  cases h with
  | unknown => rfl
  | promoted => rfl
  | rejected => rfl
  | fault => rfl

theorem foldl_failed_iff {events : List (SupervisedBatchEvent N)} {st : Execution N K}
    (hrejected : (events.foldl (plan.processEvent env) st).rejected = false) :
    st.rejected = false ∧ ((events.foldl (plan.processEvent env) st).failed = ∅ ↔
      st.failed = ∅ ∧ ∀ e ∈ events, e.isCompleted = true) := by
  induction events generalizing st with
  | nil => exact ⟨hrejected, (and_iff_left (List.forall_mem_nil _)).symm⟩
  | cons e events ih =>
    obtain ⟨hnext, hrest⟩ := ih hrejected
    obtain ⟨hst, hhead⟩ := (processEvent_outcome plan env st e).failed_iff hnext
    refine ⟨hst, ?_⟩
    rw [List.foldl_cons, hrest, hhead, List.forall_mem_cons, and_assoc]

theorem foldl_waves (events : List (SupervisedBatchEvent N)) (st : Execution N K) :
    (events.foldl (plan.processEvent env) st).waves = st.waves :=
  List.foldlRecOn (motive := fun st' : Execution N K => st'.waves = st.waves) _ _ rfl
    fun st' hst' e _ => (processEvent_outcome plan env st' e).waves.trans hst'

theorem run_failed_iff [Debug Text] {cache : Option (RubricCache K)} {fuel : ℕ} {st : Execution N K}
    (h : plan.run env cache fuel = some (.ok st)) (hrejected : st.rejected = false) :
    st.failed = ∅ ↔ st.UnitsCompleted := by
  refine run_keeps (P := fun st => st.rejected = false → (st.failed = ∅ ↔ st.UnitsCompleted)) ?_ h ?_ hrejected
  · intro st ready ih hrejected
    obtain ⟨hst, hiff⟩ := foldl_failed_iff hrejected
    rw [hiff]
    change st.failed = ∅ ∧ _ ↔ _
    rw [ih hst, Execution.UnitsCompleted, Execution.UnitsCompleted, foldl_waves, openWave]
    simp only [List.forall_mem_append, List.forall_mem_singleton]
  · intro _
    exact iff_of_true rfl (List.forall_mem_nil _)

def chartPasses (plan : ChartExecutionPlan F) (env : Surroundings N F K) (st : Execution N K) : Bool :=
  match plan.chartRubric, (plan.summarize env st).finalOutput with
  | some rubric, some output => (checkRubric env.num env.gate st.cache rubric output plan.chartName).1.accepted
  | _, _ => true

theorem summarize_accepted (st : Execution N K) :
    (plan.summarize env st).accepted = ((plan.summarize env st).failed.isEmpty &&
      (plan.summarize env st).cancelled.isEmpty && plan.chartPasses env st) := by
  rw [chartPasses, summarize_finalOutput, summarize_completed, summarize_failed, summarize_cancelled]
  unfold summarize names
  dsimp only
  cases plan.chartRubric with
  | none => exact (Bool.and_true _).symm
  | some rubric =>
    generalize ((plan.targets.map CompiledTarget.name).filterMap st.completed.lookup).getLast?.bind outputOf = output
    cases output with
    | none => exact (Bool.and_true _).symm
    | some output => rfl

theorem summarize_rubricRejected (st : Execution N K) :
    (plan.summarize env st).rubricRejected = (st.rejected || !plan.chartPasses env st) := by
  rw [chartPasses, summarize_finalOutput, summarize_completed]
  unfold summarize names
  dsimp only
  cases plan.chartRubric with
  | none => simp [ChartExecutionSummary.rubricRejected, Execution.rejected]
  | some rubric =>
    generalize ((plan.targets.map CompiledTarget.name).filterMap st.completed.lookup).getLast?.bind outputOf = output
    cases output with
    | none => simp [ChartExecutionSummary.rubricRejected, Execution.rejected]
    | some output =>
      dsimp only [ChartExecutionSummary.rubricRejected]
      split
      · next haccepted => simp [haccepted, Execution.rejected]
      · next haccepted => simp [haccepted, Execution.rejected]

theorem accepted_iff [Debug Text] (hplan : plan.Compiled) (hbatch : env.OneEventEach) {cache : Option (RubricCache K)}
    {fuel : ℕ} {st : Execution N K} (h : plan.run env cache fuel = some (.ok st))
    (hrejected : (plan.summarize env st).rubricRejected = false) :
    (plan.summarize env st).accepted = true ↔ st.UnitsCompleted := by
  rw [summarize_rubricRejected, Bool.or_eq_false_iff, Bool.not_eq_false'] at hrejected
  obtain ⟨graph, hgraph, hprogress, hend⟩ := run_ok hplan hbatch h
  rw [summarize_accepted, hrejected.2, Bool.and_true, ← run_failed_iff h hrejected.1, Bool.and_eq_true,
    List.isEmpty_iff, List.isEmpty_iff, summarize_failed, summarize_cancelled]
  constructor
  · rintro ⟨hnone, -⟩
    refine Finset.eq_empty_of_forall_notMem fun f hf => ?_
    refine List.filter_eq_nil_iff.mp hnone f (hprogress.named f ((hprogress.settled f).mp (.inr hf))) ?_
    exact decide_eq_true ⟨fun hcompleted => hprogress.disjoint f hcompleted hf, hf⟩
  · intro hfailed
    refine ⟨List.filter_eq_nil_iff.mpr fun n hn => ?_, List.filter_eq_nil_iff.mpr fun n hn => ?_⟩
    · simp [hfailed]
    · simp [completed_of_no_failure hplan hgraph hend hfailed hn]

def GateRan (plan : ChartExecutionPlan F) (env : Surroundings N F K) (st : Execution N K) : Prop :=
  (∃ t ∈ plan.targets, t.rubric.isSome = true ∧ t.name ∈ st.completed) ∨
    plan.chartRubric.isSome = true ∧ (plan.summarize env st).finalOutput.isSome = true

def Validated (plan : ChartExecutionPlan F) (env : Surroundings N F K) (st : Execution N K) : Prop :=
  (plan.summarize env st).accepted = true ∧ (plan.summarize env st).rubricRejected = false ∧ plan.GateRan env st

def HasRubric (plan : ChartExecutionPlan F) (env : Surroundings N F K) (st : Execution N K) : Prop :=
  (∃ t ∈ plan.targets, t.rubric.isSome = true) ∨
    plan.chartRubric.isSome = true ∧ (plan.summarize env st).finalOutput.isSome = true

theorem validated_iff [Debug Text] (hplan : plan.Compiled) (hbatch : env.OneEventEach) {cache : Option (RubricCache K)}
    {fuel : ℕ} {st : Execution N K} (h : plan.run env cache fuel = some (.ok st))
    (hrejected : (plan.summarize env st).rubricRejected = false) :
    plan.Validated env st ↔ st.UnitsCompleted ∧ plan.HasRubric env st := by
  rw [Validated, accepted_iff hplan hbatch h hrejected, and_iff_right hrejected]
  refine and_congr_right fun hcompleted => or_congr_left ?_
  obtain ⟨graph, hgraph, -, hend⟩ := run_ok hplan hbatch h
  rw [summarize_rubricRejected, Bool.or_eq_false_iff] at hrejected
  have hfailed := (run_failed_iff h hrejected.1).mpr hcompleted
  refine exists_congr fun t => and_congr_right fun ht => and_iff_left ?_
  exact completed_of_no_failure hplan hgraph hend hfailed (List.mem_map_of_mem ht)

end ChartExecutionPlan

end Fluent.Router.Charts
