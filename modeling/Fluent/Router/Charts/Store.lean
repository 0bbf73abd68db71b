import Fluent.Library.Runs
import Fluent.Router.Charts.Extract
import Fluent.Router.Charts.Outcome

namespace Fluent.Router.Charts

open Fluent.Library
open Fluent.Spacy (Text)
open Fluent.Dag (DependencyGraph Debug)

variable {N F K : Type}

structure ChartHealth where
  draft : Bool
  staleFailures : ℕ
  demoted : Bool
deriving DecidableEq

structure ChartStore (F : Type) where
  charts : HashMap Text (ChartDef F)
  health : HashMap Text ChartHealth

inductive UpsertOutcome where
  | inserted
  | subsumed (existing : Text)
deriving DecidableEq

def chartStaleFails : ℕ := 3

namespace ChartStore

def new : ChartStore F := ⟨∅, ∅⟩

def get (store : ChartStore F) (name : Text) : Option (ChartDef F) := store.charts.lookup name

def healthOf (store : ChartStore F) (name : Text) : ChartHealth := (store.health.lookup name).getD ⟨false, 0, false⟩

def resetHealth (store : ChartStore F) (name : Text) : ChartStore F :=
  { store with health := store.health.insert name ⟨false, 0, false⟩ }

def markDraft (store : ChartStore F) (name : Text) : ChartStore F :=
  { store with
    health := store.health.insert name
      { store.healthOf name with draft := true, staleFailures := 0, demoted := false } }

def isDemoted (store : ChartStore F) (name : Text) : Bool := (store.health.lookup name).any ChartHealth.demoted

def isDraft (store : ChartStore F) (name : Text) : Bool := (store.health.lookup name).any ChartHealth.draft

def isExcludedFromSelection (store : ChartStore F) (name : Text) : Bool :=
  (store.health.lookup name).any fun h => h.demoted || h.draft

def recordRubricResult (store : ChartStore F) (chart : Text) (passed : Bool) : ChartStore F × Option Text :=
  let entry := store.healthOf chart
  if passed then
    ({ store with health := store.health.insert chart { entry with staleFailures := 0, draft := false } }, none)
  else
    let entry := { entry with staleFailures := entry.staleFailures + 1 }
    if chartStaleFails ≤ entry.staleFailures then
      ({ store with health := store.health.insert chart { entry with demoted := true } }, some chart)
    else ({ store with health := store.health.insert chart entry }, none)

def recordRun (store : ChartStore F) (chart : Text) (summary : ChartExecutionSummary N) : ChartStore F :=
  if (store.get chart).isSome then (store.recordRubricResult chart (!summary.rubricRejected)).1 else store

section Upsert

variable [Debug Text] (num : Numbers N F)

def upsert (store : ChartStore F) (chart : ChartDef F) : Except ChartError (ChartStore F) := do
  checkValid num "chart".toList chart
  let store := store.resetHealth chart.name
  return { store with charts := store.charts.insert chart.name chart }

def upsertIdempotent (store : ChartStore F) (hit : Except ChartError (Option (Text × Bool))) (chart : ChartDef F) :
    Except ChartError (ChartStore F × UpsertOutcome) := do
  checkValid num "chart".toList chart
  let hit ← hit
  match hit.filter fun (name, near) => name ≠ chart.name ∧ near with
  | some (existing, _) =>
    let subsumed := { chart with name := existing }
    checkValid num "subsumed chart".toList subsumed
    let store := store.markDraft subsumed.name
    return ({ store with charts := store.charts.insert existing subsumed }, .subsumed existing)
  | none =>
    let store := store.markDraft chart.name
    return ({ store with charts := store.charts.insert chart.name chart }, .inserted)

end Upsert

theorem isDraft_resetHealth (store : ChartStore F) (name n : Text) :
    (store.resetHealth name).isDraft n = (decide (n ≠ name) && store.isDraft n) := by
  by_cases h : n = name <;> simp [resetHealth, isDraft, HashMap.lookup_insert_ite, h]

theorem isDraft_markDraft (store : ChartStore F) (name n : Text) :
    (store.markDraft name).isDraft n = (decide (n = name) || store.isDraft n) := by
  by_cases h : n = name <;> simp [markDraft, isDraft, HashMap.lookup_insert_ite, h]

theorem draft_healthOf (store : ChartStore F) (name : Text) : (store.healthOf name).draft = store.isDraft name := by
  unfold healthOf isDraft
  cases store.health.lookup name <;> rfl

theorem isDraft_recordRubricResult (store : ChartStore F) (chart : Text) (passed : Bool) (n : Text) :
    (store.recordRubricResult chart passed).1.isDraft n = (store.isDraft n && !(decide (n = chart) && passed)) := by
  have hdraft := store.draft_healthOf chart
  unfold recordRubricResult
  by_cases h : n = chart
  · subst h
    cases passed with
    | true => simp [isDraft]
    | false =>
      rw [if_neg Bool.false_ne_true]
      dsimp only
      split <;> simp [isDraft] <;> exact hdraft
  · cases passed with
    | true => simp [isDraft, h]
    | false =>
      rw [if_neg Bool.false_ne_true]
      dsimp only
      split <;> simp [isDraft, h]

theorem isDraft_recordRun (store : ChartStore F) (chart : Text) (summary : ChartExecutionSummary N) (n : Text) :
    (store.recordRun chart summary).isDraft n =
      (store.isDraft n && !(decide (n = chart) && (store.get chart).isSome && !summary.rubricRejected)) := by
  unfold recordRun
  split
  · next hstored => rw [isDraft_recordRubricResult, hstored, Bool.and_true]
  · next hnot => rw [Bool.eq_false_iff.mpr hnot, Bool.and_false, Bool.false_and, Bool.not_false, Bool.and_true]

def DraftsStored (store : ChartStore F) : Prop := ∀ n, store.isDraft n = true → n ∈ store.charts

section Upsert

variable [Debug Text] {num : Numbers N F} {store store' : ChartStore F} {chart : ChartDef F}

theorem upsert_ok (h : store.upsert num chart = .ok store') :
    store' = { store.resetHealth chart.name with charts := store.charts.insert chart.name chart } := by
  obtain ⟨-, -, h⟩ := bind_ok h
  exact (Except.ok.inj h).symm

theorem upsertIdempotent_ok {hit : Except ChartError (Option (Text × Bool))} {outcome : UpsertOutcome}
    (h : store.upsertIdempotent num hit chart = .ok (store', outcome)) :
    ∃ name, store' = { store.markDraft name with charts := store.charts.insert name { chart with name := name } } := by
  obtain ⟨-, -, h⟩ := bind_ok h
  obtain ⟨hit, -, h⟩ := bind_ok h
  split at h
  · next existing _ _ =>
    obtain ⟨-, -, h⟩ := bind_ok h
    obtain ⟨rfl, -⟩ := Prod.mk.inj (Except.ok.inj h)
    exact ⟨existing, rfl⟩
  · obtain ⟨rfl, -⟩ := Prod.mk.inj (Except.ok.inj h)
    exact ⟨chart.name, rfl⟩

end Upsert

end ChartStore

section History

variable [DecidableEq K] [Debug Text]

structure ChartRun (N F K : Type) [DecidableEq K] [Debug Text] where
  chart : ChartDef F
  entities : List (Entity N)
  hash : HashOrder Text
  env : Surroundings N F K
  cache : Option (RubricCache K)
  plan : ChartExecutionPlan F
  compiled : ChartExecutionPlan.compile env.num hash entities chart = .ok plan
  oneEventEach : env.OneEventEach

namespace ChartRun

def fuel (run : ChartRun N F K) : ℕ := run.plan.targets.length + 1

def EndsIn (run : ChartRun N F K) (st : Execution N K) : Prop := run.plan.run run.env run.cache run.fuel = some (.ok st)

theorem plan_compiled (run : ChartRun N F K) : run.plan.Compiled := by
  obtain ⟨hfrom, hrunnable⟩ := ChartExecutionPlan.compile_ok run.compiled
  exact ChartExecutionPlan.compiled_of_forall₂ hfrom hrunnable

theorem exists_endsIn (run : ChartRun N F K) : ∃ st, run.EndsIn st := by
  obtain ⟨st, graph, hrun, -⟩ := ChartExecutionPlan.exists_run run.plan_compiled run.oneEventEach run.cache
  exact ⟨st, hrun _ (Nat.lt_succ_self _)⟩

end ChartRun

inductive StoreOp (N F K : Type) [DecidableEq K] [Debug Text] where
  | upsert (chart : ChartDef F)
  | upsertIdempotent (hit : Except ChartError (Option (Text × Bool))) (chart : ChartDef F)
  | execute (run : ChartRun N F K)

namespace ChartStore

def step (num : Numbers N F) (store : ChartStore F) : StoreOp N F K → ChartStore F
  | .upsert chart =>
    match store.upsert num chart with
    | .ok store => store
    | .error _ => store
  | .upsertIdempotent hit chart =>
    match store.upsertIdempotent num hit chart with
    | .ok (store, _) => store
    | .error _ => store
  | .execute run =>
    match run.plan.execute run.env run.cache run.fuel with
    | some (.ok summary) => store.recordRun run.plan.chartName summary
    | _ => store

theorem step_of_execute (num : Numbers N F) (store : ChartStore F) {run : ChartRun N F K}
    {summary : ChartExecutionSummary N} (h : run.plan.execute run.env run.cache run.fuel = some (.ok summary)) :
    store.step num (.execute run) = store.recordRun run.plan.chartName summary := by
  rw [step, h]

theorem step_execute (num : Numbers N F) (store : ChartStore F) {run : ChartRun N F K} {st : Execution N K}
    (h : run.EndsIn st) :
    store.step num (.execute run) = store.recordRun run.plan.chartName (run.plan.summarize run.env st) := by
  refine step_of_execute num store ?_
  rw [ChartExecutionPlan.execute, show run.plan.run run.env run.cache run.fuel = _ from h]
  rfl

theorem step_cases (num : Numbers N F) (store : ChartStore F) (op : StoreOp N F K) :
    store.step num op = store ∨
      (∃ chart, op = .upsert chart ∧ store.step num op =
        { store.resetHealth chart.name with charts := store.charts.insert chart.name chart }) ∨
      (∃ hit chart name, op = .upsertIdempotent hit chart ∧ store.step num op =
        { store.markDraft name with charts := store.charts.insert name { chart with name := name } }) ∨
      ∃ run st, op = .execute run ∧ run.EndsIn st ∧
        store.step num op = store.recordRun run.plan.chartName (run.plan.summarize run.env st) := by
  cases op with
  | upsert chart =>
    rw [step]
    split
    · next store' hok => exact .inr (.inl ⟨chart, rfl, upsert_ok hok⟩)
    · exact .inl rfl
  | upsertIdempotent hit chart =>
    rw [step]
    split
    · next store' outcome hok =>
      obtain ⟨name, hstore⟩ := upsertIdempotent_ok hok
      exact .inr (.inr (.inl ⟨hit, chart, name, rfl, hstore⟩))
    · exact .inl rfl
  | execute run =>
    obtain ⟨st, hst⟩ := run.exists_endsIn
    exact .inr (.inr (.inr ⟨run, st, rfl, hst, step_execute num store hst⟩))

omit [DecidableEq K] [Debug Text] in
theorem charts_recordRun (store : ChartStore F) (chart : Text) (summary : ChartExecutionSummary N) :
    (store.recordRun chart summary).charts = store.charts := by
  unfold recordRun recordRubricResult
  dsimp only
  repeat' split
  all_goals rfl

theorem step_draftsStored (num : Numbers N F) (store : ChartStore F) (op : StoreOp N F K) (h : store.DraftsStored) :
    (store.step num op).DraftsStored := by
  intro n hn
  rcases step_cases num store op with heq | ⟨chart, -, heq⟩ | ⟨hit, chart, name, -, heq⟩ | ⟨run, st, -, -, heq⟩
  · rw [heq] at hn ⊢
    exact h n hn
  · rw [heq] at hn ⊢
    change (store.resetHealth chart.name).isDraft n = true at hn
    rw [isDraft_resetHealth, Bool.and_eq_true] at hn
    exact Finmap.mem_insert.mpr (.inr (h n hn.2))
  · rw [heq] at hn ⊢
    change (store.markDraft name).isDraft n = true at hn
    rw [isDraft_markDraft, Bool.or_eq_true, decide_eq_true_eq] at hn
    exact Finmap.mem_insert.mpr (hn.imp_right (h n))
  · rw [heq] at hn ⊢
    rw [isDraft_recordRun, Bool.and_eq_true] at hn
    rw [charts_recordRun]
    exact h n hn.1

def MayPromote (name : Text) : StoreOp N F K → Prop
  | .upsert chart => chart.name = name
  | .upsertIdempotent .. => False
  | .execute run => run.plan.chartName = name ∧ ∃ st, run.EndsIn st ∧ run.plan.Validated run.env st

def KeepsDrafts (num : Numbers N F) (store : ChartStore F) (op : StoreOp N F K) : Prop :=
  ∀ n, store.isDraft n = true → (store.step num op).isDraft n = false → MayPromote n op

def RunsToVerdict (store : ChartStore F) : StoreOp N F K → Prop
  | .execute run => store.isDraft run.plan.chartName = true → ∀ st, run.EndsIn st →
      (run.plan.summarize run.env st).rubricRejected = true ∨ st.UnitsCompleted ∧ run.plan.HasRubric run.env st
  | _ => True

theorem keepsDrafts_execute (num : Numbers N F) {store : ChartStore F} (hstored : store.DraftsStored)
    (run : ChartRun N F K) : store.KeepsDrafts num (.execute run) ↔ store.RunsToVerdict (.execute run) := by
  obtain ⟨st, hst⟩ := run.exists_endsIn
  have hunique : ∀ st', run.EndsIn st' → st' = st :=
    fun st' hst' => Except.ok.inj (Option.some.inj (Eq.trans (Eq.symm hst') hst))
  have hvalidated := ChartExecutionPlan.validated_iff run.plan_compiled run.oneEventEach hst
  constructor
  · intro hkeeps hdraft st' hst'
    rw [hunique st' hst']
    by_contra hnot
    rw [not_or, Bool.not_eq_true] at hnot
    have hget : (store.get run.plan.chartName).isSome = true := Finmap.lookup_isSome.mpr (hstored _ hdraft)
    have hleaves : (store.step num (.execute run)).isDraft run.plan.chartName = false := by
      rw [step_execute num store hst, isDraft_recordRun, hget, hnot.1]
      simp
    obtain ⟨-, st'', hst'', hv⟩ := hkeeps _ hdraft hleaves
    rw [hunique st'' hst''] at hv
    exact hnot.2 ((hvalidated hnot.1).mp hv)
  · intro hruns n hdraft hleaves
    rw [step_execute num store hst, isDraft_recordRun, hdraft, Bool.true_and, Bool.not_eq_false', Bool.and_eq_true,
      Bool.and_eq_true, decide_eq_true_eq, Bool.not_eq_true'] at hleaves
    obtain ⟨⟨rfl, -⟩, hrejected⟩ := hleaves
    refine ⟨rfl, st, hst, (hvalidated hrejected).mpr ((hruns hdraft st hst).resolve_left ?_)⟩
    rw [hrejected]
    exact Bool.false_ne_true

theorem keepsDrafts_iff (num : Numbers N F) (store : ChartStore F) (op : StoreOp N F K) (hstored : store.DraftsStored) :
    store.KeepsDrafts num op ↔ store.RunsToVerdict op := by
  cases op with
  | execute run => exact keepsDrafts_execute num hstored run
  | upsert chart =>
    refine iff_of_true (fun n hdraft hleaves => ?_) trivial
    rcases step_cases num store (.upsert chart : StoreOp N F K) with heq | ⟨chart', hop, heq⟩ | ⟨_, _, _, hop, -⟩ |
      ⟨_, _, hop, -⟩
    · rw [heq, hdraft] at hleaves
      cases hleaves
    · obtain rfl := StoreOp.upsert.inj hop
      rw [heq] at hleaves
      change (store.resetHealth chart.name).isDraft n = false at hleaves
      rw [isDraft_resetHealth, hdraft, Bool.and_true, decide_eq_false_iff_not, not_not] at hleaves
      exact hleaves.symm
    · cases hop
    · cases hop
  | upsertIdempotent hit chart =>
    refine iff_of_true (fun n hdraft hleaves => ?_) trivial
    rcases step_cases num store (.upsertIdempotent hit chart : StoreOp N F K) with heq | ⟨_, hop, -⟩ |
      ⟨_, _, name, -, heq⟩ | ⟨_, _, hop, -⟩
    · rw [heq, hdraft] at hleaves
      cases hleaves
    · cases hop
    · rw [heq] at hleaves
      change (store.markDraft name).isDraft n = false at hleaves
      rw [isDraft_markDraft, hdraft, Bool.or_true] at hleaves
      cases hleaves
    · cases hop

theorem drafts_kept_iff (num : Numbers N F) (ops : List (StoreOp N F K)) :
    Respects (step num) (KeepsDrafts num) (new : ChartStore F) ops ↔
      Respects (step num) RunsToVerdict (new : ChartStore F) ops := by
  refine respects_congr (step_draftsStored num) (keepsDrafts_iff num) fun n hn => ?_
  simp [new, isDraft] at hn

end ChartStore

end History

namespace Plain

def solved : ChartAuditTranscript := ⟨['q'], [⟨['s'], ['q'], [], [['o']]⟩]⟩

def extractedChart : ChartDef Unit :=
  ⟨['q'], "Auto-extracted from a solved dispatch: q".toList, 1,
    [⟨['s'], [['o'], ['s']], [], "\x7b\x7b request \x7d\x7d".toList, true, none⟩], none⟩

def extractedTargets : List (CompiledTarget Unit) :=
  [⟨⟨['s'], ['q'], "\x7b\x7b request \x7d\x7d".toList, [], [], [], [['o'], ['s']], []⟩, ['s'], true, none, []⟩]

theorem extractedChart_acyclic : ∀ n, ¬Relation.TransGen (StageEdge extractedChart) n n := by
  intro n h
  obtain ⟨_, _, target, htarget, -, name, hdep, -⟩ := Relation.TransGen.tail'_iff.mp h
  obtain rfl := List.mem_singleton.mp htarget
  cases hdep

theorem failed_run_promotes_draft :
    extractChartFromAudit plainNumbers solved = .ok extractedChart ∧ ∀ hash, ∃ run : ChartRun Unit Unit Unit,
      run.chart = extractedChart ∧ run.hash = hash ∧
        let store := ChartStore.new.step plainNumbers (.upsertIdempotent (.ok none) extractedChart : StoreOp Unit Unit Unit)
        store.isDraft ['q'] = true ∧ store.isExcludedFromSelection ['q'] = true ∧
          (∃ summary, run.plan.execute run.env run.cache run.fuel = some (.ok summary) ∧ summary.accepted = false) ∧
          (store.step plainNumbers (.execute run)).isExcludedFromSelection ['q'] = false := by
  refine ⟨rfl, fun hash => ?_⟩
  obtain ⟨order, hcompile⟩ : ∃ order, ChartExecutionPlan.compile plainNumbers hash [] extractedChart =
      .ok ⟨['q'], none, extractedTargets, order⟩ :=
    ChartExecutionPlan.exists_compile rfl (by decide) extractedChart_acyclic hash
  obtain ⟨summary, hsummary, haccepted, hrejected⟩ : ∃ summary,
      ChartExecutionPlan.execute ⟨['q'], none, extractedTargets, order⟩ failing none 2 = some (.ok summary) ∧
        summary.accepted = false ∧ summary.rubricRejected = false := by
    rw [ChartExecutionPlan.execute_order ⟨['q'], none, extractedTargets, []⟩ failing order]
    exact ⟨_, rfl, by decide +kernel, by decide +kernel⟩
  refine ⟨⟨extractedChart, [], hash, failing, none, _, hcompile, failing_oneEventEach⟩, rfl, rfl, by decide +kernel,
    by decide +kernel, ⟨summary, hsummary, haccepted⟩, ?_⟩
  rw [ChartStore.step_of_execute plainNumbers _ hsummary]
  change (ChartStore.recordRun _ ['q'] summary).isExcludedFromSelection ['q'] = false
  rw [ChartStore.recordRun, hrejected]
  decide +kernel

end Plain

end Fluent.Router.Charts
