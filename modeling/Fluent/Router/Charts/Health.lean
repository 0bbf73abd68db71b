import Fluent.Router.Charts.Store

namespace Fluent.Router.Charts

open Fluent.Library
open Fluent.Spacy (Text)
open Fluent.Dag (Debug)

variable {N F K : Type}

structure ChartLog where
  draft : Bool
  verdicts : List Bool

namespace ChartLog

def record (passed : Bool) (log : ChartLog) : ChartLog := { log with verdicts := passed :: log.verdicts }

def Demoted (log : ChartLog) : Prop := List.replicate chartStaleFails false <:+: log.verdicts

instance (log : ChartLog) : Decidable log.Demoted := inferInstanceAs (Decidable (_ <:+: _))

def health (log : ChartLog) : ChartHealth where
  draft := log.draft && !log.verdicts.contains true
  staleFailures := (log.verdicts.takeWhile (!·)).length
  demoted := decide log.Demoted

theorem replicate_prefix_iff (vs : List Bool) (n : ℕ) :
    List.replicate n false <+: vs ↔ n ≤ (vs.takeWhile (!·)).length := by
  induction vs generalizing n with
  | nil => cases n <;> simp [List.replicate_succ]
  | cons v vs ih => cases n <;> cases v <;> simp [List.replicate_succ, ih]

theorem demoted_record (log : ChartLog) (passed : Bool) :
    (log.record passed).Demoted ↔ chartStaleFails ≤ (log.record passed).health.staleFailures ∨ log.Demoted := by
  rw [Demoted, record, List.infix_cons_iff, replicate_prefix_iff]
  rfl

theorem health_passed (log : ChartLog) :
    (log.record true).health = { log.health with staleFailures := 0, draft := false } := by
  have h : (log.record true).Demoted ↔ log.Demoted :=
    (demoted_record log true).trans (or_iff_right (by simp [health, record, chartStaleFails]))
  simp [health, record, ← decide_eq_decide.mpr h]

theorem health_rejected (log : ChartLog) :
    (log.record false).health = { log.health with
      staleFailures := log.health.staleFailures + 1
      demoted := decide (chartStaleFails ≤ log.health.staleFailures + 1) || log.health.demoted } := by
  rw [health, decide_eq_decide.mpr (demoted_record log false), Bool.decide_or]
  simp [health, record]

end ChartLog

section History

variable [Debug Text] (num : Numbers N F)

def ChartStore.idempotentName (hit : Except ChartError (Option (Text × Bool))) (chart : ChartDef F) :
    Except ChartError Text := do
  checkValid num "chart".toList chart
  let hit ← hit
  match hit.filter fun (name, near) => name ≠ chart.name ∧ near with
  | some (existing, _) =>
    checkValid num "subsumed chart".toList { chart with name := existing }
    return existing
  | none => return chart.name

abbrev ChartLogs := Text → Option ChartLog

def ChartLogs.step [DecidableEq K] (logs : ChartLogs) : StoreOp N F K → ChartLogs
  | .upsert chart =>
    match checkValid num "chart".toList chart with
    | .ok _ => Function.update logs chart.name (some ⟨false, []⟩)
    | .error _ => logs
  | .upsertIdempotent hit chart =>
    match ChartStore.idempotentName num hit chart with
    | .ok name => Function.update logs name (some ⟨true, []⟩)
    | .error _ => logs
  | .execute run =>
    match run.plan.execute run.env run.cache run.fuel with
    | some (.ok summary) =>
      Function.update logs run.plan.chartName ((logs run.plan.chartName).map (.record !summary.rubricRejected))
    | _ => logs

end History

namespace ChartStore

structure Follows (store : ChartStore F) (logs : ChartLogs) : Prop where
  health : ∀ name, store.health.lookup name = (logs name).map ChartLog.health
  stored : ∀ name, (store.get name).isSome = (logs name).isSome

theorem lookup_insert_update {V W : Type} {m : HashMap Text V} {logs : Text → Option W} {f : W → V}
    (h : ∀ name, m.lookup name = (logs name).map f) (a : Text) (w : W) (name : Text) :
    (m.insert a (f w)).lookup name = (Function.update logs a (some w) name).map f := by
  rw [HashMap.lookup_insert_ite, Function.update_apply]
  split_ifs
  · rfl
  · exact h name

variable {store : ChartStore F} {logs : ChartLogs}

theorem Follows.written (h : store.Follows logs) (stored : Text) (chart : ChartDef F) (log : ChartLog) :
    Follows ⟨store.charts.insert stored chart, store.health.insert stored log.health⟩
      (Function.update logs stored (some log)) where
  health := lookup_insert_update h.health stored log
  stored name := by
    change ((store.charts.insert stored chart).lookup name).isSome = _
    rw [HashMap.lookup_insert_ite, Function.update_apply]
    split_ifs
    · rfl
    · exact h.stored name

theorem recordRubricResult_fst {name : Text} {log : ChartLog} (h : store.healthOf name = log.health) (passed : Bool) :
    (store.recordRubricResult name passed).1 =
      { store with health := store.health.insert name (log.record passed).health } := by
  unfold recordRubricResult
  rw [h]
  cases passed with
  | true => rw [if_pos rfl, ChartLog.health_passed]
  | false =>
    rw [if_neg Bool.false_ne_true, ChartLog.health_rejected]
    dsimp only
    split
    · next hstale => simp [hstale]
    · next hstale => simp [decide_eq_false hstale]

theorem Follows.recordRun (h : store.Follows logs) (chart : Text) (summary : ChartExecutionSummary N) :
    (store.recordRun chart summary).Follows
      (Function.update logs chart ((logs chart).map (.record !summary.rubricRejected))) := by
  rw [ChartStore.recordRun, h.stored]
  cases hlog : logs chart with
  | none => rwa [Option.isSome_none, if_neg Bool.false_ne_true, Option.map_none, ← hlog, Function.update_eq_self]
  | some log =>
    have hhealth : store.healthOf chart = log.health := by rw [healthOf, h.health, hlog]; rfl
    rw [Option.isSome_some, if_pos rfl, recordRubricResult_fst hhealth]
    refine ⟨lookup_insert_update h.health chart _, fun name => (h.stored name).trans ?_⟩
    by_cases hname : name = chart
    · rw [hname, hlog, Function.update_self]; rfl
    · rw [Function.update_of_ne hname]

section History

variable [DecidableEq K] [Debug Text] {num : Numbers N F}

theorem upsertIdempotent_named (store : ChartStore F) (hit : Except ChartError (Option (Text × Bool)))
    (chart : ChartDef F) :
    (store.upsertIdempotent num hit chart).map Prod.fst = (idempotentName num hit chart).map fun name =>
      { store.markDraft name with charts := store.charts.insert name { chart with name := name } } := by
  unfold upsertIdempotent idempotentName
  cases checkValid num "chart".toList chart with
  | error e => rfl
  | ok _ =>
    cases hit with
    | error e => rfl
    | ok hit =>
      dsimp only [bind, Except.bind]
      generalize hit.filter _ = near
      cases near with
      | none => rfl
      | some near =>
        dsimp only
        cases checkValid num "subsumed chart".toList { chart with name := near.1 } <;> rfl

theorem Follows.step (h : store.Follows logs) (op : StoreOp N F K) :
    (store.step num op).Follows (logs.step num op) := by
  cases op with
  | upsert chart =>
    rw [ChartStore.step, ChartLogs.step, upsert]
    cases checkValid num "chart".toList chart with
    | error e => exact h
    | ok _ => exact h.written chart.name chart ⟨false, []⟩
  | upsertIdempotent hit chart =>
    have hnamed := @upsertIdempotent_named N F _ num store hit chart
    rw [ChartStore.step, ChartLogs.step]
    cases hname : idempotentName num hit chart with
    | error e =>
      cases hstore : store.upsertIdempotent num hit chart with
      | error e => exact h
      | ok out => simp [hname, hstore, Except.map] at hnamed
    | ok name =>
      cases hstore : store.upsertIdempotent num hit chart with
      | error e => simp [hname, hstore, Except.map] at hnamed
      | ok out =>
        rw [hname, hstore] at hnamed
        dsimp only
        rw [Except.ok.inj hnamed]
        exact h.written name { chart with name := name } ⟨true, []⟩
  | execute run =>
    rw [ChartStore.step, ChartLogs.step]
    cases run.plan.execute run.env run.cache run.fuel with
    | none => exact h
    | some result =>
      cases result with
      | error e => exact h
      | ok summary => exact h.recordRun run.plan.chartName summary

theorem follows_run (ops : List (StoreOp N F K)) (h : store.Follows logs) :
    (ops.foldl (step num) store).Follows (ops.foldl (ChartLogs.step num) logs) := by
  induction ops generalizing store logs with
  | nil => exact h
  | cons op ops ih => exact ih (h.step op)

theorem health_iff_log (num : Numbers N F) (ops : List (StoreOp N F K)) (name : Text) :
    let store := ops.foldl (step num) (new : ChartStore F)
    let log := ops.foldl (ChartLogs.step num) (fun _ => none) name
    ((store.get name).isSome ↔ log.isSome) ∧
      (store.isDraft name = true ↔ ∃ l, log = some l ∧ l.draft = true ∧ true ∉ l.verdicts) ∧
      (store.isDemoted name = true ↔ ∃ l, log = some l ∧ List.replicate chartStaleFails false <:+: l.verdicts) := by
  intro store log
  have h : store.Follows (ops.foldl (ChartLogs.step num) fun _ => none) :=
    follows_run ops ⟨fun _ => rfl, fun _ => rfl⟩
  have hhealth : store.health.lookup name = log.map ChartLog.health := h.health name
  refine ⟨by rw [h.stored], ?_, ?_⟩
  · rw [isDraft, hhealth]
    cases log <;> simp [ChartLog.health]
  · rw [isDemoted, hhealth]
    cases log with
    | none => simp
    | some l =>
      simp only [Option.map_some, Option.any_some, Option.some.injEq, exists_eq_left']
      exact decide_eq_true_iff

end History

end ChartStore

end Fluent.Router.Charts
