import Fluent.Library.GreedyOrder
import Fluent.Router.Charts.Waves

namespace Fluent.Router.Charts

open Fluent.Library
open Fluent.Spacy (Text)
open Fluent.CommonCore (LoadCache)
open Fluent.Dag (DependencyGraph Debug)

variable {N F K : Type} [DecidableEq K] {chart : ChartDef F}

def ChartDef.DeclaredInOrder (chart : ChartDef F) : Prop :=
  ∀ p n, StageEdge chart p n → Before (chart.targets.map ChartTarget.name) p n

namespace ChartExecutionPlan

variable {plan : ChartExecutionPlan F} {env : Surroundings N F K}

structure ReportedInOrder (chart : ChartDef F) (st : Execution N K) (summary : ChartExecutionSummary N) (order : List Text)
    (last : Text) : Prop where
  decisions : List.Forall₂ (fun name decision => st.completed.lookup name = some decision) order summary.completed
  mem_iff : ∀ n, n ∈ order ↔ n ∈ st.completed
  inOrder : ∀ a b, Before order a b → ¬Relation.TransGen (StageEdge chart) b a
  last_mem : last ∈ order
  output : summary.finalOutput = (st.completed.lookup last).bind outputOf
  final : ∀ n ∈ order, ¬Relation.TransGen (StageEdge chart) last n

theorem summarize_finalOutput (st : Execution N K) :
    (plan.summarize env st).finalOutput = (plan.summarize env st).completed.getLast?.bind outputOf := by
  unfold summarize
  dsimp only
  split <;> rfl

omit [DecidableEq K] in
theorem filterMap_lookup_filter (completed : HashMap Text (StageDecision N)) (names : List Text) :
    (names.filter (· ∈ completed)).filterMap completed.lookup = names.filterMap completed.lookup := by
  rw [List.filterMap_filter]
  refine List.filterMap_congr fun n _ => ?_
  split
  · rfl
  · next hn => exact (Finmap.lookup_eq_none.mpr (by simpa using hn)).symm

omit [DecidableEq K] in
theorem before_of_transGen {names : List Text} (hnodup : names.Nodup) {R : Text → Text → Prop}
    (hbefore : ∀ p n, R p n → Before names p n) {p n : Text} (h : Relation.TransGen R p n) : Before names p n := by
  induction h with
  | single hedge => exact hbefore _ _ hedge
  | tail _ hedge ih => exact ih.trans hnodup (hbefore _ _ hedge)

theorem reportedInOrder_of_declared (hnodup : (chart.targets.map ChartTarget.name).Nodup)
    (hnames : plan.names = chart.targets.map ChartTarget.name) (hdeclared : chart.DeclaredInOrder) {st : Execution N K}
    (hnamed : ∀ n, n ∈ st.completed → n ∈ plan.names) (hsome : ∃ n, n ∈ st.completed) :
    ∃ order last, ReportedInOrder chart st (plan.summarize env st) order last := by
  have hchain : ∀ {a b}, Before (plan.names.filter (· ∈ st.completed)) a b → ¬Relation.TransGen (StageEdge chart) b a := by
    intro a b hab hback
    have hab := hab.of_filter
    rw [hnames] at hab
    exact Before.irrefl hnodup (hab.trans hnodup (before_of_transGen hnodup hdeclared hback))
  have hmem : ∀ n, n ∈ plan.names.filter (· ∈ st.completed) ↔ n ∈ st.completed := by
    intro n
    rw [List.mem_filter, decide_eq_true_eq]
    exact and_iff_right_of_imp (hnamed n)
  obtain ⟨init, last, horder⟩ : ∃ init last, plan.names.filter (· ∈ st.completed) = init ++ [last] := by
    refine (List.eq_nil_or_concat' _).resolve_left fun hnil => ?_
    obtain ⟨n, hn⟩ := hsome
    have hin := (hmem n).mpr hn
    rw [hnil] at hin
    cases hin
  have hlast : last ∈ plan.names.filter (· ∈ st.completed) := by simp [horder]
  obtain ⟨decision, hdecision⟩ := Option.isSome_iff_exists.mp (Finmap.lookup_isSome.mpr ((hmem last).mp hlast))
  refine ⟨_, last, ⟨?_, hmem, fun _ _ => hchain, hlast, ?_, fun n hn hup => ?_⟩⟩
  · rw [summarize_completed]
    exact forall₂_lookup st.completed plan.names
  · rw [summarize_finalOutput, summarize_completed, ← filterMap_lookup_filter, horder, List.filterMap_append]
    simp [hdecision]
  · rw [horder] at hn
    rcases List.mem_append.mp hn with hinit | hself
    · exact hchain ⟨init, [], horder, hinit⟩ hup
    · rw [List.mem_singleton.mp hself] at hup
      exact Before.irrefl hnodup (before_of_transGen hnodup hdeclared hup)

section Run

variable [Debug Text]

theorem run_add {fuel : ℕ} {cache : Option (RubricCache K)} {out : Except ChartError (Execution N K)}
    (h : plan.run env cache fuel = some out) (extra : ℕ) : plan.run env cache (fuel + extra) = some out := by
  unfold run at h ⊢
  split
  · next hgraph => rwa [hgraph] at h
  · next hgraph =>
    rw [hgraph] at h
    exact runWaves_add h extra

theorem run_ok (hplan : plan.Compiled) (hbatch : env.OneEventEach) {cache : Option (RubricCache K)} {fuel : ℕ}
    {st : Execution N K} (h : plan.run env cache fuel = some (.ok st)) : ∃ graph, IsStageGraph plan.targets graph ∧
      plan.Progress env cache st ∧ (plan.ready graph st = [] ∨ plan.essentialFailed st = true) := by
  obtain ⟨st', graph, hrun, hgraph, hprogress, hend⟩ := exists_run hplan hbatch cache
  have hmore := run_add h (plan.targets.length + 1)
  rw [hrun _ (by omega)] at hmore
  obtain rfl := Except.ok.inj (Option.some.inj hmore)
  exact ⟨graph, hgraph, hprogress, hend⟩

theorem runWaves_order (plan : ChartExecutionPlan F) (env : Surroundings N F K) (order : List Text)
    (graph : DependencyGraph Text) (fuel : ℕ) (st : Execution N K) :
    runWaves { plan with order := order } env graph fuel st = plan.runWaves env graph fuel st := by
  induction fuel generalizing st with
  | zero => rfl
  | succ fuel ih =>
    have hready : ready { plan with order := order } graph st = plan.ready graph st := rfl
    have hwave : ∀ ready, runWave { plan with order := order } env st ready = plan.runWave env st ready := fun _ => rfl
    have hessential : ∀ st : Execution N K, essentialFailed { plan with order := order } st = plan.essentialFailed st :=
      fun _ => rfl
    rw [runWaves, runWaves]
    simp only [hready, hwave, hessential, ih]

theorem execute_order (plan : ChartExecutionPlan F) (env : Surroundings N F K) (order : List Text)
    (cache : Option (RubricCache K)) (fuel : ℕ) :
    execute { plan with order := order } env cache fuel = plan.execute env cache fuel := by
  have hrun : run { plan with order := order } env cache fuel = plan.run env cache fuel := by
    unfold run
    simp only [runWaves_order]
  have hsummarize : ∀ st : Execution N K, summarize { plan with order := order } env st = plan.summarize env st :=
    fun _ => rfl
  simp only [execute, hrun, funext hsummarize]

def completing (num : Numbers N F) (key : K) : Surroundings N F K :=
  ⟨num, ⟨none, fun _ _ => key⟩, fun ready _ => ⟨ready.map fun t => .completed t.name ⟨t.name, .null⟩, [], [], []⟩⟩

omit [DecidableEq K] [Debug Text] in
theorem completing_oneEventEach (num : Numbers N F) (key : K) : (completing num key).OneEventEach := by
  intro ready completed
  simp [completing, SupervisedBatchSummary.events, Function.comp_def, SupervisedBatchEvent.name]

structure AllCompleted (key : K) (st : Execution N K) : Prop where
  failed : st.failed = ∅
  reason : ∀ name decision, st.completed.lookup name = some decision → decision.reason = name
  known : ∃ known, st.cache = some known ∧ known.lookup key = some ()

omit [Debug Text] in
theorem checkRubric_known {num : Numbers N F} {gate : Gate N F K} {known : RubricCache K} {rubric : ChartRubric F}
    {output : Json N} (h : known.lookup (gate.key rubric output) = some ()) (owner : Text) :
    checkRubric num gate (some known) rubric output owner =
      (⟨true, "rubric gate passed (cached)".toList, none, false⟩, some (known.insert (gate.key rubric output) ())) := by
  rw [checkRubric, LoadCache.get, h]

omit [Debug Text] in
theorem AllCompleted.complete {key : K} {st : Execution N K} (h : AllCompleted key st) (name : Text)
    {known : RubricCache K} (hknown : known.lookup key = some ()) :
    AllCompleted key (plan.complete { st with cache := some known } name ⟨name, .null⟩) := by
  refine ⟨h.failed, fun n decision hlookup => ?_, known, rfl, hknown⟩
  change (st.completed.insert name _).lookup n = _ at hlookup
  rw [HashMap.lookup_insert_ite] at hlookup
  split at hlookup
  · next heq =>
    obtain rfl := Option.some.inj hlookup
    exact heq.symm
  · exact h.reason n decision hlookup

omit [Debug Text] in
theorem AllCompleted.processEvent {num : Numbers N F} {key : K} {st : Execution N K} (h : AllCompleted key st)
    (name : Text) : AllCompleted key (plan.processEvent (completing num key) st (.completed name ⟨name, .null⟩)) := by
  obtain ⟨known, hcache, hknown⟩ := h.known
  rw [ChartExecutionPlan.processEvent]
  split
  · exact h
  · split
    · have hcomplete : AllCompleted key (plan.complete { st with cache := some known } name _) := h.complete name hknown
      rwa [← hcache] at hcomplete
    · rw [hcache, checkRubric_known hknown]
      exact h.complete name (LoadCache.lookup_insert_self _ _ _)

omit [Debug Text] in
theorem AllCompleted.eq_map_reason {key : K} {st : Execution N K} (h : AllCompleted key st) {order : List Text}
    {decisions : List (StageDecision N)}
    (hlookup : List.Forall₂ (fun name decision => st.completed.lookup name = some decision) order decisions) :
    order = decisions.map StageDecision.reason := by
  rw [← List.forall₂_eq_eq_eq, List.forall₂_map_right_iff]
  exact hlookup.imp fun name decision hdecision => (h.reason name decision hdecision).symm

theorem exists_completing_run (hplan : plan.Compiled) (num : Numbers N F) (key : K) :
    ∃ cache fuel st, plan.run (completing num key) cache fuel = some (.ok st) ∧ AllCompleted key st ∧
      ∀ n ∈ plan.names, n ∈ st.completed := by
  let known : RubricCache K := (LoadCache.new 1 Nat.one_pos).insert key ()
  obtain ⟨st, graph, hrun, hgraph, -, hend⟩ := exists_run hplan (completing_oneEventEach num key) (some known)
  have hok := hrun _ (Nat.lt_succ_self _)
  have hall : AllCompleted key st := by
    refine run_keeps (fun st ready h => ?_) hok
      ⟨rfl, fun n decision hlookup => ?_, known, rfl, LoadCache.lookup_insert_self _ _ _⟩
    · refine List.foldlRecOn _ _ ⟨h.failed, h.reason, h.known⟩ fun st h e he => ?_
      simp only [completing, SupervisedBatchSummary.events, List.append_nil, List.mem_map] at he
      obtain ⟨t, -, rfl⟩ := he
      exact h.processEvent t.name
    · cases (Finmap.lookup_empty n).symm.trans hlookup
  exact ⟨_, _, st, hok, hall, fun n hn => completed_of_no_failure hplan hgraph hend hall.failed hn⟩

theorem reported_in_order_iff [Inhabited K] {num : Numbers N F} {hash : HashOrder Text} {entities : List (Entity N)}
    (hcompile : compile num hash entities chart = .ok plan) :
    (∀ env : Surroundings N F K, env.OneEventEach → ∀ cache fuel st, plan.run env cache fuel = some (.ok st) →
      (∃ n, n ∈ st.completed) → ∃ order last, ReportedInOrder chart st (plan.summarize env st) order last) ↔
      chart.DeclaredInOrder := by
  obtain ⟨hfrom, hrunnable⟩ := compile_ok hcompile
  have hplan := compiled_of_forall₂ hfrom hrunnable
  have hnames : plan.names = chart.targets.map ChartTarget.name := map_name_compiled hfrom
  constructor
  · intro hall p n hedge
    have hup : Upstream plan.targets p n := (upstream_compiled_iff hfrom p n).mpr hedge
    have hp := hplan.resolved p n hup
    have hn : n ∈ plan.names := by
      obtain ⟨t, ht, rfl, -⟩ := hup
      exact List.mem_map_of_mem ht
    have hne : p ≠ n := by
      rintro rfl
      exact hplan.acyclic p (.single hup)
    obtain ⟨cache, fuel, st, hrun, hst, hdone⟩ := exists_completing_run hplan num (default : K)
    obtain ⟨order, last, hreport⟩ :=
      hall _ (completing_oneEventEach num default) cache fuel st hrun ⟨n, hdone n hn⟩
    have horder : order = plan.names := by
      have hdecisions := hreport.decisions
      rw [summarize_completed] at hdecisions
      have hwhole : plan.names.filter (· ∈ st.completed) = plan.names :=
        List.filter_eq_self.mpr fun n hn => decide_eq_true (hdone n hn)
      rw [← hwhole, hst.eq_map_reason hdecisions, ← hst.eq_map_reason (forall₂_lookup st.completed plan.names)]
    rw [← hnames]
    refine (Before.total hp hn hne).resolve_right fun hbefore => ?_
    exact hreport.inOrder n p (horder ▸ hbefore) (.single hedge)
  · intro hdeclared env hbatch cache fuel st hrun hsome
    obtain ⟨graph, -, h, -⟩ := run_ok hplan hbatch hrun
    exact reportedInOrder_of_declared (hnames ▸ hplan.nodup) hnames hdeclared
      (fun n hn => h.named n ((h.settled n).mp (.inl hn))) hsome

end Run

end ChartExecutionPlan

namespace Plain

def naming : Surroundings Unit Unit Unit :=
  ⟨plainNumbers, ⟨none, fun _ _ => ()⟩,
    fun ready _ => ⟨ready.map fun t => .completed t.name ⟨t.name, .object [(chartOutputMetaKey, .string t.name)]⟩,
      [], [], []⟩⟩

def reversedChart : ChartDef Unit :=
  ⟨['c'], [], 1, [⟨['b'], [['o']], [.capability ['a']], ['p'], false, none⟩, ⟨['a'], [], [], ['p'], false, none⟩], none⟩

theorem reversedChart_edge {p n : Text} (h : StageEdge reversedChart p n) : p = ['a'] ∧ n = ['b'] := by
  obtain ⟨target, htarget, rfl, name, hdep, hlookup, -⟩ := h
  have hprovider : (providerOf reversedChart).lookup ['a'] = some ['a'] := by decide
  rcases List.mem_cons.mp htarget with rfl | htarget
  · obtain rfl := DepSpec.capability.inj (List.mem_singleton.mp hdep)
    exact ⟨(Option.some.inj (hprovider.symm.trans hlookup)).symm, rfl⟩
  · obtain rfl := List.mem_singleton.mp htarget
    cases hdep

theorem pair_reported_in_order :
    pairChart.DeclaredInOrder ∧ ∀ hash, ∃ plan, ChartExecutionPlan.compile plainNumbers hash [] pairChart = .ok plan ∧
      ∀ env : Surroundings Unit Unit Unit, env.OneEventEach → ∀ cache fuel st,
        plan.run env cache fuel = some (.ok st) → (∃ n, n ∈ st.completed) →
          ∃ order last, ChartExecutionPlan.ReportedInOrder pairChart st (plan.summarize env st) order last := by
  have hdeclared : pairChart.DeclaredInOrder := by
    intro p n hedge
    obtain ⟨rfl, rfl⟩ := pairChart_edge hedge
    exact ⟨[['a']], [], rfl, List.mem_singleton_self _⟩
  refine ⟨hdeclared, fun hash => ?_⟩
  obtain ⟨order, hcompile⟩ := pairChart_compile hash
  exact ⟨_, hcompile, (ChartExecutionPlan.reported_in_order_iff hcompile).mpr hdeclared⟩

def reversedTargets : List (CompiledTarget Unit) :=
  [⟨⟨['b'], ['c'], ['p'], [.capability ['a']], [['a']], [['a']], [['o'], ['b']], [['a']]⟩, ['b'], false, none, [['a']]⟩,
    ⟨⟨['a'], ['c'], ['p'], [], [], [], [['a']], []⟩, ['a'], false, none, []⟩]

theorem intermediate_output_reported :
    StageEdge reversedChart ['a'] ['b'] ∧ ∀ hash, ∃ plan,
      ChartExecutionPlan.compile plainNumbers hash [] reversedChart = .ok plan ∧
        (plan.execute naming none 3).map (fun out => out.map fun summary =>
          (summary.completed.map StageDecision.reason, summary.finalOutput.bind Json.asStr)) =
            some (.ok ([['b'], ['a']], some ['a'])) := by
  refine ⟨⟨_, List.mem_cons_self, rfl, ['a'], List.mem_cons_self, by decide, by decide⟩, fun hash => ?_⟩
  have hacyclic := acyclic_of_one_edge (by decide) fun _ _ => reversedChart_edge
  obtain ⟨order, hcompile⟩ : ∃ order, ChartExecutionPlan.compile plainNumbers hash [] reversedChart =
      .ok ⟨['c'], none, reversedTargets, order⟩ := ChartExecutionPlan.exists_compile rfl (by decide) hacyclic hash
  refine ⟨_, hcompile, ?_⟩
  rw [ChartExecutionPlan.execute_order ⟨['c'], none, reversedTargets, []⟩ naming order]
  decide +kernel

end Plain

end Fluent.Router.Charts
