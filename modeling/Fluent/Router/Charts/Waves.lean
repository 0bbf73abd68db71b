import Mathlib.Order.WellFoundedSet
import Fluent.Router.Charts.Stage
import Fluent.Router.Charts.Execute

namespace Fluent.Router.Charts

open Fluent.Library
open Fluent.Spacy (Text)
open Fluent.Dag (DependencyGraph Debug)

variable {N F K : Type} [DecidableEq K]

def Surroundings.OneEventEach (env : Surroundings N F K) : Prop :=
  ∀ ready completed, ((env.batch ready completed).events.map SupervisedBatchEvent.name).Perm
    (ready.map CompiledTarget.name)

namespace ChartExecutionPlan

variable {plan : ChartExecutionPlan F} {env : Surroundings N F K}

def names (plan : ChartExecutionPlan F) : List Text := plan.targets.map CompiledTarget.name

structure Compiled (plan : ChartExecutionPlan F) : Prop where
  nodup : plan.names.Nodup
  resolved : ∀ p n, Upstream plan.targets p n → p ∈ plan.names
  acyclic : ∀ n, ¬Relation.TransGen (Upstream plan.targets) n n
  stageName : ∀ t ∈ plan.targets, t.stage.name = t.name

omit [DecidableEq K] in
theorem find_some {name : Text} {t : CompiledTarget F} (h : plan.targets.find? (·.name = name) = some t) :
    t ∈ plan.targets ∧ t.name = name :=
  ⟨List.mem_of_find?_eq_some h, by simpa using List.find?_some h⟩

omit [DecidableEq K] in
theorem exists_find {name : Text} (h : name ∈ plan.names) : ∃ t, plan.targets.find? (·.name = name) = some t := by
  obtain ⟨t, ht, rfl⟩ := List.mem_map.mp h
  rw [← Option.isSome_iff_exists, List.find?_isSome]
  exact ⟨t, ht, decide_eq_true rfl⟩

def gateOf (plan : ChartExecutionPlan F) (env : Surroundings N F K) (cache : Option (RubricCache K)) (name : Text)
    (decision : StageDecision N) : Bool × Option (RubricCache K) :=
  match (plan.targets.find? (·.name = name)).bind CompiledTarget.rubric with
  | none => (true, cache)
  | some rubric =>
    let r := checkRubric env.num env.gate cache rubric ((outputOf decision).getD .null) name
    (r.1.accepted, r.2)

/-- The decision that an event completes its target with, if its unit was completed and the gate accepts the output. -/
def verdict (plan : ChartExecutionPlan F) (env : Surroundings N F K) (cache : Option (RubricCache K)) :
    SupervisedBatchEvent N → Option (StageDecision N) × Option (RubricCache K)
  | .completed name decision =>
    let gate := plan.gateOf env cache name decision
    (if gate.1 then some decision else none, gate.2)
  | _ => (none, cache)

def cacheAfter (plan : ChartExecutionPlan F) (env : Surroundings N F K) (cache : Option (RubricCache K))
    (events : List (SupervisedBatchEvent N)) : Option (RubricCache K) :=
  events.foldl (fun cache e => (plan.verdict env cache e).2) cache

def verdicts (plan : ChartExecutionPlan F) (env : Surroundings N F K) (cache : Option (RubricCache K)) :
    List (SupervisedBatchEvent N) → List (Text × Option (StageDecision N))
  | [] => []
  | e :: events => (e.name, (plan.verdict env cache e).1) :: verdicts plan env (plan.verdict env cache e).2 events

theorem verdicts_append (plan : ChartExecutionPlan F) (env : Surroundings N F K) (cache : Option (RubricCache K))
    (events more : List (SupervisedBatchEvent N)) :
    plan.verdicts env cache (events ++ more) =
      plan.verdicts env cache events ++ plan.verdicts env (plan.cacheAfter env cache events) more := by
  induction events generalizing cache with
  | nil => rfl
  | cons e events ih => exact congrArg (_ :: ·) (ih _)

inductive Outcome (plan : ChartExecutionPlan F) (env : Surroundings N F K) (st : Execution N K)
    (e : SupervisedBatchEvent N) : Execution N K → Prop
  | unknown : e.name ∉ plan.names → e.isCompleted = true → Outcome plan env st e st
  | promoted {decision : StageDecision N} : e.isCompleted = true → (plan.verdict env st.cache e).1 = some decision →
      Outcome plan env st e (plan.complete { st with cache := (plan.verdict env st.cache e).2 } e.name decision)
  | rejected {reason : Text} : e.isCompleted = true → (∃ t ∈ plan.targets, t.rubric.isSome = true) →
      (plan.verdict env st.cache e).1 = none →
      Outcome plan env st e (plan.fail { st with cache := (plan.verdict env st.cache e).2 } e.name .rubricRejected reason)
  | fault {reason : Text} {tag : ChartTargetVerdict} : e.isCompleted = false → tag ≠ .rubricRejected →
      plan.verdict env st.cache e = (none, st.cache) → Outcome plan env st e (plan.fail st e.name tag reason)

theorem processEvent_outcome (plan : ChartExecutionPlan F) (env : Surroundings N F K) (st : Execution N K)
    (e : SupervisedBatchEvent N) : plan.Outcome env st e (plan.processEvent env st e) := by
  cases e with
  | failed name error => exact .fault rfl (by decide) rfl
  | panicked name info => exact .fault rfl (by decide) rfl
  | cancelled name => exact .fault rfl (by decide) rfl
  | completed name decision =>
    rw [processEvent]
    split
    · next hfind =>
      refine .unknown (fun hname => ?_) rfl
      obtain ⟨t, ht⟩ := exists_find (show name ∈ plan.names from hname)
      rw [ht] at hfind
      cases hfind
    · next target hfind =>
      obtain ⟨hmem, htarget⟩ := find_some hfind
      split
      · next hrubric =>
        have hgate : plan.gateOf env st.cache name decision = (true, st.cache) := by
          rw [gateOf, hfind, Option.bind_some, hrubric]
        have hverdict : plan.verdict env st.cache (.completed name decision) = (some decision, st.cache) := by
          rw [verdict, hgate]
          rfl
        have hout : plan.Outcome env st (.completed name decision) _ := .promoted rfl (congrArg Prod.fst hverdict)
        rwa [hverdict] at hout
      · next rubric hrubric =>
        have hgate : plan.gateOf env st.cache name decision =
            ((checkRubric env.num env.gate st.cache rubric ((outputOf decision).getD .null) name).1.accepted,
              (checkRubric env.num env.gate st.cache rubric ((outputOf decision).getD .null) name).2) := by
          rw [gateOf, hfind, Option.bind_some, hrubric]
        dsimp only
        split
        · next haccepted =>
          have hverdict : plan.verdict env st.cache (.completed name decision) = (some decision,
              (checkRubric env.num env.gate st.cache rubric ((outputOf decision).getD .null) name).2) := by
            rw [verdict, hgate, haccepted]
            rfl
          have hout : plan.Outcome env st (.completed name decision) _ := .promoted rfl (congrArg Prod.fst hverdict)
          rwa [hverdict] at hout
        · next hrejected =>
          have hverdict : plan.verdict env st.cache (.completed name decision) = (none,
              (checkRubric env.num env.gate st.cache rubric ((outputOf decision).getD .null) name).2) := by
            rw [verdict, hgate]
            exact Prod.ext (if_neg hrejected) rfl
          have hout : plan.Outcome env st (.completed name decision) (plan.fail _ _ _
              (checkRubric env.num env.gate st.cache rubric ((outputOf decision).getD .null) name).1.reason) :=
            .rejected rfl ⟨target, hmem, by rw [hrubric]; rfl⟩ (congrArg Prod.fst hverdict)
          rwa [hverdict] at hout

structure Processed (plan : ChartExecutionPlan F) (env : Surroundings N F K) (e : SupervisedBatchEvent N)
    (st st' : Execution N K) : Prop where
  waves : st'.waves = st.waves
  cache : st'.cache = (plan.verdict env st.cache e).2
  settles : (∃ decision, (plan.verdict env st.cache e).1 = some decision ∧
        st'.completed = st.completed.insert e.name decision ∧ st'.failed = st.failed) ∨
      (plan.verdict env st.cache e).1 = none ∧ st'.completed = st.completed ∧ st'.failed = insert e.name st.failed

theorem processEvent_processed (st : Execution N K) {event : SupervisedBatchEvent N} (hname : event.name ∈ plan.names) :
    plan.Processed env event st (plan.processEvent env st event) := by
  have houtcome := processEvent_outcome plan env st event
  generalize plan.processEvent env st event = st' at houtcome
  cases houtcome with
  | unknown hnot => exact absurd hname hnot
  | promoted _ hverdict => exact ⟨rfl, rfl, .inl ⟨_, hverdict, rfl, rfl⟩⟩
  | rejected _ _ hverdict => exact ⟨rfl, rfl, .inr ⟨hverdict, rfl, rfl⟩⟩
  | fault _ _ hverdict => exact ⟨rfl, (congrArg Prod.snd hverdict).symm, .inr ⟨congrArg Prod.fst hverdict, rfl, rfl⟩⟩

def Disjoint (st : Execution N K) : Prop := ∀ n, n ∈ st.completed → n ∉ st.failed

namespace Processed

variable {e : SupervisedBatchEvent N} {st st' : Execution N K} (h : plan.Processed env e st st')

include h

theorem mem_iff (n : Text) :
    (n ∈ st'.completed ∨ n ∈ st'.failed) ↔ (n ∈ st.completed ∨ n ∈ st.failed) ∨ n = e.name := by
  rcases h.settles with ⟨decision, -, hcompleted, hfailed⟩ | ⟨-, hcompleted, hfailed⟩
  · rw [hcompleted, hfailed, Finmap.mem_insert]
    tauto
  · rw [hcompleted, hfailed, Finset.mem_insert]
    tauto

theorem grows {n : Text} (hn : n ∈ st.completed) : n ∈ st'.completed := by
  rcases h.settles with ⟨decision, -, hcompleted, -⟩ | ⟨-, hcompleted, -⟩
  · rw [hcompleted, Finmap.mem_insert]
    exact .inr hn
  · rwa [hcompleted]

theorem completed_iff (hfresh : e.name ∉ st.completed) (n : Text) (decision : StageDecision N) :
    st'.completed.lookup n = some decision ↔
      st.completed.lookup n = some decision ∨ (n, some decision) = (e.name, (plan.verdict env st.cache e).1) := by
  rcases h.settles with ⟨decision', hverdict, hcompleted, -⟩ | ⟨hverdict, hcompleted, -⟩
  · rw [hverdict, hcompleted, HashMap.lookup_insert_ite]
    by_cases hn : n = e.name
    · rw [if_pos hn, hn, Finmap.lookup_eq_none.mpr hfresh]
      simp [eq_comm]
    · simp [hn]
  · rw [hverdict, hcompleted]
    simp

theorem failed_iff (n : Text) :
    n ∈ st'.failed ↔ n ∈ st.failed ∨ (n, none) = (e.name, (plan.verdict env st.cache e).1) := by
  rcases h.settles with ⟨decision', hverdict, -, hfailed⟩ | ⟨hverdict, -, hfailed⟩
  · rw [hverdict, hfailed]
    simp
  · rw [hverdict, hfailed, Finset.mem_insert]
    simp [or_comm]

theorem disjoint (hdisjoint : Disjoint st) (hfresh : e.name ∉ st.completed ∧ e.name ∉ st.failed) : Disjoint st' := by
  intro n
  rcases h.settles with ⟨decision, -, hcompleted, hfailed⟩ | ⟨-, hcompleted, hfailed⟩
  · rw [hcompleted, hfailed, Finmap.mem_insert]
    rintro (rfl | hn)
    · exact hfresh.2
    · exact hdisjoint n hn
  · rw [hcompleted, hfailed, Finset.mem_insert]
    rintro hn (rfl | hmem)
    · exact hfresh.1 hn
    · exact hdisjoint n hn hmem

end Processed

structure Settled (plan : ChartExecutionPlan F) (env : Surroundings N F K) (events : List (SupervisedBatchEvent N))
    (st st' : Execution N K) : Prop where
  waves : st'.waves = st.waves
  cache : st'.cache = plan.cacheAfter env st.cache events
  disjoint : Disjoint st'
  grows : ∀ n, n ∈ st.completed → n ∈ st'.completed
  mem_iff : ∀ n, (n ∈ st'.completed ∨ n ∈ st'.failed) ↔
    (n ∈ st.completed ∨ n ∈ st.failed) ∨ n ∈ events.map SupervisedBatchEvent.name
  completed_iff : ∀ n decision, st'.completed.lookup n = some decision ↔
    st.completed.lookup n = some decision ∨ (n, some decision) ∈ plan.verdicts env st.cache events
  failed_iff : ∀ n, n ∈ st'.failed ↔ n ∈ st.failed ∨ (n, none) ∈ plan.verdicts env st.cache events

theorem foldl_processEvent {events : List (SupervisedBatchEvent N)} {st : Execution N K}
    (hnodup : (events.map SupervisedBatchEvent.name).Nodup) (hnames : ∀ e ∈ events, e.name ∈ plan.names)
    (hfresh : ∀ e ∈ events, e.name ∉ st.completed ∧ e.name ∉ st.failed) (hdisjoint : Disjoint st) :
    plan.Settled env events st (events.foldl (plan.processEvent env) st) := by
  induction events generalizing st with
  | nil => exact ⟨rfl, rfl, hdisjoint, fun _ => id, fun n => by simp, fun n _ => by simp [verdicts],
      fun n => by simp [verdicts]⟩
  | cons e events ih =>
    obtain ⟨hhead, htail⟩ := List.nodup_cons.mp hnodup
    obtain ⟨hname, hnames⟩ := List.forall_mem_cons.mp hnames
    obtain ⟨hnew, hfresh⟩ := List.forall_mem_cons.mp hfresh
    have hstep : plan.Processed env e st (plan.processEvent env st e) := processEvent_processed st hname
    have hfresh' : ∀ e' ∈ events, e'.name ∉ (plan.processEvent env st e).completed ∧
        e'.name ∉ (plan.processEvent env st e).failed := by
      intro e' he'
      rw [← not_or, hstep.mem_iff, not_or, not_or]
      exact ⟨hfresh e' he', fun heq => hhead (heq ▸ List.mem_map_of_mem he')⟩
    have hrest := ih htail hnames hfresh' (hstep.disjoint hdisjoint hnew)
    refine ⟨hrest.waves.trans hstep.waves, hrest.cache.trans ?_, hrest.disjoint,
      fun n hn => hrest.grows n (hstep.grows hn), fun n => ?_, fun n decision => ?_, fun n => ?_⟩
    · rw [hstep.cache]
      rfl
    · rw [List.foldl_cons, hrest.mem_iff, hstep.mem_iff, List.map_cons, List.mem_cons, or_assoc]
    · rw [List.foldl_cons, hrest.completed_iff, hstep.completed_iff hnew.1, hstep.cache, verdicts, List.mem_cons, or_assoc]
    · rw [List.foldl_cons, hrest.failed_iff, hstep.failed_iff, hstep.cache, verdicts, List.mem_cons, or_assoc]

section Ready

variable {graph : DependencyGraph Text} (hgraph : IsStageGraph plan.targets graph)

include hgraph

omit [DecidableEq K] in
theorem find_target {t : CompiledTarget F} (ht : t ∈ plan.targets) : plan.targets.find? (·.name = t.name) = some t := by
  obtain ⟨t', hfind⟩ := exists_find (List.mem_map_of_mem ht)
  obtain ⟨hmem, hname⟩ := find_some hfind
  rw [hfind, List.inj_on_of_nodup_map hgraph.nodup hmem ht hname]

omit [DecidableEq K] in
theorem isReady_iff {t : CompiledTarget F} (ht : t ∈ plan.targets) (satisfied : Finset Text) :
    graph.isReady t.name satisfied = true ↔ ∀ u ∈ t.upstreamIds, u ∈ satisfied := by
  rw [DependencyGraph.isReady, (hgraph.deps t.name t.upstreamIds).mpr ⟨t, ht, rfl, rfl⟩]
  simp

omit [DecidableEq K] in
theorem mem_ready {st : Execution N K} {t : CompiledTarget F} :
    t ∈ plan.ready graph st ↔
      t ∈ plan.targets ∧ (∀ u ∈ t.upstreamIds, u ∈ st.completed) ∧ t.name ∉ st.completed ∧ t.name ∉ st.failed := by
  simp only [ready, DependencyGraph.readyNodes, List.mem_filterMap, List.mem_filter, decide_eq_true_eq, hgraph.nodes]
  constructor
  · rintro ⟨name, ⟨⟨-, hready⟩, hfresh⟩, hfind⟩
    obtain ⟨ht, rfl⟩ := find_some hfind
    refine ⟨ht, fun u hu => Finmap.mem_keys.mp ((isReady_iff hgraph ht _).mp hready u hu), hfresh⟩
  · rintro ⟨ht, hup, hfresh⟩
    have hready := (isReady_iff hgraph ht st.completed.keys).mpr fun u hu => Finmap.mem_keys.mpr (hup u hu)
    exact ⟨t.name, ⟨⟨List.mem_map_of_mem ht, hready⟩, hfresh⟩, find_target hgraph ht⟩

omit [DecidableEq K] in
theorem map_name_ready (st : Execution N K) : (plan.ready graph st).map CompiledTarget.name =
    (graph.readyNodes st.completed.keys).filter fun name => name ∉ st.completed ∧ name ∉ st.failed := by
  have hfound : ∀ {l : List Text}, (∀ n ∈ l, n ∈ plan.names) →
      (l.filterMap fun name => plan.targets.find? (·.name = name)).map CompiledTarget.name = l := by
    intro l hl
    induction l with
    | nil => rfl
    | cons n l ih =>
      obtain ⟨hn, hrest⟩ := List.forall_mem_cons.mp hl
      obtain ⟨t, ht, rfl⟩ := List.mem_map.mp hn
      rw [List.filterMap_cons, find_target hgraph ht]
      exact congrArg (t.name :: ·) (ih hrest)
  refine hfound fun n hn => ?_
  have hnode := (List.mem_filter.mp (List.mem_filter.mp hn).1).1
  rwa [hgraph.nodes] at hnode

omit [DecidableEq K] in
theorem nodup_ready (st : Execution N K) : ((plan.ready graph st).map CompiledTarget.name).Nodup := by
  rw [map_name_ready hgraph]
  have hnodup := hgraph.nodup
  rw [← hgraph.nodes] at hnodup
  exact (hnodup.filter _).filter _

end Ready

section Run

variable [Debug Text]

omit [DecidableEq K] in
theorem exists_registered {units : List (CompiledTarget F)} (graph : DependencyGraph Text)
    (hnodup : (units.map fun t => t.stage.name).Nodup) (hfresh : ∀ t ∈ units, t.stage.name ∉ graph.deps) :
    ∃ graph', units.foldlM registerUnit graph = .ok graph' := by
  induction units generalizing graph with
  | nil => exact ⟨graph, rfl⟩
  | cons t units ih =>
    obtain ⟨hhead, htail⟩ := List.nodup_cons.mp hnodup
    obtain ⟨hnew, hfresh⟩ := List.forall_mem_cons.mp hfresh
    have hregister : graph.register t.stage.name t.stage.depends t.stage.provides = .ok _ := if_neg hnew
    rw [List.foldlM_cons, registerUnit, hregister]
    refine ih _ htail fun t' ht' => ?_
    rw [Finmap.mem_insert, not_or]
    exact ⟨fun heq => hhead (List.mem_map.mpr ⟨t', ht', heq⟩), hfresh t' ht'⟩

theorem runWave_ok {st st' : Execution N K} {ready : List (CompiledTarget F)} (h : plan.runWave env st ready = .ok st') :
    st' = (env.batch ready st.completed).events.foldl (plan.processEvent env) (openWave env st ready) := by
  obtain ⟨registry, -, h⟩ := bind_ok h
  exact (Except.ok.inj h).symm

theorem runWaves_keeps {P : Execution N K → Prop} {graph : DependencyGraph Text}
    (hwave : ∀ st ready, P st →
      P ((env.batch ready st.completed).events.foldl (plan.processEvent env) (openWave env st ready)))
    {fuel : ℕ} {st st' : Execution N K} (h : plan.runWaves env graph fuel st = some (.ok st')) (hst : P st) : P st' := by
  induction fuel generalizing st with
  | zero => cases h
  | succ fuel ih =>
    rw [runWaves] at h
    split at h
    · obtain rfl := Except.ok.inj (Option.some.inj h)
      exact hst
    · split at h
      · cases h
      · next mid hok =>
        have hnext : P mid := runWave_ok hok ▸ hwave st _ hst
        split at h
        · obtain rfl := Except.ok.inj (Option.some.inj h)
          exact hnext
        · exact ih h hnext

theorem run_keeps {P : Execution N K → Prop}
    (hwave : ∀ st ready, P st →
      P ((env.batch ready st.completed).events.foldl (plan.processEvent env) (openWave env st ready)))
    {cache : Option (RubricCache K)} {fuel : ℕ} {st : Execution N K} (h : plan.run env cache fuel = some (.ok st))
    (hstart : P (start cache)) : P st := by
  unfold run at h
  split at h
  · cases h
  · exact runWaves_keeps hwave h hstart

structure Progress (plan : ChartExecutionPlan F) (env : Surroundings N F K) (cache : Option (RubricCache K))
    (st : Execution N K) : Prop where
  disjoint : Disjoint st
  settled : ∀ n, (n ∈ st.completed ∨ n ∈ st.failed) ↔ n ∈ st.waves.flatMap Wave.registered
  once : (st.waves.flatMap Wave.registered).Nodup
  named : ∀ n ∈ st.waves.flatMap Wave.registered, n ∈ plan.names
  upstream : ∀ w ∈ st.waves, ∀ p n, n ∈ w.registered → Upstream plan.targets p n → p ∈ w.completed
  kept : ∀ w ∈ st.waves, ∀ n, n ∈ w.completed → n ∈ st.completed
  batched : ∀ w ∈ st.waves, ∃ ready, w.registered = ready.map CompiledTarget.name ∧
    w.events = (env.batch ready w.completed).events
  caches : st.cache = plan.cacheAfter env cache (st.waves.flatMap Wave.events)
  completed_iff : ∀ n decision, st.completed.lookup n = some decision ↔
    (n, some decision) ∈ plan.verdicts env cache (st.waves.flatMap Wave.events)
  failed_iff : ∀ n, n ∈ st.failed ↔ (n, none) ∈ plan.verdicts env cache (st.waves.flatMap Wave.events)
  gated : ∀ before w after, st.waves = before ++ w :: after → ∀ n decision, w.completed.lookup n = some decision ↔
    (n, some decision) ∈ plan.verdicts env cache (before.flatMap Wave.events)

omit [Debug Text] in
theorem progress_start (cache : Option (RubricCache K)) : plan.Progress env cache (start cache) where
  disjoint := fun n hn => absurd hn Finmap.notMem_empty
  settled := fun n => by simp [start, Finmap.notMem_empty]
  once := .nil
  named := fun n hn => nomatch hn
  upstream := fun w hw => nomatch hw
  kept := fun w hw => nomatch hw
  batched := fun w hw => nomatch hw
  caches := rfl
  completed_iff := fun n decision => by simp [start, verdicts, Finmap.lookup_empty]
  failed_iff := fun n => by simp [start, verdicts]
  gated := fun before w after h => by simp [start] at h

omit [DecidableEq K] [Debug Text] in
theorem completed_of_ready (hplan : plan.Compiled) {graph : DependencyGraph Text}
    (hgraph : IsStageGraph plan.targets graph) {st : Execution N K} {p n : Text}
    (hn : n ∈ (plan.ready graph st).map CompiledTarget.name) (hup : Upstream plan.targets p n) : p ∈ st.completed := by
  obtain ⟨t, ht, rfl⟩ := List.mem_map.mp hn
  obtain ⟨t', ht', hname, hp⟩ := hup
  obtain ⟨hmem, hdone, -⟩ := (mem_ready hgraph).mp ht
  obtain rfl := List.inj_on_of_nodup_map hplan.nodup ht' hmem hname
  exact hdone p hp

omit [DecidableEq K] [Debug Text] in
theorem forall_waves_openWave {P : Wave N → Prop} {st : Execution N K} {ready : List (CompiledTarget F)} :
    (∀ w ∈ (openWave env st ready).waves, P w) ↔ (∀ w ∈ st.waves, P w) ∧
      P ⟨ready.map CompiledTarget.name, st.completed, (env.batch ready st.completed).events⟩ := by
  rw [openWave, List.forall_mem_append, List.forall_mem_singleton]

theorem Progress.runWave {cache : Option (RubricCache K)} {st : Execution N K} (h : plan.Progress env cache st) (hplan : plan.Compiled)
    {graph : DependencyGraph Text} (hgraph : IsStageGraph plan.targets graph) (hbatch : env.OneEventEach) :
    ∃ st', plan.runWave env st (plan.ready graph st) = .ok st' ∧ plan.Progress env cache st' ∧
      st'.waves = (openWave env st (plan.ready graph st)).waves := by
  have hstage : (plan.ready graph st).map (fun t => t.stage.name) = (plan.ready graph st).map CompiledTarget.name :=
    List.map_congr_left fun t ht => hplan.stageName t ((mem_ready hgraph).mp ht).1
  obtain ⟨registry, hregistry⟩ := exists_registered .new (hstage ▸ nodup_ready hgraph st)
    fun _ _ => Finmap.notMem_empty
  have hready : ∀ n, n ∈ (plan.ready graph st).map CompiledTarget.name →
      n ∈ plan.names ∧ n ∉ st.completed ∧ n ∉ st.failed := by
    intro n hn
    obtain ⟨t, ht, rfl⟩ := List.mem_map.mp hn
    obtain ⟨hmem, -, hfresh⟩ := (mem_ready hgraph).mp ht
    exact ⟨List.mem_map_of_mem hmem, hfresh⟩
  have hperm := hbatch (plan.ready graph st) st.completed
  have hevent : ∀ e ∈ (env.batch (plan.ready graph st) st.completed).events,
      e.name ∈ (plan.ready graph st).map CompiledTarget.name :=
    fun e he => hperm.mem_iff.mp (List.mem_map_of_mem he)
  have hbatched : plan.Settled env _ (openWave env st (plan.ready graph st)) _ :=
    foldl_processEvent (hperm.nodup_iff.mpr (nodup_ready hgraph st)) (fun e he => (hready _ (hevent e he)).1)
      (fun e he => (hready _ (hevent e he)).2) h.disjoint
  refine ⟨_, by rw [ChartExecutionPlan.runWave, hregistry]; rfl, ?_, hbatched.waves⟩
  have hregistered : (openWave env st (plan.ready graph st)).waves.flatMap Wave.registered =
      st.waves.flatMap Wave.registered ++ (plan.ready graph st).map CompiledTarget.name := by
    simp [openWave]
  have hevents : (openWave env st (plan.ready graph st)).waves.flatMap Wave.events =
      st.waves.flatMap Wave.events ++ (env.batch (plan.ready graph st) st.completed).events := by
    simp [openWave]
  refine ⟨hbatched.disjoint, fun n => ?_, ?_, ?_, ?_, ?_, ?_, ?_, fun n decision => ?_, fun n => ?_, ?_⟩
  · rw [hbatched.mem_iff, hbatched.waves, hregistered, List.mem_append, hperm.mem_iff, ← h.settled]
    exact Iff.rfl
  · rw [hbatched.waves, hregistered]
    refine List.nodup_append'.mpr ⟨h.once, nodup_ready hgraph st, fun n hn hnew => ?_⟩
    exact not_or.mpr (hready n hnew).2 ((h.settled n).mpr hn)
  · rw [hbatched.waves, hregistered]
    intro n hn
    exact (List.mem_append.mp hn).elim (h.named n) fun hnew => (hready n hnew).1
  · rw [hbatched.waves, forall_waves_openWave]
    exact ⟨h.upstream, fun _ _ => completed_of_ready hplan hgraph⟩
  · rw [hbatched.waves, forall_waves_openWave]
    exact ⟨fun w hw n hn => hbatched.grows n (h.kept w hw n hn), hbatched.grows⟩
  · rw [hbatched.waves, forall_waves_openWave]
    exact ⟨h.batched, _, rfl, rfl⟩
  · rw [hbatched.cache, hbatched.waves, hevents]
    change plan.cacheAfter env st.cache _ = _
    rw [h.caches, cacheAfter, cacheAfter, cacheAfter, List.foldl_append]
  · rw [hbatched.completed_iff, hbatched.waves, hevents, verdicts_append, List.mem_append, ← h.completed_iff, ← h.caches]
    exact Iff.rfl
  · rw [hbatched.failed_iff, hbatched.waves, hevents, verdicts_append, List.mem_append, ← h.failed_iff, ← h.caches]
    exact Iff.rfl
  · rw [hbatched.waves]
    intro before w after heq
    rcases List.eq_nil_or_concat after with rfl | ⟨after, last, rfl⟩
    · obtain ⟨rfl, hw⟩ := List.append_inj' heq rfl
      obtain rfl := (List.cons.inj hw).1
      exact h.completed_iff
    · rw [List.concat_eq_append, ← List.cons_append, ← List.append_assoc] at heq
      exact h.gated before w after (List.append_inj' heq rfl).1

omit [Debug Text] in
theorem Progress.length_registered_le {cache : Option (RubricCache K)} {st : Execution N K} (h : plan.Progress env cache st) :
    (st.waves.flatMap Wave.registered).length ≤ plan.targets.length := by
  have hle := (h.once.subperm h.named).length_le
  rwa [names, List.length_map] at hle

theorem Progress.runWaves {cache : Option (RubricCache K)} {st : Execution N K} (h : plan.Progress env cache st) (hplan : plan.Compiled)
    {graph : DependencyGraph Text} (hgraph : IsStageGraph plan.targets graph) (hbatch : env.OneEventEach) {fuel : ℕ}
    (hfuel : plan.targets.length < fuel + (st.waves.flatMap Wave.registered).length) :
    ∃ st', plan.runWaves env graph fuel st = some (.ok st') ∧ plan.Progress env cache st' ∧
      (plan.ready graph st' = [] ∨ plan.essentialFailed st' = true) := by
  induction fuel generalizing st with
  | zero =>
    have hle := h.length_registered_le
    omega
  | succ fuel ih =>
    rw [ChartExecutionPlan.runWaves]
    split
    · next hempty => exact ⟨st, rfl, h, .inl (List.isEmpty_iff.mp hempty)⟩
    · next hsome =>
      obtain ⟨st', hwave, hprogress, hwaves⟩ := h.runWave hplan hgraph hbatch
      rw [hwave]
      dsimp only
      split
      · next hessential => exact ⟨st', rfl, hprogress, .inr hessential⟩
      · apply ih hprogress
        have hpos : 0 < (plan.ready graph st).length := List.length_pos_iff.mpr fun hnil => hsome (by rw [hnil]; rfl)
        rw [hwaves, openWave, List.flatMap_append, List.length_append]
        simp only [List.flatMap_cons, List.flatMap_nil, List.append_nil, List.length_map]
        omega

theorem runWaves_add {graph : DependencyGraph Text} {fuel : ℕ} {st : Execution N K}
    {out : Except ChartError (Execution N K)} (h : plan.runWaves env graph fuel st = some out) (extra : ℕ) :
    plan.runWaves env graph (fuel + extra) st = some out := by
  induction fuel generalizing st with
  | zero => cases h
  | succ fuel ih =>
    rw [Nat.succ_add, ChartExecutionPlan.runWaves]
    rw [ChartExecutionPlan.runWaves] at h
    split
    · next hempty => rwa [if_pos hempty] at h
    · next hsome =>
      rw [if_neg hsome] at h
      cases hwave : plan.runWave env st (plan.ready graph st) with
      | error e => rwa [hwave] at h
      | ok st' =>
        rw [hwave] at h
        dsimp only at h ⊢
        split
        · next hessential => rwa [if_pos hessential] at h
        · next hessential =>
          rw [if_neg hessential] at h
          exact ih h

omit [Debug Text] in
theorem Progress.upstream_completed {cache : Option (RubricCache K)} {st : Execution N K} (h : plan.Progress env cache st) {p n : Text}
    (hn : n ∈ st.completed ∨ n ∈ st.failed) (hup : Upstream plan.targets p n) : p ∈ st.completed := by
  obtain ⟨w, hw, hmem⟩ := List.mem_flatMap.mp ((h.settled n).mp hn)
  exact h.kept w hw p (h.upstream w hw p n hmem hup)

omit [Debug Text] in
theorem Progress.ancestor_completed {cache : Option (RubricCache K)} {st : Execution N K} (h : plan.Progress env cache st) {p n : Text}
    (hn : n ∈ st.completed ∨ n ∈ st.failed) (hup : Relation.TransGen (Upstream plan.targets) p n) : p ∈ st.completed := by
  induction hup using Relation.TransGen.head_induction_on with
  | single hup => exact h.upstream_completed hn hup
  | head hup _ ih => exact h.upstream_completed (.inl ih) hup

omit [DecidableEq K] [Debug Text] in
theorem wellFoundedOn_names (hplan : plan.Compiled) :
    {n | n ∈ plan.names}.WellFoundedOn (Relation.TransGen (Upstream plan.targets)) := by
  have : IsStrictOrder Text (Relation.TransGen (Upstream plan.targets)) :=
    { irrefl := hplan.acyclic, trans := fun _ _ _ => Relation.TransGen.trans }
  exact plan.names.finite_toSet.wellFoundedOn

omit [DecidableEq K] [Debug Text] in
theorem exists_failed {st : Execution N K} (hplan : plan.Compiled)
    {graph : DependencyGraph Text} (hgraph : IsStageGraph plan.targets graph) (hdone : plan.ready graph st = [])
    {n : Text} (hn : n ∈ plan.names) (hcompleted : n ∉ st.completed) (hfailed : n ∉ st.failed) :
    ∃ f ∈ st.failed, Relation.TransGen (Upstream plan.targets) f n := by
  refine (wellFoundedOn_names hplan).induction (P := fun n => n ∉ st.completed → n ∉ st.failed →
    ∃ f ∈ st.failed, Relation.TransGen (Upstream plan.targets) f n) hn ?_ hcompleted hfailed
  intro n hn ih hcompleted hfailed
  obtain ⟨t, ht, rfl⟩ := List.mem_map.mp hn
  have hnot : t ∉ plan.ready graph st := by simp [hdone]
  rw [mem_ready hgraph] at hnot
  obtain ⟨u, hu, hwaits⟩ : ∃ u ∈ t.upstreamIds, u ∉ st.completed := by
    by_contra hall
    push Not at hall
    exact hnot ⟨ht, hall, hcompleted, hfailed⟩
  have hup : Upstream plan.targets u t.name := ⟨t, ht, rfl, hu⟩
  by_cases hu : u ∈ st.failed
  · exact ⟨u, hu, .single hup⟩
  · obtain ⟨f, hf, hchain⟩ := ih u (hplan.resolved u _ hup) (.single hup) hwaits hu
    exact ⟨f, hf, hchain.tail hup⟩

omit [DecidableEq K] [Debug Text] in
theorem ready_eq_nil {st : Execution N K} {graph : DependencyGraph Text}
    (hend : plan.ready graph st = [] ∨ plan.essentialFailed st = true)
    (hessential : ∀ t ∈ plan.targets, t.essential = true → t.name ∉ st.failed) : plan.ready graph st = [] := by
  refine hend.resolve_right fun habort => ?_
  obtain ⟨t, ht, hboth⟩ := List.any_eq_true.mp habort
  obtain ⟨hmem, hess⟩ := of_decide_eq_true hboth
  exact hessential t ht hess hmem

omit [DecidableEq K] [Debug Text] in
theorem completed_of_no_failure {st : Execution N K} (hplan : plan.Compiled) {graph : DependencyGraph Text}
    (hgraph : IsStageGraph plan.targets graph) (hend : plan.ready graph st = [] ∨ plan.essentialFailed st = true)
    (hfailed : st.failed = ∅) {n : Text} (hn : n ∈ plan.names) : n ∈ st.completed := by
  have hready : plan.ready graph st = [] := ready_eq_nil hend fun t _ _ => by simp [hfailed]
  by_contra hnot
  obtain ⟨f, hf, -⟩ := exists_failed hplan hgraph hready hn hnot (by simp [hfailed])
  simp [hfailed] at hf

theorem exists_run (hplan : plan.Compiled) (hbatch : env.OneEventEach) (cache : Option (RubricCache K)) :
    ∃ st graph, (∀ fuel, plan.targets.length < fuel → plan.run env cache fuel = some (.ok st)) ∧
      IsStageGraph plan.targets graph ∧ plan.Progress env cache st ∧
      (plan.ready graph st = [] ∨ plan.essentialFailed st = true) := by
  obtain ⟨graph, hok⟩ := exists_stageGraph_iff.mpr hplan.nodup
  have hgraph := isStageGraph_of_ok hok
  obtain ⟨st, hst, hprogress, hend⟩ := (progress_start cache).runWaves hplan hgraph hbatch (Nat.lt_succ_self _)
  refine ⟨st, graph, fun fuel hfuel => ?_, hgraph, hprogress, hend⟩
  obtain ⟨extra, rfl⟩ := Nat.exists_eq_add_of_lt hfuel
  rw [run, hok, Nat.add_right_comm]
  exact runWaves_add hst extra

omit [Debug Text] in
@[simp]
theorem summarize_completed (st : Execution N K) :
    (plan.summarize env st).completed = plan.names.filterMap st.completed.lookup := by
  unfold summarize
  dsimp only
  split <;> rfl

omit [Debug Text] in
@[simp]
theorem summarize_failed (st : Execution N K) :
    (plan.summarize env st).failed = plan.names.filter fun name => name ∉ st.completed ∧ name ∈ st.failed := by
  unfold summarize
  dsimp only
  split <;> rfl

omit [Debug Text] in
@[simp]
theorem summarize_cancelled (st : Execution N K) :
    (plan.summarize env st).cancelled = plan.names.filter fun name => name ∉ st.completed ∧ name ∉ st.failed := by
  unfold summarize
  dsimp only
  split <;> rfl

omit [Debug Text] in
theorem Progress.names_of_settled {cache : Option (RubricCache K)} {st : Execution N K} (h : plan.Progress env cache st)
    {n : Text} (hn : n ∈ st.completed ∨ n ∈ st.failed) : n ∈ plan.names :=
  h.named n ((h.settled n).mp hn)

omit [Debug Text] in
theorem Progress.mem_failed_summarize {cache : Option (RubricCache K)} {st : Execution N K}
    (h : plan.Progress env cache st) (n : Text) : n ∈ (plan.summarize env st).failed ↔ n ∈ st.failed := by
  simp only [summarize_failed, List.mem_filter, decide_eq_true_eq]
  exact ⟨fun hn => hn.2.2, fun hn => ⟨h.names_of_settled (.inr hn), fun hc => h.disjoint n hc hn, hn⟩⟩

omit [Debug Text] in
theorem Progress.mem_cancelled_summarize {cache : Option (RubricCache K)} {st : Execution N K}
    (h : plan.Progress env cache st) (hplan : plan.Compiled) {graph : DependencyGraph Text}
    (hgraph : IsStageGraph plan.targets graph) (hready : plan.ready graph st = []) (n : Text) :
    n ∈ (plan.summarize env st).cancelled ↔
      n ∉ st.failed ∧ ∃ f ∈ st.failed, Relation.TransGen (Upstream plan.targets) f n := by
  rw [summarize_cancelled, List.mem_filter, decide_eq_true_eq]
  constructor
  · rintro ⟨hn, hcompleted, hnot⟩
    exact ⟨hnot, exists_failed hplan hgraph hready hn hcompleted hnot⟩
  · rintro ⟨hnot, f, hf, hup⟩
    have hn : n ∈ plan.names := by
      obtain ⟨_, _, t, ht, rfl, -⟩ := Relation.TransGen.tail'_iff.mp hup
      exact List.mem_map_of_mem ht
    exact ⟨hn, fun hcompleted => h.disjoint f (h.ancestor_completed (.inl hcompleted) hup) hf, hnot⟩

omit [DecidableEq K] [Debug Text] in
theorem forall₂_lookup (completed : HashMap Text (StageDecision N)) (names : List Text) :
    List.Forall₂ (fun name decision => completed.lookup name = some decision) (names.filter (· ∈ completed))
      (names.filterMap completed.lookup) := by
  induction names with
  | nil => exact .nil
  | cons n names ih =>
    cases hlookup : completed.lookup n with
    | none =>
      rw [List.filterMap_cons, hlookup, List.filter_cons_of_neg (by simpa using Finmap.lookup_eq_none.mp hlookup)]
      exact ih
    | some decision =>
      rw [List.filterMap_cons, hlookup,
        List.filter_cons_of_pos (by simpa using Finmap.mem_of_lookup_eq_some hlookup)]
      exact .cons hlookup ih

omit [DecidableEq K] [Debug Text] in
theorem partition_perm (st : Execution N K) (names : List Text) :
    (names.filter (· ∈ st.completed) ++ (names.filter fun name => name ∉ st.completed ∧ name ∈ st.failed) ++
      names.filter fun name => name ∉ st.completed ∧ name ∉ st.failed).Perm names := by
  have hcompleted := List.filter_append_perm (fun name => decide (name ∈ st.completed)) names
  have hfailed := List.filter_append_perm (fun name => decide (name ∈ st.failed))
    (names.filter fun name => !decide (name ∈ st.completed))
  simp only [List.filter_filter] at hfailed
  refine List.Perm.trans ?_ hcompleted
  rw [List.append_assoc]
  refine List.Perm.append_left _ (List.Perm.trans (.of_eq ?_) hfailed)
  congr 1 <;>
  · refine List.filter_congr fun name _ => ?_
    simp [and_comm]

theorem compile_ok {num : Numbers N F} {hash : HashOrder Text} {entities : List (Entity N)} {chart : ChartDef F}
    (h : compile num hash entities chart = .ok plan) :
    List.Forall₂ (CompiledFrom chart) chart.targets plan.targets ∧ Runnable plan.targets := by
  obtain ⟨out, hout, h⟩ := bind_ok h
  obtain rfl := Except.ok.inj h
  obtain ⟨targets, htargets, hout⟩ := bind_ok hout
  obtain ⟨order, horder, hout⟩ := bind_ok hout
  obtain rfl := Except.ok.inj hout
  exact ⟨compiled_of_mapM htargets, topoOrder_ok_iff.mp ⟨order, horder⟩⟩

theorem exists_compile {num : Numbers N F} {entities : List (Entity N)} {chart : ChartDef F}
    {targets : List (CompiledTarget F)} (htargets : chart.targets.mapM (compileTarget num entities chart) = .ok targets)
    (hnodup : (chart.targets.map ChartTarget.name).Nodup) (hacyclic : ∀ n, ¬Relation.TransGen (StageEdge chart) n n)
    (hash : HashOrder Text) : ∃ order, compile num hash entities chart = .ok ⟨chart.name, chart.rubric, targets, order⟩ := by
  obtain ⟨order, horder⟩ : ∃ order, topoOrder hash targets = .ok order :=
    topoOrder_ok_iff.mpr ((runnable_compiled_iff (compiled_of_mapM htargets)).mpr ⟨hnodup, hacyclic⟩)
  refine ⟨order, ?_⟩
  rw [compile, compileChartStages, htargets]
  change ((topoOrder hash targets >>= fun order => pure (targets, order)) >>= _) = _
  rw [horder]
  rfl

omit [DecidableEq K] [Debug Text] in
theorem upstream_eq {chart : ChartDef F} (hfrom : List.Forall₂ (CompiledFrom chart) chart.targets plan.targets) :
    Upstream plan.targets = StageEdge chart := by
  funext p n
  exact propext (upstream_compiled_iff hfrom p n)

omit [DecidableEq K] [Debug Text] in
theorem compiled_of_forall₂ {chart : ChartDef F} (hfrom : List.Forall₂ (CompiledFrom chart) chart.targets plan.targets)
    (hrun : Runnable plan.targets) : plan.Compiled := by
  refine ⟨hrun.nodup, hrun.resolved, ?_, fun t ht => ?_⟩
  · rw [upstream_eq hfrom]
    exact ((runnable_compiled_iff hfrom).mp hrun).2
  · obtain ⟨target, -, hcompiled⟩ := forall₂_mem_right hfrom ht
    exact hcompiled.stageName.trans hcompiled.name.symm

theorem execute_settles_every_target {num : Numbers N F} {hash : HashOrder Text} {entities : List (Entity N)}
    {chart : ChartDef F} (hcompile : compile num hash entities chart = .ok plan) (hbatch : env.OneEventEach)
    (cache : Option (RubricCache K)) :
    ∃ st summary, (∀ fuel, chart.targets.length < fuel → plan.run env cache fuel = some (.ok st) ∧
        plan.execute env cache fuel = some (.ok summary)) ∧
      (st.waves.flatMap Wave.registered).Nodup ∧
      (∀ before w after, st.waves = before ++ w :: after →
        (∃ ready, w.registered = ready.map CompiledTarget.name ∧ w.events = (env.batch ready w.completed).events) ∧
        (∀ n decision, w.completed.lookup n = some decision ↔
          (n, some decision) ∈ plan.verdicts env cache (before.flatMap Wave.events)) ∧
        ∀ p n, n ∈ w.registered → StageEdge chart p n → p ∈ w.completed) ∧
      (∀ n decision, st.completed.lookup n = some decision ↔
        (n, some decision) ∈ plan.verdicts env cache (st.waves.flatMap Wave.events)) ∧
      (∀ n, n ∈ summary.failed ↔ (n, none) ∈ plan.verdicts env cache (st.waves.flatMap Wave.events)) ∧
      (∃ completed, List.Forall₂ (fun name decision => st.completed.lookup name = some decision) completed
          summary.completed ∧
        (chart.targets.map ChartTarget.name).Nodup ∧
        (completed ++ summary.failed ++ summary.cancelled).Perm (chart.targets.map ChartTarget.name) ∧
        ∀ n, n ∈ st.waves.flatMap Wave.registered ↔ n ∈ completed ∨ n ∈ summary.failed) ∧
      ((∀ target ∈ chart.targets, target.essential = true → target.name ∉ summary.failed) →
        ∀ n, n ∈ summary.cancelled ↔
          n ∉ summary.failed ∧ ∃ f ∈ summary.failed, Relation.TransGen (StageEdge chart) f n) := by
  obtain ⟨hfrom, hrunnable⟩ := compile_ok hcompile
  have hplan := compiled_of_forall₂ hfrom hrunnable
  have hnames : plan.names = chart.targets.map ChartTarget.name := map_name_compiled hfrom
  have hedge := upstream_eq hfrom
  obtain ⟨st, graph, hrun, hgraph, h, hend⟩ := exists_run hplan hbatch cache
  have hfailed := h.mem_failed_summarize
  refine ⟨st, plan.summarize env st, fun fuel hfuel => ?_, h.once, fun before w after hwaves => ?_, h.completed_iff,
    fun n => (hfailed n).trans (h.failed_iff n),
    ⟨plan.names.filter (· ∈ st.completed), ?_, hnames ▸ hplan.nodup, ?_, fun n => ?_⟩, fun hessential n => ?_⟩
  · rw [← hfrom.length_eq.symm] at hfuel
    have hdone := hrun fuel hfuel
    refine ⟨hdone, ?_⟩
    rw [execute, hdone]
    rfl
  · have hw : w ∈ st.waves := hwaves ▸ List.mem_append_right _ List.mem_cons_self
    rw [← hedge]
    exact ⟨h.batched w hw, h.gated before w after hwaves, h.upstream w hw⟩
  · rw [summarize_completed]
    exact forall₂_lookup st.completed plan.names
  · rw [summarize_failed, summarize_cancelled, ← hnames]
    exact partition_perm st plan.names
  · rw [hfailed, ← h.settled, List.mem_filter, decide_eq_true_eq]
    exact or_congr_left (and_iff_right_of_imp fun hn => h.names_of_settled (.inl hn)).symm
  · have hready : plan.ready graph st = [] := by
      refine ready_eq_nil hend fun t ht hess => ?_
      obtain ⟨target, htarget, hcompiled⟩ := forall₂_mem_right hfrom ht
      rw [hcompiled.name, ← hfailed]
      exact hessential target htarget (hcompiled.essential ▸ hess)
    simp only [hfailed, ← hedge]
    exact h.mem_cancelled_summarize hplan hgraph hready n

end Run

end ChartExecutionPlan

namespace Plain

def failing : Surroundings Unit Unit Unit :=
  ⟨plainNumbers, ⟨none, fun _ _ => ()⟩, fun ready _ => ⟨[], [], ready.map fun t => .failed t.name [], []⟩⟩

theorem failing_oneEventEach : failing.OneEventEach := by
  intro ready completed
  simp [failing, SupervisedBatchSummary.events, Function.comp_def, SupervisedBatchEvent.name]

def pairTargets : List (CompiledTarget Unit) :=
  [⟨⟨['a'], ['c'], ['p'], [], [], [], [['o'], ['a']], []⟩, ['a'], false, none, []⟩,
    ⟨⟨['b'], ['c'], ['p'], [.capability ['a']], [['a']], [['a']], [['b']], [['a']]⟩, ['b'], false, none, [['a']]⟩]

theorem pairChart_compile (hash : HashOrder Text) :
    ∃ order, ChartExecutionPlan.compile plainNumbers hash [] pairChart = .ok ⟨['c'], none, pairTargets, order⟩ :=
  ChartExecutionPlan.exists_compile rfl (by decide) pairChart_acyclic hash

theorem pair_settles :
    pairChart.targets.length = 2 ∧ ∀ hash, ∃ plan summary,
      ChartExecutionPlan.compile plainNumbers hash [] pairChart = .ok plan ∧
        plan.execute failing none 3 = some (.ok summary) ∧
        ∀ n, n ∈ summary.cancelled ↔
          n ∉ summary.failed ∧ ∃ f ∈ summary.failed, Relation.TransGen (StageEdge pairChart) f n := by
  refine ⟨rfl, fun hash => ?_⟩
  obtain ⟨order, hcompile⟩ := pairChart_compile hash
  obtain ⟨st, summary, hrun, -, -, -, -, -, hcancelled⟩ :=
    ChartExecutionPlan.execute_settles_every_target hcompile failing_oneEventEach none
  refine ⟨_, summary, hcompile, (hrun 3 (by decide)).2, hcancelled fun target htarget hessential => ?_⟩
  rcases List.mem_cons.mp htarget with rfl | htarget
  · cases hessential
  · obtain rfl := List.mem_singleton.mp htarget
    cases hessential

end Plain

end Fluent.Router.Charts
