import Fluent.Library.Fallible
import Fluent.Router.Charts.Binding

namespace Fluent.Router.Charts

open Fluent.Library
open Fluent.Spacy (Text)
open Fluent.Dag (DependencyGraph Debug GraphError)
open Fluent.Dag.DependencyGraph (WellIndexed)

variable {N F : Type}

structure ChartPromptStage (F : Type) where
  name : Text
  chartName : Text
  template : Text
  dependsSpecs : List (DepSpec F)
  upstreamIds : List Text
  depends : List Text
  provides : List Text
  graphSatisfied : List Text

structure CompiledTarget (F : Type) where
  stage : ChartPromptStage F
  name : Text
  essential : Bool
  rubric : Option (ChartRubric F)
  upstreamIds : List Text

def addProvider (providers : HashMap Text Text) (target : ChartTarget F) : HashMap Text Text :=
  target.provides.foldl (fun providers asset => providers.insert asset target.name)
    (providers.insert target.name target.name)

def providerOf (chart : ChartDef F) : HashMap Text Text := chart.targets.foldl addProvider ∅

def notFullyBound (chartName what name target why : Text) : ChartError :=
  .compile ("chart '".toList ++ chartName ++ "' not fully bound: ".toList ++ what ++ " '".toList ++ name ++
    "' for target '".toList ++ target ++ "' ".toList ++ why)

def resolveDep (target : ChartTarget F) (bindings : Bindings N) (providers : HashMap Text Text) (chartName : Text) :
    DepSpec F → Except ChartError (List Text)
  | .capability name =>
    match providers.lookup name with
    | some provider => .ok (if provider ≠ target.name then [provider] else [])
    | none =>
      if name ∈ bindings.entityMap then .ok []
      else if bindings.ambiguous.any (·.dep = name) then
        .error (notFullyBound chartName "capability".toList name target.name
          "matches multiple entities (ambiguous)".toList)
      else
        .error (notFullyBound chartName "capability".toList name target.name
          "is not provided by any target or bound entity".toList)
  | .entityMatch name _ _ required =>
    if name ∈ bindings.entityMap then .ok []
    else if bindings.ambiguous.any (·.dep = name) then
      .error (notFullyBound chartName "entity dep".toList name target.name
        "matches multiple entities (ambiguous)".toList)
    else if required then
      .error (notFullyBound chartName "required entity dep".toList name target.name
        "matched no entity; run selection/interview first".toList)
    else .ok []

def resolveTargetDeps (target : ChartTarget F) (bindings : Bindings N) (providers : HashMap Text Text)
    (chartName : Text) : Except ChartError (List Text) :=
  collect (resolveDep target bindings providers chartName) target.depends

def graphSatisfied (providers : HashMap Text Text) (target : ChartTarget F) : List Text :=
  target.depends.filterMap fun
    | .capability name => if (providers.lookup name).any (· ≠ target.name) then some name else none
    | .entityMatch .. => none

def compileTarget (num : Numbers N F) (entities : List (Entity N)) (chart : ChartDef F) (target : ChartTarget F) :
    Except ChartError (CompiledTarget F) := do
  let bindings := bindEntities num entities target.depends
  let upstreamIds ← resolveTargetDeps target bindings (providerOf chart) chart.name
  let provides := if target.name ∈ target.provides then target.provides else target.provides ++ [target.name]
  let stage : ChartPromptStage F :=
    ⟨target.name, chart.name, target.template, target.depends, upstreamIds, upstreamIds, provides,
      graphSatisfied (providerOf chart) target⟩
  return ⟨stage, target.name, target.essential, target.rubric, upstreamIds⟩

def displayGraphError : GraphError → Text
  | .nodeNotFound node => "node not found: ".toList ++ node.toList
  | .circularDependency nodes => "dependency cycle detected involving: ".toList ++ nodes.toList
  | .duplicateNode node => "duplicate node: ".toList ++ node.toList

section Stages

variable [Debug Text]

def stageGraph (targets : List (CompiledTarget F)) : Except GraphError (DependencyGraph Text) :=
  targets.foldlM (fun graph t => graph.register t.name t.upstreamIds [t.name]) .new

def topoOrder (hash : HashOrder Text) (targets : List (CompiledTarget F)) : Except ChartError (List Text) :=
  match stageGraph targets with
  | .error e => .error (.compile ("stage graph invalid: ".toList ++ displayGraphError e))
  | .ok graph =>
    if graph.unresolvedDeps ≠ [] then
      .error (.compile ("unresolved stage deps: [".toList ++
        (", ".intercalate (graph.unresolvedDeps.map Debug.fmt)).toList ++ "]".toList))
    else
      match graph.topoSort hash with
      | .ok order => .ok order
      | .error e => .error (.compile ("compiled stage graph has a cycle: ".toList ++ displayGraphError e))

def compileChartStages (num : Numbers N F) (hash : HashOrder Text) (entities : List (Entity N)) (chart : ChartDef F) :
    Except ChartError (List (CompiledTarget F) × List Text) := do
  let targets ← chart.targets.mapM (compileTarget num entities chart)
  let order ← topoOrder hash targets
  return (targets, order)

end Stages

def Upstream (targets : List (CompiledTarget F)) (p n : Text) : Prop := ∃ t ∈ targets, t.name = n ∧ p ∈ t.upstreamIds

structure IsStageGraph (targets : List (CompiledTarget F)) (graph : DependencyGraph Text) : Prop where
  wellIndexed : WellIndexed graph
  nodes : graph.nodes = targets.map CompiledTarget.name
  nodup : (targets.map CompiledTarget.name).Nodup
  deps : ∀ n ds, graph.deps.lookup n = some ds ↔ ∃ t ∈ targets, t.name = n ∧ t.upstreamIds = ds
  provides : ∀ n ps, graph.provides.lookup n = some ps ↔ n ∈ targets.map CompiledTarget.name ∧ ps = [n]

namespace IsStageGraph

variable {targets : List (CompiledTarget F)} {graph : DependencyGraph Text} (h : IsStageGraph targets graph)

include h

theorem mem_deps {p n : Text} : p ∈ (graph.deps.lookup n).getD [] ↔ Upstream targets p n := by
  constructor
  · intro hp
    cases hlookup : graph.deps.lookup n with
    | none => simp [hlookup] at hp
    | some ds =>
      obtain ⟨t, ht, hname, hids⟩ := (h.deps n ds).mp hlookup
      rw [hlookup, Option.getD_some, ← hids] at hp
      exact ⟨t, ht, hname, hp⟩
  · rintro ⟨t, ht, hname, hp⟩
    rw [(h.deps n _).mpr ⟨t, ht, hname, rfl⟩]
    exact hp

theorem mem_provides {a p : Text} :
    a ∈ (graph.provides.lookup p).getD [] ↔ a = p ∧ p ∈ targets.map CompiledTarget.name := by
  cases hlookup : graph.provides.lookup p with
  | none =>
    have hnot : p ∉ targets.map CompiledTarget.name := by
      intro hp
      rw [(h.provides p [p]).mpr ⟨hp, rfl⟩] at hlookup
      cases hlookup
    simp [hnot]
  | some ps =>
    obtain ⟨hp, rfl⟩ := (h.provides p ps).mp hlookup
    simp [hp]

theorem unresolvedDeps_eq_nil_iff :
    graph.unresolvedDeps = [] ↔ ∀ p n, Upstream targets p n → p ∈ targets.map CompiledTarget.name := by
  rw [List.eq_nil_iff_forall_not_mem]
  refine forall_congr' fun p => ?_
  rw [h.wellIndexed.mem_unresolvedDeps, h.nodes]
  simp only [h.mem_deps, h.mem_provides]
  constructor
  · intro hnot n hup
    by_contra hout
    have hn : n ∈ targets.map CompiledTarget.name := by
      obtain ⟨t, ht, hname, -⟩ := hup
      exact hname ▸ List.mem_map_of_mem ht
    exact hnot ⟨⟨n, hn, hup⟩, fun m _ hm => hout (hm.1 ▸ hm.2)⟩
  · rintro hin ⟨⟨n, -, hup⟩, hnone⟩
    exact hnone p (hin n hup) ⟨rfl, hin n hup⟩

theorem edge_iff {p n : Text} :
    graph.Edge p n ↔ p ≠ n ∧ p ∈ targets.map CompiledTarget.name ∧ Upstream targets p n := by
  rw [Dag.DependencyGraph.edge_iff]
  simp only [h.mem_deps, h.mem_provides]
  constructor
  · rintro ⟨hne, a, hup, rfl, hp⟩
    exact ⟨hne, hp, hup⟩
  · rintro ⟨hne, hp, hup⟩
    exact ⟨hne, p, hup, rfl, hp⟩

end IsStageGraph

section Order

variable [Debug Text]

theorem isStageGraph_of_ok {targets : List (CompiledTarget F)} {graph : DependencyGraph Text}
    (h : stageGraph targets = .ok graph) : IsStageGraph targets graph := by
  induction targets using List.reverseRecOn generalizing graph with
  | nil =>
    obtain rfl := Except.ok.inj h
    exact ⟨Dag.DependencyGraph.wellIndexed_new, rfl, .nil, by simp [Dag.DependencyGraph.new],
      by simp [Dag.DependencyGraph.new]⟩
  | append_singleton targets t ih =>
    rw [stageGraph, List.foldlM_append] at h
    obtain ⟨g, hg, hlast⟩ := bind_ok h
    obtain ⟨g', hg', hdone⟩ := bind_ok (x := g.register t.name t.upstreamIds [t.name]) hlast
    obtain rfl := Except.ok.inj hdone
    obtain ⟨hwell, hnodes, hnodup, hdeps, hprovides⟩ := ih hg
    obtain ⟨hnew, rfl⟩ := Dag.DependencyGraph.register_ok hg'
    have hfresh : t.name ∉ targets.map CompiledTarget.name := by
      rw [← hnodes, hwell.mem_nodes]
      exact hnew
    refine ⟨hwell.register hg', by simp [hnodes], ?_, fun n ds => ?_, fun n ps => ?_⟩
    · rw [List.map_append]
      exact List.nodup_append_comm.mp (List.nodup_cons.mpr ⟨hfresh, hnodup⟩)
    · rw [HashMap.lookup_insert_ite]
      constructor
      · intro hlookup
        split at hlookup
        · next heq => exact ⟨t, by simp, heq.symm, Option.some.inj hlookup⟩
        · obtain ⟨t', ht', hname, hids⟩ := (hdeps n ds).mp hlookup
          exact ⟨t', List.mem_append_left _ ht', hname, hids⟩
      · rintro ⟨t', ht', rfl, rfl⟩
        rcases List.mem_append.mp ht' with ht' | ht'
        · have hne : t'.name ≠ t.name := fun heq => hfresh (heq ▸ List.mem_map_of_mem ht')
          rw [if_neg hne]
          exact (hdeps _ _).mpr ⟨t', ht', rfl, rfl⟩
        · rw [List.mem_singleton.mp ht', if_pos rfl]
    · rw [HashMap.lookup_insert_ite, List.map_append, List.mem_append, List.map_singleton, List.mem_singleton]
      split
      · next heq => simp [heq, eq_comm]
      · next hne => simp [hprovides, hne]

theorem exists_stageGraph_iff {targets : List (CompiledTarget F)} :
    (∃ graph, stageGraph targets = .ok graph) ↔ (targets.map CompiledTarget.name).Nodup := by
  refine ⟨fun ⟨graph, h⟩ => (isStageGraph_of_ok h).nodup, fun hnodup => ?_⟩
  induction targets using List.reverseRecOn with
  | nil => exact ⟨_, rfl⟩
  | append_singleton targets t ih =>
    rw [List.map_append, List.map_singleton] at hnodup
    obtain ⟨g, hg⟩ := ih (List.Nodup.of_append_left hnodup)
    have hgraph := isStageGraph_of_ok hg
    have hnew : t.name ∉ g.deps := by
      rw [← hgraph.wellIndexed.mem_nodes, hgraph.nodes]
      exact fun hmem => List.disjoint_of_nodup_append hnodup hmem (List.mem_singleton_self _)
    have hregister : g.register t.name t.upstreamIds [t.name] = .ok _ := if_neg hnew
    rw [stageGraph, List.foldlM_append]
    change ∃ graph, (stageGraph targets >>= fun g => g.register t.name t.upstreamIds [t.name] >>= pure) = _
    rw [hg]
    change ∃ graph, (g.register t.name t.upstreamIds [t.name] >>= pure) = _
    rw [hregister]
    exact ⟨_, rfl⟩

structure Runnable (targets : List (CompiledTarget F)) : Prop where
  nodup : (targets.map CompiledTarget.name).Nodup
  resolved : ∀ p n, Upstream targets p n → p ∈ targets.map CompiledTarget.name
  acyclic : ∀ n, ¬Relation.TransGen (fun p n => p ≠ n ∧ Upstream targets p n) n n

theorem topoOrder_ok_iff {hash : HashOrder Text} {targets : List (CompiledTarget F)} :
    (∃ order, topoOrder hash targets = .ok order) ↔ Runnable targets := by
  unfold topoOrder
  cases hg : stageGraph targets with
  | error e =>
    refine ⟨fun h => ?_, fun h => ?_⟩
    · obtain ⟨order, h⟩ := h
      cases h
    · obtain ⟨graph, hok⟩ := exists_stageGraph_iff.mpr h.nodup
      rw [hg] at hok
      cases hok
  | ok graph =>
    have hgraph := isStageGraph_of_ok hg
    dsimp only
    split
    · next hunresolved =>
      refine ⟨fun h => ?_, fun h => absurd (hgraph.unresolvedDeps_eq_nil_iff.mpr h.resolved) hunresolved⟩
      obtain ⟨order, h⟩ := h
      cases h
    · next hresolved =>
      have hresolved := hgraph.unresolvedDeps_eq_nil_iff.mp (not_not.mp hresolved)
      have hedge : graph.Edge = fun p n => p ≠ n ∧ Upstream targets p n := by
        funext p n
        rw [eq_iff_iff, hgraph.edge_iff]
        exact and_congr_right fun _ => ⟨And.right, fun hup => ⟨hresolved p n hup, hup⟩⟩
      have hsort := hgraph.wellIndexed.topoSort_ok_iff_acyclic hash
      rw [hedge] at hsort
      refine ⟨fun h => ⟨hgraph.nodup, hresolved, hsort.mp ?_⟩, fun h => ?_⟩
      · obtain ⟨order, h⟩ := h
        split at h
        · next hok => exact ⟨_, hok⟩
        · cases h
      · obtain ⟨order, hok⟩ := hsort.mpr h.acyclic
        rw [hok]
        exact ⟨order, rfl⟩

end Order

section Compiles

variable {num : Numbers N F} {entities : List (Entity N)} {chart : ChartDef F} {target : ChartTarget F}

theorem mem_addProvider (providers : HashMap Text Text) (target : ChartTarget F) (asset : Text) :
    asset ∈ addProvider providers target ↔ asset ∈ providers ∨ asset ∈ target.name :: target.provides := by
  have hinsert : ∀ (m : HashMap Text Text) (a : Text), asset ∈ m.insert a target.name ↔ asset ∈ m ∨ a = asset := by
    intro m a
    rw [Finmap.mem_insert, or_comm, eq_comm]
  rw [addProvider, foldl_iff (P := fun m : HashMap Text Text => asset ∈ m) (fun m a => hinsert m a) target.provides,
    hinsert, List.mem_cons, exists_eq_right, or_assoc, eq_comm]

theorem mem_providerOf (chart : ChartDef F) (asset : Text) : asset ∈ providerOf chart ↔ asset ∈ inGraphAssets chart := by
  rw [inGraphAssets, List.mem_toFinset, List.mem_flatMap]
  exact (foldl_iff (P := fun m : HashMap Text Text => asset ∈ m) (fun m t => mem_addProvider m t asset) chart.targets
    ∅).trans (or_iff_right Finmap.notMem_empty)

theorem foldl_insert_lookup {assets : List Text} {providers : HashMap Text Text} {asset owner p : Text}
    (h : (assets.foldl (fun providers asset => providers.insert asset owner) providers).lookup asset = some p) :
    p = owner ∨ providers.lookup asset = some p := by
  induction assets generalizing providers with
  | nil => exact .inr h
  | cons a assets ih =>
    refine (ih h).elim .inl fun hlookup => ?_
    rw [HashMap.lookup_insert_ite] at hlookup
    split at hlookup
    · exact .inl (Option.some.inj hlookup).symm
    · exact .inr hlookup

theorem providerOf_mem {asset p : Text} (h : (providerOf chart).lookup asset = some p) :
    p ∈ chart.targets.map ChartTarget.name := by
  have hstart : ∀ (targets : List (ChartTarget F)) (providers : HashMap Text Text),
      (targets.foldl addProvider providers).lookup asset = some p →
        p ∈ targets.map ChartTarget.name ∨ providers.lookup asset = some p := by
    intro targets
    induction targets with
    | nil => exact fun providers hlookup => .inr hlookup
    | cons t targets ih =>
      intro providers hlookup
      rw [List.map_cons, List.mem_cons]
      rcases ih _ hlookup with hmem | hlookup
      · exact .inl (.inr hmem)
      · rcases foldl_insert_lookup hlookup with heq | hlookup
        · exact .inl (.inl heq)
        · rw [HashMap.lookup_insert_ite] at hlookup
          split at hlookup
          · exact .inl (.inl (Option.some.inj hlookup).symm)
          · exact .inr hlookup
  refine (hstart chart.targets ∅ h).resolve_right fun hlookup => ?_
  rw [Finmap.lookup_empty] at hlookup
  cases hlookup

def OneMatch (num : Numbers N F) (entities : List (Entity N)) (target : ChartTarget F) (name : Text) : Prop :=
  ∃ dep ∈ target.depends, (depMatches num entities dep).length = 1 ∧ dep.name = name

def SeveralMatches (num : Numbers N F) (entities : List (Entity N)) (target : ChartTarget F) (name : Text) : Prop :=
  ∃ dep ∈ target.depends, 2 ≤ (depMatches num entities dep).length ∧ dep.name = name

theorem providedIn_empty (dep : DepSpec F) : dep.providedIn ∅ = false := by
  cases dep with
  | capability name => rfl
  | entityMatch => rfl

theorem mem_entityMap_bindEntities (num : Numbers N F) (entities : List (Entity N)) (target : ChartTarget F)
    (name : Text) : name ∈ (bindEntities num entities target.depends).entityMap ↔ OneMatch num entities target name := by
  rw [bindEntities, mem_entityMap_bindEntitiesImpl, OneMatch]
  simp only [providedIn_empty, true_and]

theorem any_ambiguous_bindEntities (num : Numbers N F) (entities : List (Entity N)) (target : ChartTarget F)
    (name : Text) : (bindEntities num entities target.depends).ambiguous.any (·.dep = name) = true ↔
      SeveralMatches num entities target name := by
  have hany : (bindEntities num entities target.depends).ambiguous.any (·.dep = name) = true ↔
      (bindEntities num entities target.depends).IsAmbiguous name := by
    simp [Bindings.IsAmbiguous]
  rw [hany, bindEntities, isAmbiguous_bindEntitiesImpl, SeveralMatches]
  simp only [providedIn_empty, true_and]

def Resolves (num : Numbers N F) (entities : List (Entity N)) (chart : ChartDef F) (target : ChartTarget F)
    (dep : DepSpec F) : Prop :=
  dep.providedIn (inGraphAssets chart) = true ∨ OneMatch num entities target dep.name ∨
    ¬SeveralMatches num entities target dep.name ∧ dep.must = false

theorem exists_resolveDep_iff (dep : DepSpec F) :
    (∃ ids, resolveDep target (bindEntities num entities target.depends) (providerOf chart) chart.name dep = .ok ids) ↔
      Resolves num entities chart target dep := by
  have hone := mem_entityMap_bindEntities num entities target dep.name
  have hseveral := any_ambiguous_bindEntities num entities target dep.name
  unfold Resolves
  cases dep with
  | capability name =>
    change name ∈ _ ↔ OneMatch num entities target name at hone
    rw [resolveDep]
    cases hlookup : (providerOf chart).lookup name with
    | some provider =>
      have hin := (mem_providerOf chart name).mp (Finmap.mem_of_lookup_eq_some hlookup)
      exact ⟨fun _ => .inl (decide_eq_true hin), fun _ => ⟨_, rfl⟩⟩
    | none =>
      have hout : name ∉ inGraphAssets chart := by
        rw [← mem_providerOf]
        exact Finmap.lookup_eq_none.mp hlookup
      rw [or_iff_right (show ¬(DepSpec.capability name : DepSpec F).providedIn (inGraphAssets chart) = true by
        simpa [DepSpec.providedIn] using hout), or_iff_left (fun h => Bool.noConfusion h.2), DepSpec.name, ← hone]
      dsimp only
      split
      · next hmem => exact ⟨fun _ => hmem, fun _ => ⟨_, rfl⟩⟩
      · next hmem =>
        split
        · exact iff_of_false not_exists_error_ok hmem
        · exact iff_of_false not_exists_error_ok hmem
  | entityMatch name description predicate required =>
    change name ∈ _ ↔ OneMatch num entities target name at hone
    change _ ↔ SeveralMatches num entities target name at hseveral
    rw [resolveDep, or_iff_right (fun h => Bool.noConfusion h), DepSpec.name, DepSpec.must, ← hone, ← hseveral]
    split
    · next hmem => exact ⟨fun _ => .inl hmem, fun _ => ⟨_, rfl⟩⟩
    · next hmem =>
      split
      · next hamb => exact iff_of_false not_exists_error_ok fun h => h.elim hmem fun h => h.1 hamb
      · next hamb =>
        cases required with
        | true => exact iff_of_false not_exists_error_ok fun h => h.elim hmem fun h => Bool.noConfusion h.2
        | false => exact ⟨fun _ => .inr ⟨hamb, rfl⟩, fun _ => ⟨_, rfl⟩⟩

theorem resolveDep_entityMatch {bindings : Bindings N} {providers : HashMap Text Text} {chartName : Text}
    {name description : Text} {predicate : Option (EntityPredicate F)} {required : Bool} {ids : List Text}
    (h : resolveDep target bindings providers chartName (.entityMatch name description predicate required) = .ok ids) :
    ids = [] := by
  rw [resolveDep] at h
  split at h
  · exact (Except.ok.inj h).symm
  · split at h
    · cases h
    · split at h
      · cases h
      · exact (Except.ok.inj h).symm

theorem mem_of_resolveDep {bindings : Bindings N} {providers : HashMap Text Text} {dep : DepSpec F} {ids : List Text}
    (h : resolveDep target bindings providers chart.name dep = .ok ids) (p : Text) :
    p ∈ ids ↔ ∃ name, dep = .capability name ∧ providers.lookup name = some p ∧ p ≠ target.name := by
  cases dep with
  | capability name =>
    rw [resolveDep] at h
    cases hlookup : providers.lookup name with
    | some provider =>
      rw [hlookup] at h
      obtain rfl := Except.ok.inj h
      by_cases hself : provider = target.name
      · rw [if_neg (not_not.mpr hself)]
        refine ⟨(fun h => nomatch h), ?_⟩
        rintro ⟨name', heq, hlookup', hne⟩
        obtain rfl := DepSpec.capability.inj heq
        exact absurd ((Option.some.inj (hlookup'.symm.trans hlookup)).trans hself) hne
      · rw [if_pos hself, List.mem_singleton]
        constructor
        · rintro rfl
          exact ⟨name, rfl, hlookup, hself⟩
        · rintro ⟨name', heq, hlookup', -⟩
          obtain rfl := DepSpec.capability.inj heq
          exact Option.some.inj (hlookup'.symm.trans hlookup)
    | none =>
      rw [hlookup] at h
      dsimp only at h
      split at h
      · obtain rfl := Except.ok.inj h
        refine ⟨(fun h => nomatch h), ?_⟩
        rintro ⟨name', heq, hlookup', -⟩
        obtain rfl := DepSpec.capability.inj heq
        rw [hlookup] at hlookup'
        cases hlookup'
      · split at h
        · cases h
        · cases h
  | entityMatch name description predicate required =>
    rw [resolveDep_entityMatch h]
    exact ⟨(fun h => nomatch h), fun ⟨_, heq, _⟩ => nomatch heq⟩

def StageEdge (chart : ChartDef F) (p n : Text) : Prop :=
  ∃ target ∈ chart.targets, target.name = n ∧
    ∃ name, .capability name ∈ target.depends ∧ (providerOf chart).lookup name = some p ∧ p ≠ target.name

theorem exists_compileTarget_iff (target : ChartTarget F) :
    (∃ t, compileTarget num entities chart target = .ok t) ↔
      ∀ dep ∈ target.depends, Resolves num entities chart target dep := by
  simp only [← exists_resolveDep_iff]
  rw [← exists_collect_ok_iff]
  constructor
  · rintro ⟨t, h⟩
    obtain ⟨ids, hids, -⟩ := bind_ok h
    exact ⟨ids, hids⟩
  · rintro ⟨ids, hids⟩
    rw [compileTarget, resolveTargetDeps, hids]
    exact ⟨_, rfl⟩

structure CompiledFrom (chart : ChartDef F) (target : ChartTarget F) (t : CompiledTarget F) : Prop where
  name : t.name = target.name
  essential : t.essential = target.essential
  rubric : t.rubric = target.rubric
  specs : t.stage.dependsSpecs = target.depends
  stageName : t.stage.name = target.name
  satisfied : t.stage.graphSatisfied = graphSatisfied (providerOf chart) target
  upstream : ∀ p, p ∈ t.upstreamIds ↔
    ∃ name, .capability name ∈ target.depends ∧ (providerOf chart).lookup name = some p ∧ p ≠ target.name

theorem compiledFrom_of_ok {t : CompiledTarget F} (h : compileTarget num entities chart target = .ok t) :
    CompiledFrom chart target t := by
  obtain ⟨ids, hids, h⟩ := bind_ok h
  obtain rfl := Except.ok.inj h
  obtain ⟨hall, hmem⟩ := collect_ok hids
  refine ⟨rfl, rfl, rfl, rfl, rfl, rfl, fun p => (hmem p).trans ?_⟩
  constructor
  · rintro ⟨dep, hdep, bs, hbs, hp⟩
    obtain ⟨name, rfl, hlookup⟩ := (mem_of_resolveDep hbs p).mp hp
    exact ⟨name, hdep, hlookup⟩
  · rintro ⟨name, hdep, hlookup⟩
    obtain ⟨bs, hbs⟩ := hall _ hdep
    exact ⟨_, hdep, bs, hbs, (mem_of_resolveDep hbs p).mpr ⟨name, rfl, hlookup⟩⟩

theorem compiled_of_mapM {targets : List (CompiledTarget F)}
    (h : chart.targets.mapM (compileTarget num entities chart) = .ok targets) :
    List.Forall₂ (CompiledFrom chart) chart.targets targets :=
  (mapM_ok h).imp fun _ _ => compiledFrom_of_ok

section Compiled

variable {targets : List (CompiledTarget F)} (h : List.Forall₂ (CompiledFrom chart) chart.targets targets)

include h

theorem map_name_compiled : targets.map CompiledTarget.name = chart.targets.map ChartTarget.name := by
  have heq : ∀ {l : List (ChartTarget F)} {r : List (CompiledTarget F)}, List.Forall₂ (CompiledFrom chart) l r →
      r.map CompiledTarget.name = l.map ChartTarget.name := by
    intro l r hall
    induction hall with
    | nil => rfl
    | cons hhead _ ih => rw [List.map_cons, List.map_cons, hhead.name, ih]
  exact heq h

theorem upstream_compiled_iff (p n : Text) : Upstream targets p n ↔ StageEdge chart p n := by
  constructor
  · rintro ⟨t, ht, rfl, hp⟩
    obtain ⟨target, htarget, hfrom⟩ := forall₂_mem_right h ht
    exact ⟨target, htarget, hfrom.name.symm, (hfrom.upstream p).mp hp⟩
  · rintro ⟨target, htarget, rfl, hdep⟩
    obtain ⟨t, ht, hfrom⟩ := forall₂_mem_left h htarget
    exact ⟨t, ht, hfrom.name, (hfrom.upstream p).mpr hdep⟩

theorem runnable_compiled_iff : Runnable targets ↔
    (chart.targets.map ChartTarget.name).Nodup ∧ ∀ n, ¬Relation.TransGen (StageEdge chart) n n := by
  have hedge : (fun p n => p ≠ n ∧ Upstream targets p n) = StageEdge chart := by
    funext p n
    rw [eq_iff_iff, upstream_compiled_iff h]
    refine and_iff_right_of_imp ?_
    rintro ⟨target, -, rfl, -, -, -, hne⟩
    exact hne
  constructor
  · intro hrun
    have hacyclic := hrun.acyclic
    rw [hedge] at hacyclic
    exact ⟨map_name_compiled h ▸ hrun.nodup, hacyclic⟩
  · rintro ⟨hnodup, hacyclic⟩
    refine ⟨map_name_compiled h ▸ hnodup, fun p n hup => ?_, by rwa [hedge]⟩
    obtain ⟨target, -, -, name, -, hlookup, -⟩ := (upstream_compiled_iff h p n).mp hup
    exact map_name_compiled h ▸ providerOf_mem hlookup

end Compiled

theorem exists_compile_iff [Debug Text] {hash : HashOrder Text} :
    (∃ out, compileChartStages num hash entities chart = .ok out) ↔
      (∀ target ∈ chart.targets, ∀ dep ∈ target.depends, Resolves num entities chart target dep) ∧
      (chart.targets.map ChartTarget.name).Nodup ∧ ∀ n, ¬Relation.TransGen (StageEdge chart) n n := by
  simp only [← exists_compileTarget_iff]
  rw [← exists_mapM_ok_iff]
  constructor
  · rintro ⟨out, h⟩
    obtain ⟨targets, htargets, h⟩ := bind_ok h
    obtain ⟨order, horder, -⟩ := bind_ok h
    exact ⟨⟨targets, htargets⟩, (runnable_compiled_iff (compiled_of_mapM htargets)).mp (topoOrder_ok_iff.mp ⟨order, horder⟩)⟩
  · rintro ⟨⟨targets, htargets⟩, hrun⟩
    obtain ⟨order, horder⟩ := topoOrder_ok_iff.mpr ((runnable_compiled_iff (compiled_of_mapM htargets)).mpr hrun)
    refine ⟨(targets, order), ?_⟩
    rw [compileChartStages, htargets]
    change (topoOrder hash targets >>= fun order => pure (targets, order)) = _
    rw [horder]
    rfl

end Compiles

end Fluent.Router.Charts
