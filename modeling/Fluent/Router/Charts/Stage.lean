import Fluent.Router.Charts.Select

namespace Fluent.Router.Charts

open Fluent.Library
open Fluent.Spacy (Text)
open Fluent.Dag (Debug)

variable {N F : Type}

inductive WorkError where
  | execution (message : Text)
deriving DecidableEq

section Execute

variable [Debug Text]

def debugTexts (texts : List Text) : Text := ("[" ++ ", ".intercalate (texts.map Debug.fmt) ++ "]").toList

def ChartPromptStage.rebind (stage : ChartPromptStage F) (num : Numbers N F) (entities : List (Entity N)) :
    Except WorkError (Bindings N) :=
  let bindings := bindEntities num entities stage.dependsSpecs
  let unmatched := bindings.unmatched.filter (· ∉ stage.graphSatisfied)
  if unmatched ≠ [] then
    .error (.execution ("chart target '".toList ++ stage.name ++ "' has unmatched required deps: ".toList ++
      debugTexts unmatched))
  else if bindings.ambiguous ≠ [] then
    .error (.execution ("chart target '".toList ++ stage.name ++ "' has ambiguous deps: ".toList ++
      debugTexts (bindings.ambiguous.map AmbiguousDep.dep)))
  else .ok bindings

def ChartPromptStage.execute {Out : Type} (stage : ChartPromptStage F) (num : Numbers N F)
    (request : Except WorkError Text) (entities : List (Entity N))
    (complete : Text → Bindings N → Except WorkError Out) : Except WorkError Out := do
  let request ← request
  let bindings ← stage.rebind num entities
  complete request bindings

variable {num : Numbers N F} {entities : List (Entity N)} {chart : ChartDef F}

omit [Debug Text] in
theorem mem_graphSatisfied {providers : HashMap Text Text} {target : ChartTarget F} {name : Text} :
    name ∈ graphSatisfied providers target ↔
      .capability name ∈ target.depends ∧ ∃ p, providers.lookup name = some p ∧ p ≠ target.name := by
  rw [graphSatisfied, List.mem_filterMap]
  constructor
  · rintro ⟨dep, hdep, heq⟩
    cases dep with
    | capability name' =>
      dsimp only at heq
      split at heq
      · next hany =>
        obtain rfl := Option.some.inj heq
        cases hlookup : providers.lookup name' with
        | none => simp [hlookup] at hany
        | some p => exact ⟨hdep, p, rfl, by simpa [hlookup] using hany⟩
      · cases heq
    | entityMatch => cases heq
  · rintro ⟨hdep, p, hlookup, hne⟩
    exact ⟨_, hdep, if_pos (by simp [hlookup, hne])⟩

def Rebinds (num : Numbers N F) (entities : List (Entity N)) (chart : ChartDef F) (target : ChartTarget F)
    (dep : DepSpec F) : Prop :=
  (depMatches num entities dep).length < 2 ∧
    (depMatches num entities dep = [] → dep.must = true → .capability dep.name ∈ target.depends ∧
      ∃ p, (providerOf chart).lookup dep.name = some p ∧ p ≠ target.name)

theorem exists_rebind_iff {target : ChartTarget F} {t : CompiledTarget F} (h : CompiledFrom chart target t) :
    (∃ bindings, t.stage.rebind num entities = .ok bindings) ↔
      ∀ dep ∈ target.depends, Rebinds num entities chart target dep := by
  have hunmatched : (bindEntities num entities target.depends).unmatched.filter
      (· ∉ graphSatisfied (providerOf chart) target) = [] ↔ ∀ dep ∈ target.depends, depMatches num entities dep = [] →
        dep.must = true → .capability dep.name ∈ target.depends ∧
          ∃ p, (providerOf chart).lookup dep.name = some p ∧ p ≠ target.name := by
    rw [List.filter_eq_nil_iff]
    simp only [decide_eq_true_eq, not_not, mem_graphSatisfied]
    constructor
    · intro hall dep hdep hnone hmust
      exact hall dep.name ((mem_unmatched_bindEntitiesImpl _ _).mpr
        ⟨dep, hdep, providedIn_empty dep, hnone, hmust, rfl⟩)
    · intro hall name hname
      obtain ⟨dep, hdep, -, hnone, hmust, rfl⟩ := (mem_unmatched_bindEntitiesImpl _ _).mp hname
      exact hall dep hdep hnone hmust
  have hambiguous : (bindEntities num entities target.depends).ambiguous = [] ↔
      ∀ dep ∈ target.depends, (depMatches num entities dep).length < 2 := by
    rw [List.eq_nil_iff_forall_not_mem]
    constructor
    · intro hnone dep hdep
      by_contra hge
      obtain ⟨a, ha, -⟩ := (isAmbiguous_bindEntitiesImpl target.depends dep.name).mpr
        ⟨dep, hdep, providedIn_empty dep, Nat.le_of_not_lt hge, rfl⟩
      exact hnone a ha
    · intro hall a ha
      obtain ⟨dep, hdep, -, hge, -⟩ := (isAmbiguous_bindEntitiesImpl target.depends a.dep).mp ⟨a, ha, rfl⟩
      exact absurd hge (Nat.not_le.mpr (hall dep hdep))
  have hrebind : (∃ bindings, t.stage.rebind num entities = .ok bindings) ↔
      (bindEntities num entities target.depends).unmatched.filter
        (· ∉ graphSatisfied (providerOf chart) target) = [] ∧
      (bindEntities num entities target.depends).ambiguous = [] := by
    unfold ChartPromptStage.rebind
    rw [h.specs, h.satisfied]
    dsimp only
    split
    · next hne => exact iff_of_false not_exists_error_ok fun h => hne h.1
    · next hnil =>
      split
      · next hne => exact iff_of_false not_exists_error_ok fun h => hne h.2
      · next hnone => exact ⟨fun _ => ⟨not_not.mp hnil, not_not.mp hnone⟩, fun _ => ⟨_, rfl⟩⟩
  rw [hrebind, hunmatched, hambiguous, and_comm, ← forall₂_and]
  rfl

theorem execute_passes_iff {Out : Type} (stage : ChartPromptStage F) :
    (∀ (request : Text) (complete : Text → Bindings N → Except WorkError Out), ∃ bindings,
      stage.execute num (.ok request) entities complete = complete request bindings) ↔
        ∃ bindings, stage.rebind num entities = .ok bindings := by
  constructor
  · intro hall
    obtain ⟨bindings, h⟩ := hall [] fun _ _ => .error (.execution [])
    change (stage.rebind num entities >>= fun _ => .error (.execution [])) = _ at h
    unfold ChartPromptStage.rebind at h ⊢
    dsimp only at h ⊢
    split at h
    · cases h
    · next hnil =>
      rw [if_neg hnil]
      split at h
      · cases h
      · next hnone =>
        rw [if_neg hnone]
        exact ⟨_, rfl⟩
  · rintro ⟨bindings, h⟩ request complete
    refine ⟨bindings, ?_⟩
    change (stage.rebind num entities >>= complete request) = _
    rw [h]
    rfl

theorem stages_accept_compiled_iff {hash : HashOrder Text} {targets : List (CompiledTarget F)} {order : List Text}
    (h : compileChartStages num hash entities chart = .ok (targets, order)) (Out : Type) :
    (∀ t ∈ targets, ∀ (request : Text) (complete : Text → Bindings N → Except WorkError Out), ∃ bindings,
      t.stage.execute num (.ok request) entities complete = complete request bindings) ↔
      ∀ target ∈ chart.targets, ∀ dep ∈ target.depends, Rebinds num entities chart target dep := by
  obtain ⟨targets', htargets, h⟩ := bind_ok h
  obtain ⟨order', -, h⟩ := bind_ok h
  obtain ⟨rfl, rfl⟩ := Prod.mk.inj (Except.ok.inj h)
  have hfrom := compiled_of_mapM htargets
  simp only [execute_passes_iff]
  constructor
  · intro hall target htarget
    obtain ⟨t, ht, hcompiled⟩ := forall₂_mem_left hfrom htarget
    exact (exists_rebind_iff hcompiled).mp (hall t ht)
  · intro hall t ht
    obtain ⟨target, htarget, hcompiled⟩ := forall₂_mem_right hfrom ht
    exact (exists_rebind_iff hcompiled).mpr (hall target htarget)

end Execute

namespace Plain

def pairChart : ChartDef Unit :=
  ⟨['c'], [], 1, [⟨['a'], [['o']], [], ['p'], false, none⟩, ⟨['b'], [], [.capability ['a']], ['p'], false, none⟩], none⟩

theorem pairChart_edge {p n : Text} (h : StageEdge pairChart p n) : p = ['a'] ∧ n = ['b'] := by
  obtain ⟨target, htarget, rfl, name, hdep, hlookup, -⟩ := h
  have hprovider : (providerOf pairChart).lookup ['a'] = some ['a'] := by decide
  rcases List.mem_cons.mp htarget with rfl | htarget
  · cases hdep
  · obtain rfl := List.mem_singleton.mp htarget
    obtain rfl := DepSpec.capability.inj (List.mem_singleton.mp hdep)
    exact ⟨(Option.some.inj (hprovider.symm.trans hlookup)).symm, rfl⟩

theorem acyclic_of_one_edge {R : Text → Text → Prop} {a b : Text} (hne : a ≠ b) (h : ∀ p n, R p n → p = a ∧ n = b)
    (n : Text) : ¬Relation.TransGen R n n := by
  intro hcycle
  obtain ⟨_, _, hlast⟩ := Relation.TransGen.tail'_iff.mp hcycle
  obtain ⟨_, hfirst, _⟩ := Relation.TransGen.head'_iff.mp hcycle
  exact hne ((h _ _ hfirst).1.symm.trans (h _ _ hlast).2)

theorem pairChart_acyclic : ∀ n, ¬Relation.TransGen (StageEdge pairChart) n n :=
  acyclic_of_one_edge (by decide) fun _ _ => pairChart_edge

theorem pairChart_compiles (entities : List (Entity Unit)) (hash : HashOrder Text) :
    ∃ out, compileChartStages plainNumbers hash entities pairChart = .ok out := by
  refine exists_compile_iff.mpr ⟨fun target htarget dep hdep => .inl ?_, by decide, pairChart_acyclic⟩
  rcases List.mem_cons.mp htarget with rfl | htarget
  · cases hdep
  · obtain rfl := List.mem_singleton.mp htarget
    obtain rfl := List.mem_singleton.mp hdep
    decide

theorem no_entity_accepted :
    pairChart.targets.length = 2 ∧ ∀ hash, ∃ out, compileChartStages plainNumbers hash [] pairChart = .ok out ∧
      ∀ t ∈ out.1, ∀ (request : Text) (complete : Text → Bindings Unit → Except WorkError Unit), ∃ bindings,
        t.stage.execute plainNumbers (.ok request) [] complete = complete request bindings := by
  refine ⟨rfl, fun hash => ?_⟩
  obtain ⟨⟨targets, order⟩, hout⟩ := pairChart_compiles [] hash
  refine ⟨_, hout, (stages_accept_compiled_iff hout Unit).mpr fun target htarget dep hdep => ?_⟩
  rcases List.mem_cons.mp htarget with rfl | htarget
  · cases hdep
  · obtain rfl := List.mem_singleton.mp htarget
    obtain rfl := List.mem_singleton.mp hdep
    exact ⟨by decide, fun _ _ => ⟨List.mem_singleton_self _, ['a'], by decide, by decide⟩⟩

def pairEntity (id : Text) : Entity Unit := ⟨id, ['a'], .null⟩

theorem provided_capability_rejected :
    (∃ warnings, pairChart.validate plainNumbers = .ok warnings) ∧
      ∀ hash, ∃ out, compileChartStages plainNumbers hash [pairEntity ['x'], pairEntity ['y']] pairChart = .ok out ∧
        ∃ t ∈ out.1, ∀ (request : Text) (complete : Text → Bindings Unit → Except WorkError Unit),
          t.stage.execute plainNumbers (.ok request) [pairEntity ['x'], pairEntity ['y']] complete =
            .error (.execution "chart target 'b' has ambiguous deps: [\"a\"]".toList) := by
  refine ⟨⟨_, rfl⟩, fun hash => ?_⟩
  obtain ⟨⟨targets, order⟩, hout⟩ := pairChart_compiles [pairEntity ['x'], pairEntity ['y']] hash
  refine ⟨_, hout, ?_⟩
  obtain ⟨targets', htargets, h⟩ := bind_ok hout
  obtain ⟨order', -, h⟩ := bind_ok h
  obtain ⟨rfl, rfl⟩ := Prod.mk.inj (Except.ok.inj h)
  obtain rfl := Except.ok.inj htargets
  exact ⟨_, List.mem_cons_of_mem _ (List.mem_singleton_self _), fun _ _ => rfl⟩

end Plain

end Fluent.Router.Charts
