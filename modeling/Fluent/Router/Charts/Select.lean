import Mathlib.Data.List.Destutter
import Fluent.Router.Charts.Compile

namespace Fluent.Router.Charts

open Fluent.Library
open Fluent.Spacy (Text)
open Fluent.Dag (Debug)

variable {N F : Type}

inductive ChartFit where
  | exactFit
  | partialFit (gaps : List Text)
  | mismatch
deriving DecidableEq

structure ChartMatch (N F : Type) where
  chart : Text
  score : F
  fit : ChartFit
  bindings : Option (Bindings N)

def deterministicPick : (candidates : List (Entity N)) → 2 ≤ candidates.length → Entity N
  | e :: rest, _ => rest.foldl (fun best e => if e.id < best.id then e else best) e

def pickAmbiguousCandidate (client : Option (AmbiguousDep N → Option Text)) (amb : AmbiguousDep N) :
    Option (Entity N) := do
  let ask ← client
  let entityId ← ask amb
  amb.candidates.find? (·.id = entityId)

def resolveAmbiguity (client : Option (AmbiguousDep N → Option Text)) (bindings : Bindings N) : Bindings N :=
  let resolved := bindings.ambiguous.foldl (fun resolved amb =>
    resolved.bindOne amb.dep
      ((pickAmbiguousCandidate client amb).getD (deterministicPick amb.candidates amb.several))) bindings
  { resolved with ambiguous := [] }

def buildMatch (num : Numbers N F) (client : Option (AmbiguousDep N → Option Text)) (chart : ChartDef F) (score : F)
    (entities : List (Entity N)) (llmGaps : List Text) : ChartMatch N F :=
  let bindings := resolveAmbiguity client (bindChart num entities chart)
  let gaps := ((bindings.unmatched ++ llmGaps).mergeSort).destutter (· ≠ ·)
  ⟨chart.name, score, if gaps = [] then .exactFit else .partialFit gaps, some bindings⟩

section Exact

variable {num : Numbers N F} {entities : List (Entity N)} {chart : ChartDef F}

theorem unmatched_resolveAmbiguity (client : Option (AmbiguousDep N → Option Text)) (bindings : Bindings N) :
    (resolveAmbiguity client bindings).unmatched = bindings.unmatched := by
  have hfold : ∀ (ambs : List (AmbiguousDep N)) (b : Bindings N), (ambs.foldl (fun resolved amb =>
      resolved.bindOne amb.dep ((pickAmbiguousCandidate client amb).getD
        (deterministicPick amb.candidates amb.several))) b).unmatched = b.unmatched := by
    intro ambs
    induction ambs with
    | nil => exact fun _ => rfl
    | cons amb ambs ih => exact fun b => ih _
  exact hfold bindings.ambiguous bindings

theorem fit_eq_exactFit_iff {client : Option (AmbiguousDep N → Option Text)} {score : F} {llmGaps : List Text} :
    (buildMatch num client chart score entities llmGaps).fit = .exactFit ↔
      (bindChart num entities chart).unmatched = [] ∧ llmGaps = [] := by
  have hgaps : (((bindChart num entities chart).unmatched ++ llmGaps).mergeSort).destutter (· ≠ ·) = [] ↔
      (bindChart num entities chart).unmatched = [] ∧ llmGaps = [] := by
    rw [List.destutter_eq_nil, ← List.length_eq_zero_iff, List.length_mergeSort, List.length_eq_zero_iff,
      List.append_eq_nil_iff]
  rw [← hgaps]
  unfold buildMatch
  dsimp only
  rw [unmatched_resolveAmbiguity]
  split
  · next h => exact ⟨fun _ => h, fun _ => rfl⟩
  · next h => exact ⟨(fun h => nomatch h), fun hnil => absurd hnil h⟩

theorem exact_fit_compiles_iff [Debug Text] {warnings : List ChartValidationWarning}
    (hvalid : chart.validate num = .ok warnings) (hacyclic : ∀ n, ¬Relation.TransGen (StageEdge chart) n n)
    {client : Option (AmbiguousDep N → Option Text)} {score : F} {llmGaps : List Text}
    (hexact : (buildMatch num client chart score entities llmGaps).fit = .exactFit) (hash : HashOrder Text) :
    (∃ out, compileChartStages num hash entities chart = .ok out) ↔
      ∀ target ∈ chart.targets, ∀ dep ∈ target.depends, dep.providedIn (inGraphAssets chart) = false →
        SeveralMatches num entities target dep.name → OneMatch num entities target dep.name := by
  rw [exists_compile_iff, and_iff_left ⟨ChartDef.nodup_of_validate hvalid, hacyclic⟩]
  refine forall₂_congr fun target htarget => forall₂_congr fun dep hdep => ?_
  have hmatched : dep.providedIn (inGraphAssets chart) = false → dep.must = true →
      OneMatch num entities target dep.name ∨ SeveralMatches num entities target dep.name := by
    intro hout hmust
    have hsome : depMatches num entities dep ≠ [] := by
      intro hnil
      have hgap := (mem_unmatched_bindChart dep.name chart).mpr ⟨target, htarget, dep, hdep, hout, hnil, hmust, rfl⟩
      rw [(fit_eq_exactFit_iff.mp hexact).1] at hgap
      cases hgap
    have hlength := List.length_pos_iff.mpr hsome
    rcases Nat.lt_or_ge (depMatches num entities dep).length 2 with hlt | hge
    · exact .inl ⟨dep, hdep, by omega, rfl⟩
    · exact .inr ⟨dep, hdep, hge, rfl⟩
  unfold Resolves
  cases hprov : dep.providedIn (inGraphAssets chart) with
  | true => exact ⟨(fun _ h => nomatch h), fun _ => .inl rfl⟩
  | false =>
    rw [or_iff_right (fun h => nomatch h), forall_prop_of_true rfl]
    cases hmust : dep.must with
    | true =>
      rw [or_iff_left (fun h => nomatch h.2)]
      exact ⟨fun h _ => h, fun h => (hmatched hprov hmust).elim id h⟩
    | false =>
      rw [and_iff_left rfl, or_comm, imp_iff_not_or]

end Exact

namespace Plain

scoped instance plainDebug : Debug Text := ⟨fun t => "\"" ++ String.ofList t ++ "\""⟩

def plainNumbers : Numbers Unit Unit :=
  ⟨fun _ => none, fun _ => [], fun _ => none, (), fun _ _ => false, fun _ _ => true, fun _ => true, fun _ => [],
    fun _ => []⟩

def fileTarget : ChartTarget Unit := ⟨['t'], [['o']], [.capability ['f']], ['p'], false, none⟩

def fileChart : ChartDef Unit := ⟨['c'], [], 1, [fileTarget], none⟩

def fileEntity (id : Text) : Entity Unit := ⟨id, ['f'], .null⟩

theorem fileChart_acyclic : ∀ n, ¬Relation.TransGen (StageEdge fileChart) n n := by
  intro n h
  have hnone : ∀ p n, ¬StageEdge fileChart p n := by
    rintro p n ⟨target, htarget, -, name, hdep, hlookup, -⟩
    obtain rfl := List.mem_singleton.mp htarget
    obtain rfl := DepSpec.capability.inj (List.mem_singleton.mp hdep)
    have hout : (providerOf fileChart).lookup ['f'] = none := by decide
    rw [hout] at hlookup
    cases hlookup
  obtain ⟨_, _, hedge⟩ := Relation.TransGen.tail'_iff.mp h
  exact hnone _ _ hedge

theorem one_file_compiles :
    (buildMatch plainNumbers none fileChart () [fileEntity ['a']] []).fit = .exactFit ∧
      ∀ hash, ∃ out, compileChartStages plainNumbers hash [fileEntity ['a']] fileChart = .ok out := by
  have hvalid : fileChart.validate plainNumbers = .ok _ := rfl
  have hexact : (buildMatch plainNumbers none fileChart () [fileEntity ['a']] []).fit = .exactFit :=
    fit_eq_exactFit_iff.mpr ⟨rfl, rfl⟩
  refine ⟨hexact, fun hash => (exact_fit_compiles_iff hvalid fileChart_acyclic hexact hash).mpr ?_⟩
  rintro target htarget dep hdep - ⟨dep', hdep', hseveral, -⟩
  obtain rfl := List.mem_singleton.mp htarget
  obtain rfl := List.mem_singleton.mp hdep'
  exact absurd hseveral (by decide)

theorem two_files_fit_and_do_not_compile :
    (∃ warnings, fileChart.validate plainNumbers = .ok warnings) ∧
      (∀ n, ¬Relation.TransGen (StageEdge fileChart) n n) ∧
      (buildMatch plainNumbers none fileChart () [fileEntity ['a'], fileEntity ['b']] []).fit = .exactFit ∧
      ∀ hash, compileChartStages plainNumbers hash [fileEntity ['a'], fileEntity ['b']] fileChart =
        .error (notFullyBound ['c'] "capability".toList ['f'] ['t'] "matches multiple entities (ambiguous)".toList) :=
  ⟨⟨_, rfl⟩, fileChart_acyclic, fit_eq_exactFit_iff.mpr ⟨rfl, rfl⟩, fun _ => rfl⟩

end Plain

end Fluent.Router.Charts
