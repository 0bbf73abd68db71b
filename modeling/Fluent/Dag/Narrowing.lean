import Fluent.Dag.Registry
import Mathlib.Data.List.Sort

namespace Fluent.Dag

inductive ResolverError
  | circularDependency
  | targetNotFound (name : String)
  | missingDependency (text : String)
  | ambiguousDependency (name : String) (candidates : List String)
  deriving DecidableEq, Repr

namespace Narrowing

abbrev Stage := Target → Finset ℕ → Bool

def essential : Stage := fun t _ => t.essential

def strictSat : Stage := fun t fp => t.depends.notAny || t.depends.iterOnes.all (· ∈ fp)

def locality : Stage := fun t fp => !t.depends.notAny && t.depends.iterOnes.any (· ∈ fp)

def stages : List Stage := [essential, strictSat, locality]

def preferNoDeps (narrowed : List Target) : List Target :=
  let noDeps := narrowed.filter (·.depends.notAny)
  if noDeps ≠ [] ∧ noDeps.length < narrowed.length then noDeps else narrowed

def applyStage (fullProvides : Finset ℕ) (keep : Stage) (narrowed : List Target) : List Target :=
  let kept := narrowed.filter (keep · fullProvides)
  if kept ≠ [] then kept else narrowed

def runStages (fullProvides : Finset ℕ) : List Stage → List Target → List Target
  | [], narrowed => preferNoDeps narrowed
  | keep :: stages, narrowed =>
    let narrowed := applyStage fullProvides keep narrowed
    if narrowed.length ≤ 1 then narrowed else runStages fullProvides stages narrowed

def narrowProviders (candidates : List Target) (fullProvides : Finset ℕ) : List Target :=
  if candidates.length ≤ 1 then candidates
  else runStages fullProvides stages (candidates.insertionSort (fun a b => a.name ≤ b.name))

theorem preferNoDeps_spec {narrowed : List Target} (h : narrowed ≠ []) :
    preferNoDeps narrowed ≠ [] ∧ preferNoDeps narrowed ⊆ narrowed := by
  simp only [preferNoDeps]
  split_ifs with hc
  · exact ⟨hc.1, List.filter_subset_self _⟩
  · exact ⟨h, List.Subset.refl _⟩

theorem applyStage_spec (fullProvides : Finset ℕ) (keep : Stage) {narrowed : List Target}
    (h : narrowed ≠ []) : applyStage fullProvides keep narrowed ≠ [] ∧
      applyStage fullProvides keep narrowed ⊆ narrowed := by
  simp only [applyStage]
  split_ifs with hc
  · exact ⟨hc, List.filter_subset_self _⟩
  · exact ⟨h, List.Subset.refl _⟩

theorem runStages_spec (fullProvides : Finset ℕ) (stages : List Stage) {narrowed : List Target}
    (h : narrowed ≠ []) : runStages fullProvides stages narrowed ≠ [] ∧
      runStages fullProvides stages narrowed ⊆ narrowed := by
  induction stages generalizing narrowed with
  | nil => exact preferNoDeps_spec h
  | cons keep stages ih =>
    obtain ⟨hne, hsub⟩ := applyStage_spec fullProvides keep h
    simp only [runStages]
    split_ifs
    · exact ⟨hne, hsub⟩
    · exact ⟨(ih hne).1, List.Subset.trans (ih hne).2 hsub⟩

theorem narrowProviders_spec {candidates : List Target} (h : candidates ≠ []) (fullProvides : Finset ℕ) :
    narrowProviders candidates fullProvides ≠ [] ∧
      narrowProviders candidates fullProvides ⊆ candidates := by
  unfold narrowProviders
  split_ifs
  · exact ⟨h, List.Subset.refl _⟩
  · have hperm := List.perm_insertionSort (fun a b : Target => a.name ≤ b.name) candidates
    have hne : candidates.insertionSort (fun a b : Target => a.name ≤ b.name) ≠ [] :=
      fun hnil => h (List.perm_nil.mp (hnil ▸ hperm.symm))
    obtain ⟨hstages, hsub⟩ := runStages_spec fullProvides stages hne
    exact ⟨hstages, List.Subset.trans hsub hperm.subset⟩

def capName (caps : Option CapabilityRegistry) (cap : ℕ) : String :=
  ((caps.bind (·.getName cap))).getD ("cap_" ++ toString cap)

def missingProviderError (caps : Option CapabilityRegistry) (cap : ℕ) (targetName : String) :
    ResolverError :=
  .missingDependency ("no provider for '" ++ capName caps cap ++ "' (required by '" ++ targetName ++ "')")

def ambiguousError (caps : Option CapabilityRegistry) (cap : ℕ) (narrowed : List Target) : ResolverError :=
  .ambiguousDependency (capName caps cap) (narrowed.map Target.name)

end Narrowing

end Fluent.Dag
