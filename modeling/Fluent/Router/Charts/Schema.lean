import Mathlib.Data.List.Lex
import Mathlib.Order.Defs.LinearOrder
import Mathlib.Data.Char
import Fluent.Dag.TopoSort
import Fluent.Library.Fallible
import Fluent.Library.Utf8
import Fluent.Spacy.Hash

namespace Fluent.Router.Charts

open Fluent.Library
open Fluent.Spacy (Text)
open Fluent.Dag (DependencyGraph Debug)

scoped instance textOrder : LinearOrder Text where
  __ := (List.instLinearOrder : LinearOrder (List Char)).toPartialOrder
  le_total := (List.instLinearOrder : LinearOrder (List Char)).le_total
  toDecidableLE := (List.instLinearOrder : LinearOrder (List Char)).toDecidableLE
  toDecidableEq := instDecidableEqList
  compare a b := compareOfLessAndEq a b
  compare_eq_compareOfLessAndEq _ _ := rfl

inductive Json (N : Type) where
  | null
  | bool (b : Bool)
  | number (n : N)
  | string (s : Text)
  | array (items : List (Json N))
  | object (fields : List (Text × Json N))

namespace Json

variable {N : Type}

def asArray : Json N → Option (List (Json N))
  | array items => some items
  | _ => none

def asBool : Json N → Option Bool
  | bool b => some b
  | _ => none

def asStr : Json N → Option Text
  | string s => some s
  | _ => none

def isNull : Json N → Bool
  | null => true
  | _ => false

def get : Json N → Text → Option (Json N)
  | object fields, key => fields.lookup key
  | _, _ => none

end Json

/-- What the charts do with the numbers of JSON (`N`) and with floats (`F`). -/
structure Numbers (N F : Type) where
  asF64 : N → Option F
  toText : N → Text
  parseF64 : Text → Option F
  zero : F
  lt : F → F → Bool
  ge : F → F → Bool
  inUnit : F → Bool
  display : F → Text
  displayFixed : F → Text

inductive FieldType where
  | string
  | number
  | bool
  | array
  | any
deriving DecidableEq

structure FieldRule (F : Type) where
  path : Text
  ty : FieldType
  required : Bool
  min : Option F
  max : Option F
  pattern : Option Text

inductive EntityPredicate (F : Type) where
  | mk (fields : List (FieldRule F)) (anyOf : List (EntityPredicate F))

inductive DepSpec (F : Type) where
  | capability (name : Text)
  | entityMatch (name description : Text) (predicate : Option (EntityPredicate F)) (required : Bool)

def DepSpec.name {F : Type} : DepSpec F → Text
  | capability name => name
  | entityMatch name _ _ _ => name

structure ChartRubric (F : Type) where
  requireFields : List Text
  judgeModel : Option Text
  minScore : F

structure ChartTarget (F : Type) where
  name : Text
  provides : List Text
  depends : List (DepSpec F)
  template : Text
  essential : Bool
  rubric : Option (ChartRubric F)

structure ChartDef (F : Type) where
  name : Text
  description : Text
  schemaVersion : ℕ
  targets : List (ChartTarget F)
  rubric : Option (ChartRubric F)

inductive ChartError where
  | unsupportedVersion (version : ℕ)
  | invalid (reason : Text)
  | duplicateName (name : Text)
  | compile (reason : Text)
  | selection (reason : Text)
deriving DecidableEq

structure ChartValidationWarning where
  dep : Text
  message : Text
deriving DecidableEq

def chartDescriptionMaxChars : ℕ := 240

def chartSchemaVersion : ℕ := 1

def chartTemplateMaxChars : ℕ := 16384

section Validate

variable {N F : Type} (num : Numbers N F)

def ensure (p : Prop) [Decidable p] (e : ChartError) : Except ChartError Unit := if p then .ok () else .error e

def validateRubric (owner : Text) : Option (ChartRubric F) → Except ChartError Unit
  | none => .ok ()
  | some rubric => do
    ensure (∀ path ∈ rubric.requireFields, path.trim ≠ [])
      (.invalid (owner ++ " rubric has an empty require_fields path".toList))
    ensure (num.inUnit rubric.minScore)
      (.invalid (owner ++ " rubric min_score ".toList ++ num.display rubric.minScore ++ " outside [0,1]".toList))

structure Seen where
  targetNames : Finset Text
  provides : Finset Text
  anyProvides : Bool

def validateProvides (owner : Text) (seen : Finset Text) (provides : Text) : Except ChartError (Finset Text) := do
  ensure (provides ≠ []) (.invalid ("target '".toList ++ owner ++ "' has an empty provides entry".toList))
  ensure (provides ∉ seen) (.duplicateName provides)
  return insert provides seen

def validateTarget (seen : Seen) (target : ChartTarget F) : Except ChartError Seen := do
  ensure (target.name ≠ []) (.invalid "target name must be non-empty".toList)
  ensure (target.name ∉ seen.targetNames) (.duplicateName target.name)
  ensure (target.template ≠ [])
    (.invalid ("target '".toList ++ target.name ++ "' has an empty template".toList))
  ensure (target.template.length ≤ chartTemplateMaxChars)
    (.invalid ("target '".toList ++ target.name ++ "' template exceeds 16384 chars".toList))
  validateRubric num ("target '".toList ++ target.name ++ "'".toList) target.rubric
  let provides ← target.provides.foldlM (validateProvides target.name) seen.provides
  return ⟨insert target.name seen.targetNames, provides, seen.anyProvides || !target.provides.isEmpty⟩

def unresolvedCapabilityDeps [Debug Text] (chart : ChartDef F) : List ChartValidationWarning :=
  let graph := chart.targets.foldl (fun graph target =>
    let deps := target.depends.filterMap fun
      | .capability name => some name
      | .entityMatch .. => none
    match graph.register target.name deps (target.provides ++ [target.name]) with
    | .ok graph => graph
    | .error _ => graph) (.new : DependencyGraph Text)
  graph.unresolvedDeps.map fun dep =>
    ⟨dep, "capability dependency not provided by any chart target; expected to be satisfied by a bound entity".toList⟩

def isNameChar (c : Char) : Bool := c.isAlphanum || c == '_' || c == '-'

def ChartDef.validate [Debug Text] (chart : ChartDef F) : Except ChartError (List ChartValidationWarning) := do
  ensure (chart.name ≠ []) (.invalid "chart name must be non-empty".toList)
  ensure (chart.name.all isNameChar)
    (.invalid ("chart name '".toList ++ chart.name ++ "' must contain only alphanumerics, '_' or '-'".toList))
  ensure (chart.description.length ≤ chartDescriptionMaxChars) (.invalid "chart description exceeds 240 chars".toList)
  ensure (chart.schemaVersion = chartSchemaVersion) (.unsupportedVersion chart.schemaVersion)
  ensure (!chart.targets.isEmpty) (.invalid "chart has no targets".toList)
  validateRubric num "chart".toList chart.rubric
  let seen ← chart.targets.foldlM (validateTarget num) ⟨∅, ∅, false⟩
  ensure seen.anyProvides
    (.invalid "chart has no target that provides an asset; it can never be selected".toList)
  return unresolvedCapabilityDeps chart

theorem ensure_ok {p : Prop} [Decidable p] {e : ChartError} {u : Unit} (h : ensure p e = .ok u) : p := by
  unfold ensure at h
  split at h
  · next hp => exact hp
  · cases h

variable {num}

theorem validateTarget_ok {seen seen' : Seen} {target : ChartTarget F}
    (h : validateTarget num seen target = .ok seen') :
    target.name ∉ seen.targetNames ∧ seen'.targetNames = insert target.name seen.targetNames := by
  obtain ⟨-, -, h⟩ := bind_ok h
  obtain ⟨_, hnew, h⟩ := bind_ok h
  obtain ⟨-, -, h⟩ := bind_ok h
  obtain ⟨-, -, h⟩ := bind_ok h
  obtain ⟨-, -, h⟩ := bind_ok h
  obtain ⟨provides, -, h⟩ := bind_ok h
  obtain rfl := Except.ok.inj h
  exact ⟨ensure_ok hnew, rfl⟩

theorem foldlM_validateTarget {targets : List (ChartTarget F)} {seen seen' : Seen}
    (h : targets.foldlM (validateTarget num) seen = .ok seen') :
    (targets.map ChartTarget.name).Nodup ∧ ∀ target ∈ targets, target.name ∉ seen.targetNames := by
  induction targets generalizing seen with
  | nil => exact ⟨.nil, List.forall_mem_nil _⟩
  | cons target targets ih =>
    rw [List.foldlM_cons] at h
    obtain ⟨next, hnext, h⟩ := bind_ok h
    obtain ⟨hnew, hnames⟩ := validateTarget_ok hnext
    obtain ⟨hnodup, hfresh⟩ := ih h
    rw [hnames] at hfresh
    refine ⟨List.nodup_cons.mpr ⟨fun hmem => ?_, hnodup⟩, List.forall_mem_cons.mpr ⟨hnew, fun t ht hmem => ?_⟩⟩
    · obtain ⟨t, ht, hname⟩ := List.mem_map.mp hmem
      exact hfresh t ht (hname ▸ Finset.mem_insert_self _ _)
    · exact hfresh t ht (Finset.mem_insert_of_mem hmem)

theorem ChartDef.nodup_of_validate [Debug Text] {chart : ChartDef F} {warnings : List ChartValidationWarning}
    (h : chart.validate num = .ok warnings) : (chart.targets.map ChartTarget.name).Nodup := by
  obtain ⟨-, -, h⟩ := bind_ok h
  obtain ⟨-, -, h⟩ := bind_ok h
  obtain ⟨-, -, h⟩ := bind_ok h
  obtain ⟨-, -, h⟩ := bind_ok h
  obtain ⟨-, -, h⟩ := bind_ok h
  obtain ⟨-, -, h⟩ := bind_ok h
  obtain ⟨seen, hseen, h⟩ := bind_ok h
  exact (foldlM_validateTarget hseen).1

end Validate

end Fluent.Router.Charts
