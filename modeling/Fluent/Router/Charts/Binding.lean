import Mathlib.Data.List.Infix
import Fluent.Router.Charts.Schema

namespace Fluent.Router.Charts

open Fluent.Library
open Fluent.Spacy (Text)

structure Entity (N : Type) where
  id : Text
  kind : Text
  value : Json N

structure AmbiguousDep (N : Type) where
  dep : Text
  description : Text
  candidates : List (Entity N)
  several : 2 ≤ candidates.length

structure Bindings (N : Type) where
  satisfied : Finset Text
  entityMap : HashMap Text (List (Entity N))
  unmatched : List Text
  ambiguous : List (AmbiguousDep N)

variable {N F : Type}

def parseUsize (s : Text) : Option ℕ :=
  let digits := if s.head? = some '+' then s.tail else s
  if digits = [] ∨ !digits.all Char.isDigit then none
  else
    let n := digits.foldl (fun n c => 10 * n + (c.toNat - '0'.toNat)) 0
    if n < 18446744073709551616 then some n else none

def resolveSegment (v : Json N) (segment : Text) : Option (Json N) :=
  if '[' ∈ segment then
    if segment.getLast? ≠ some ']' then none
    else do
      let index ← parseUsize ((segment.dropWhile (· ≠ '[')).tail.dropLast)
      let obj ← v.get (segment.takeWhile (· ≠ '['))
      let items ← obj.asArray
      items[index]?
  else v.get segment

def resolvePath (v : Json N) (path : Text) : Option (Json N) :=
  if path.trim = ['.'] then some v else (path.splitOn '.').foldlM resolveSegment v

section Predicates

variable (num : Numbers N F)

def asF64 : Json N → Option F
  | .number n => num.asF64 n
  | .string s => num.parseF64 s
  | _ => none

def asString : Json N → Option Text
  | .string s => some s
  | .number n => some (num.toText n)
  | .bool b => some (if b then "true".toList else "false".toList)
  | _ => none

def typeMatches : FieldType → Json N → Bool
  | .any, _ => true
  | .string, .string _ => true
  | .number, .number _ => true
  | .number, .string s => (num.parseF64 s).isSome
  | .bool, .bool _ => true
  | .bool, .string s => s = "true".toList ∨ s = "false".toList
  | .array, .array _ => true
  | _, _ => false

def inRange (rule : FieldRule F) (field : Json N) : Bool :=
  if rule.min.isSome || rule.max.isSome then
    match asF64 num field with
    | some n => !(rule.min.any (num.lt n ·)) && !(rule.max.any (num.lt · n))
    | none => false
  else true

def hasPattern (rule : FieldRule F) (field : Json N) : Bool :=
  match rule.pattern with
  | none => true
  | some pattern => (asString num field).any fun s => pattern <:+: s

def evaluateField (rule : FieldRule F) (v : Json N) : Bool :=
  match resolvePath v rule.path with
  | none => !rule.required
  | some field => typeMatches num rule.ty field && inRange num rule field && hasPattern num rule field

mutual

def evaluatePredicate : EntityPredicate F → Json N → Bool
  | .mk fields anyOf, v => fields.all (evaluateField num · v) && (anyOf.isEmpty || evaluateAny anyOf v)

def evaluateAny : List (EntityPredicate F) → Json N → Bool
  | [], _ => false
  | pred :: preds, v => evaluatePredicate pred v || evaluateAny preds v

end

end Predicates

def assetKey (entity : Entity N) : Text := "entity:".toList ++ entity.kind ++ [':'] ++ entity.id

namespace Bindings

def empty : Bindings N := ⟨∅, ∅, [], []⟩

def bindOne (bindings : Bindings N) (dep : Text) (entity : Entity N) : Bindings N :=
  { bindings with
    satisfied := insert (assetKey entity) bindings.satisfied
    entityMap := HashMap.pushEntry bindings.entityMap dep entity }

def addUnmatched (bindings : Bindings N) (dep : Text) : Bindings N :=
  { bindings with unmatched := bindings.unmatched ++ [dep] }

def addAmbiguous (bindings : Bindings N) (dep description : Text) (candidates : List (Entity N))
    (several : 2 ≤ candidates.length) : Bindings N :=
  { bindings with ambiguous := bindings.ambiguous ++ [⟨dep, description, candidates, several⟩] }

def bindMatches (bindings : Bindings N) (dep : Text) : List (Entity N) → Bindings N
  | [] => bindings.addUnmatched dep
  | [entity] => bindings.bindOne dep entity
  | e₁ :: e₂ :: rest => bindings.addAmbiguous dep dep (e₁ :: e₂ :: rest) (Nat.le_add_left 2 rest.length)

end Bindings

def offers (name : Text) (entity : Entity N) : Bool :=
  entity.kind = name ||
    ((entity.value.get "provides".toList).bind Json.asArray).any fun items => items.any fun x => x.asStr = some name

section Bind

variable (num : Numbers N F) (entities : List (Entity N))

def bindDep (inGraph : Finset Text) (bindings : Bindings N) : DepSpec F → Bindings N
  | .capability name =>
    if name ∈ inGraph then bindings else bindings.bindMatches name (entities.filter (offers name))
  | .entityMatch name description predicate required =>
    match predicate with
    | none => if required then bindings.addUnmatched name else bindings
    | some pred =>
      match entities.filter fun e => evaluatePredicate num pred e.value with
      | [] => if required then bindings.addUnmatched name else bindings
      | [entity] => bindings.bindOne name entity
      | e₁ :: e₂ :: rest => bindings.addAmbiguous name description (e₁ :: e₂ :: rest) (Nat.le_add_left 2 rest.length)

def bindEntitiesImpl (deps : List (DepSpec F)) (inGraph : Finset Text) : Bindings N :=
  deps.foldl (bindDep num entities inGraph) .empty

def bindEntities (deps : List (DepSpec F)) : Bindings N := bindEntitiesImpl num entities deps ∅

def inGraphAssets (chart : ChartDef F) : Finset Text :=
  (chart.targets.flatMap fun target => target.name :: target.provides).toFinset

def mergeMap (a b : HashMap Text (List (Entity N))) : HashMap Text (List (Entity N)) := b ∪ a

def addTarget (inGraph : Finset Text) (agg : Bindings N) (target : ChartTarget F) : Bindings N :=
  let perTarget := bindEntitiesImpl num entities target.depends inGraph
  { satisfied := agg.satisfied ∪ perTarget.satisfied
    entityMap := mergeMap agg.entityMap perTarget.entityMap
    unmatched := perTarget.unmatched.foldl (fun out dep => if dep ∈ out then out else out ++ [dep]) agg.unmatched
    ambiguous := agg.ambiguous ++ perTarget.ambiguous }

def bindChart (chart : ChartDef F) : Bindings N :=
  chart.targets.foldl (addTarget num entities (inGraphAssets chart)) .empty

end Bind

section Spec

variable {num : Numbers N F} {entities : List (Entity N)} {inGraph : Finset Text}

def depMatches (num : Numbers N F) (entities : List (Entity N)) : DepSpec F → List (Entity N)
  | .capability name => entities.filter (offers name)
  | .entityMatch _ _ none _ => []
  | .entityMatch _ _ (some pred) _ => entities.filter fun e => evaluatePredicate num pred e.value

def DepSpec.must : DepSpec F → Bool
  | .capability _ => true
  | .entityMatch _ _ _ required => required

def DepSpec.providedIn (inGraph : Finset Text) : DepSpec F → Bool
  | .capability name => name ∈ inGraph
  | .entityMatch .. => false

inductive Bound (num : Numbers N F) (entities : List (Entity N)) (inGraph : Finset Text) (b : Bindings N)
    (dep : DepSpec F) : Bindings N → Prop
  | provided (h : dep.providedIn inGraph = true) : Bound num entities inGraph b dep b
  | skipped (h : dep.providedIn inGraph = false) (hnone : depMatches num entities dep = []) (hmust : dep.must = false) :
      Bound num entities inGraph b dep b
  | unmatched (h : dep.providedIn inGraph = false) (hnone : depMatches num entities dep = [])
      (hmust : dep.must = true) : Bound num entities inGraph b dep (b.addUnmatched dep.name)
  | one (h : dep.providedIn inGraph = false) {entity : Entity N} (hone : depMatches num entities dep = [entity]) :
      Bound num entities inGraph b dep (b.bindOne dep.name entity)
  | several (h : dep.providedIn inGraph = false) (description : Text) {candidates : List (Entity N)}
      (hmatch : depMatches num entities dep = candidates) (hseveral : 2 ≤ candidates.length) :
      Bound num entities inGraph b dep (b.addAmbiguous dep.name description candidates hseveral)

theorem bindDep_bound (b : Bindings N) (dep : DepSpec F) :
    Bound num entities inGraph b dep (bindDep num entities inGraph b dep) := by
  cases dep with
  | capability name =>
    rw [bindDep]
    split
    · next hin => exact .provided (decide_eq_true hin)
    · next hin =>
      have hout : (DepSpec.capability name : DepSpec F).providedIn inGraph = false := decide_eq_false hin
      cases hm : entities.filter (offers name) with
      | nil => exact .unmatched hout hm rfl
      | cons e₁ rest =>
        cases rest with
        | nil => exact .one hout hm
        | cons e₂ rest => exact .several hout name hm _
  | entityMatch name description predicate required =>
    have hgap : ∀ predicate : Option (EntityPredicate F),
        depMatches num entities (.entityMatch name description predicate required) = [] →
          Bound num entities inGraph b (.entityMatch name description predicate required)
            (if required then b.addUnmatched name else b) := by
      intro predicate hnone
      cases required with
      | true => exact .unmatched rfl hnone rfl
      | false => exact .skipped rfl hnone rfl
    cases predicate with
    | none => exact hgap none rfl
    | some pred =>
      rw [bindDep]
      cases hm : entities.filter fun e => evaluatePredicate num pred e.value with
      | nil => exact hgap (some pred) hm
      | cons e₁ rest =>
        cases rest with
        | nil => exact .one rfl hm
        | cons e₂ rest =>
          have hmatch : depMatches num entities (.entityMatch name description (some pred) required) = _ := hm
          exact .several rfl description hmatch _

theorem Bound.mem_unmatched {b b' : Bindings N} {dep : DepSpec F} (h : Bound num entities inGraph b dep b')
    (name : Text) : name ∈ b'.unmatched ↔ name ∈ b.unmatched ∨
      (dep.providedIn inGraph = false ∧ depMatches num entities dep = [] ∧ dep.must = true ∧ dep.name = name) := by
  cases h with
  | provided hin => simp [hin]
  | skipped hout hnone hmust => simp [hmust]
  | unmatched hout hnone hmust => simp [Bindings.addUnmatched, hout, hnone, hmust, eq_comm]
  | one hout hone => simp [Bindings.bindOne, hone]
  | several hout description hmatch hseveral =>
    have hne : depMatches num entities dep ≠ [] := by
      intro hnil
      rw [← hmatch, hnil] at hseveral
      cases hseveral
    simp [Bindings.addAmbiguous, hne]

theorem Bound.mem_entityMap {b b' : Bindings N} {dep : DepSpec F} (h : Bound num entities inGraph b dep b')
    (name : Text) : name ∈ b'.entityMap ↔ name ∈ b.entityMap ∨
      (dep.providedIn inGraph = false ∧ (depMatches num entities dep).length = 1 ∧ dep.name = name) := by
  cases h with
  | provided hin => simp [hin]
  | skipped hout hnone hmust => simp [hnone]
  | unmatched hout hnone hmust => simp [Bindings.addUnmatched, hnone]
  | one hout hone =>
    simp only [Bindings.bindOne, HashMap.pushEntry, Finmap.mem_insert, hone, hout, List.length_singleton, true_and,
      eq_comm, or_comm]
  | several hout description hmatch hseveral =>
    have hne : (depMatches num entities dep).length ≠ 1 := by
      rw [hmatch]
      omega
    simp [Bindings.addAmbiguous, hne]

def Bindings.IsAmbiguous (b : Bindings N) (name : Text) : Prop := ∃ a ∈ b.ambiguous, a.dep = name

theorem Bound.isAmbiguous {b b' : Bindings N} {dep : DepSpec F} (h : Bound num entities inGraph b dep b')
    (name : Text) : b'.IsAmbiguous name ↔ b.IsAmbiguous name ∨
      (dep.providedIn inGraph = false ∧ 2 ≤ (depMatches num entities dep).length ∧ dep.name = name) := by
  unfold Bindings.IsAmbiguous
  cases h with
  | provided hin => simp [hin]
  | skipped hout hnone hmust => simp [hnone]
  | unmatched hout hnone hmust => simp [Bindings.addUnmatched, hnone]
  | one hout hone => simp [Bindings.bindOne, hone]
  | several hout description hmatch hseveral => simp [Bindings.addAmbiguous, hout, hmatch, hseveral, or_and_right,
      exists_or]

theorem foldl_iff {α β : Type*} {step : β → α → β} {P : β → Prop} {Q : α → Prop}
    (h : ∀ b a, P (step b a) ↔ P b ∨ Q a) (l : List α) (b : β) : P (l.foldl step b) ↔ P b ∨ ∃ a ∈ l, Q a := by
  induction l generalizing b with
  | nil => simp
  | cons a l ih => rw [List.foldl_cons, ih, h, List.exists_mem_cons_iff, or_assoc]

variable (deps : List (DepSpec F)) (name : Text)

theorem mem_unmatched_bindEntitiesImpl : name ∈ (bindEntitiesImpl num entities deps inGraph).unmatched ↔
    ∃ dep ∈ deps, dep.providedIn inGraph = false ∧ depMatches num entities dep = [] ∧ dep.must = true ∧
      dep.name = name :=
  (foldl_iff (P := fun b : Bindings N => name ∈ b.unmatched) (fun b dep => (bindDep_bound b dep).mem_unmatched name) deps
    .empty).trans (or_iff_right List.not_mem_nil)

theorem mem_entityMap_bindEntitiesImpl : name ∈ (bindEntitiesImpl num entities deps inGraph).entityMap ↔
    ∃ dep ∈ deps, dep.providedIn inGraph = false ∧ (depMatches num entities dep).length = 1 ∧ dep.name = name :=
  (foldl_iff (P := fun b : Bindings N => name ∈ b.entityMap) (fun b dep => (bindDep_bound b dep).mem_entityMap name) deps
    .empty).trans (or_iff_right Finmap.notMem_empty)

theorem isAmbiguous_bindEntitiesImpl : (bindEntitiesImpl num entities deps inGraph).IsAmbiguous name ↔
    ∃ dep ∈ deps, dep.providedIn inGraph = false ∧ 2 ≤ (depMatches num entities dep).length ∧ dep.name = name :=
  (foldl_iff (P := fun b : Bindings N => b.IsAmbiguous name) (fun b dep => (bindDep_bound b dep).isAmbiguous name)
    deps .empty).trans (or_iff_right fun h => by obtain ⟨_, h, _⟩ := h; cases h)

theorem mem_unmatched_bindChart (chart : ChartDef F) : name ∈ (bindChart num entities chart).unmatched ↔
    ∃ target ∈ chart.targets, ∃ dep ∈ target.depends, dep.providedIn (inGraphAssets chart) = false ∧
      depMatches num entities dep = [] ∧ dep.must = true ∧ dep.name = name := by
  have hmerge : ∀ new old : List Text, name ∈ new.foldl (fun out dep => if dep ∈ out then out else out ++ [dep]) old ↔
      name ∈ old ∨ ∃ dep ∈ new, dep = name := by
    refine fun new old => foldl_iff (P := fun out => name ∈ out) (fun out dep => ?_) new old
    split
    · next hmem => exact ⟨.inl, fun h => h.elim id fun heq => heq ▸ hmem⟩
    · rw [List.mem_append, List.mem_singleton, eq_comm]
  refine (foldl_iff (P := fun b : Bindings N => name ∈ b.unmatched) (fun agg target => ?_) chart.targets .empty).trans
    (or_iff_right List.not_mem_nil)
  rw [← mem_unmatched_bindEntitiesImpl, addTarget, hmerge, exists_eq_right]

end Spec

end Fluent.Router.Charts
