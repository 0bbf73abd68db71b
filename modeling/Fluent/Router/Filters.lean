import Fluent.Library.Utf8
import Fluent.Llm.PiiPatterns
import Fluent.Router.Request

open Fluent.Library

namespace Fluent.Router

open Fluent.Spacy (Text)
open CharRegex

inductive FilterScope where
  | any
  | frontierBound
  | contentNodeWrite
deriving DecidableEq

inductive FilterOutcome where
  | hardReject
  | softRedirect
  | outputFilter
deriving DecidableEq

inductive ConfidenceGate where
  | luhnValid
  | none
deriving DecidableEq

inductive FilterDecision where
  | hardReject (pattern message : Text)
  | softRedirect (route reason : Text)
  | outputFilter (action : FilterAction) (matchedPattern : Text) (codewords : HashMap Text Text)
      (hits : List RegexMatch)
deriving DecidableEq

structure FilterContext where
  userMessage : Text
  activeScopes : List FilterScope

namespace FilterContext

def pipeline (userMessage : Text) : FilterContext := ⟨userMessage, [.any]⟩

def frontier (userMessage : Text) : FilterContext := ⟨userMessage, [.any, .frontierBound]⟩

def ledgerWrite (userMessage : Text) : FilterContext := ⟨userMessage, [.any, .contentNodeWrite]⟩

end FilterContext

abbrev Filter := FilterContext → Option FilterDecision

structure DeterministicFilterEngine where
  filters : List Filter

def DeterministicFilterEngine.evaluate (engine : DeterministicFilterEngine) (ctx : FilterContext) :
    Option FilterDecision := engine.filters.findSome? fun filter => filter ctx

def luhnValid (input : Text) : Bool :=
  let digits := (input.filter Char.isDigit).map fun c => c.toNat - '0'.toNat
  if digits.length < 13 ∨ digits.length > 19 then false
  else
    let sum := (digits.reverse.mapIdx fun i d =>
      if i % 2 = 1 then
        let n := d * 2
        if n > 9 then n - 9 else n
      else d).sum
    sum % 10 == 0

def hitsFrom : ℕ → List (Piece Char) → List (ℕ × Text)
  | _, [] => []
  | pos, .keep c :: ps => hitsFrom (pos + c.utf8Size) ps
  | pos, .hit w :: ps => (pos, w) :: hitsFrom (pos + utf8Len w) ps

def findIter (U : Unicode) (re : CharRegex) (text : Text) : List (ℕ × Text) :=
  hitsFrom 0 (Regex.pieces (CharClass.reading U) re false none text)

def isMatch (U : Unicode) (re : CharRegex) (text : Text) : Bool :=
  Regex.hasMatch (CharClass.reading U) re none text

structure RegexFilter where
  name : Text
  regexes : List CharRegex
  outcome : FilterOutcome
  action : Option FilterAction
  confidenceGate : ConfidenceGate
  scopes : List FilterScope
  errorMessage : Text

namespace RegexFilter

def admits (filter : RegexFilter) (matched : Text) : Bool :=
  match filter.confidenceGate with
  | .luhnValid => luhnValid matched
  | .none => true

def evaluate (U : Unicode) (filter : RegexFilter) (ctx : FilterContext) : Option FilterDecision :=
  if filter.scopes.any fun s => s ∈ ctx.activeScopes then
    match filter.outcome with
    | .hardReject => do
      let matched ← filter.regexes.find? fun re => isMatch U re ctx.userMessage
      let m ← (findIter U matched ctx.userMessage).head?
      if filter.admits m.2 then some (.hardReject filter.name filter.errorMessage) else none
    | .outputFilter =>
      let action := filter.action.getD .redact
      let hits := filter.regexes.flatMap fun re =>
        ((findIter U re ctx.userMessage).filter fun m => filter.admits m.2).map fun m =>
          ({ patternName := filter.name, matchedText := m.2, start := m.1, stop := m.1 + utf8Len m.2,
             action } : RegexMatch)
      if hits = [] then none else some (.outputFilter action filter.name ∅ hits)
    | .softRedirect => none
  else none

end RegexFilter

structure PatternEntry where
  name : Text
  outcome : FilterOutcome
  filterAction : Option FilterAction
  confidenceGate : ConfidenceGate
  scope : List FilterScope
  errorMessage : Option Text
  regexes : List CharRegex

def RegexFilter.fromEntry (entry : PatternEntry) : Option RegexFilter :=
  if entry.regexes = [] then none
  else some
    { name := entry.name
      regexes := entry.regexes
      outcome := entry.outcome
      action := entry.filterAction
      confidenceGate := entry.confidenceGate
      scopes := entry.scope
      errorMessage := entry.errorMessage.getD ("blocked by '".toList ++ entry.name ++ "'".toList) }

end Fluent.Router
