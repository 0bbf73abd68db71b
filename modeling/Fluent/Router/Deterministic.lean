import Fluent.Router.InjectionDetect

open Fluent.Library

namespace Fluent.Router

open Fluent.Spacy (Text isWhitespace)
open CharRegex

abbrev CommandHandler := List Text → Except Text Text

inductive StageVerdict where
  | passed
  | rejected
  | rerouted
  | skipped
  | error
deriving DecidableEq

inductive StageMetadata where
  | empty
  | command (result cmd : Text)
  | blacklist (pattern : Text) (httpCode : ℕ)
  | piiFilter (verdict : PiiVerdict)
  | piiClasses (classes : List Text)
deriving DecidableEq

structure StageDecision where
  verdict : StageVerdict
  reason : Text
  metadata : StageMetadata
deriving DecidableEq

def builtinCommands : HashMap Text CommandHandler :=
  (((∅ : HashMap Text CommandHandler).insert "help".toList fun _ =>
      .ok "Available commands: /help, /stats, /checkpoint <name>".toList).insert "stats".toList fun _ =>
      .ok "Router statistics not yet available.".toList).insert "checkpoint".toList fun args =>
      match args with
      | [] => .error "usage: /checkpoint <name>".toList
      | name :: _ => .ok ("checkpoint '".toList ++ name ++ "' created.".toList)

def cardNumberRe : Pattern CharClass where
  core := between 13 19 (cat [digit, .rep false 0 none (oneOf (Llm.chars " -"))])
  isBounded := true

def builtinPatterns : List PatternEntry :=
  let entry (name : String) (outcome : FilterOutcome) (action : Option FilterAction) (gate : ConfidenceGate)
      (message : String) (re : Pattern CharClass) : PatternEntry :=
    ⟨name.toList, outcome, action, gate, [.any], some message.toList, [re.regex]⟩
  [entry "ssn" .outputFilter (some .redact) .none "SSN detected" Llm.ssnUsRe,
    entry "card_number" .outputFilter (some .redact) .luhnValid "Credit card number detected" cardNumberRe,
    entry "email" .outputFilter (some .anonymize) .none "Email detected" Llm.emailRe,
    entry "phone" .outputFilter (some .anonymize) .none "Phone number detected" Llm.phoneUsRe,
    entry "api_key" .hardReject none .none "API key detected" Llm.apiKeyRe]

def builtinFilters : List RegexFilter := builtinPatterns.filterMap RegexFilter.fromEntry

def builtinFilterEngine (U : Unicode) : DeterministicFilterEngine :=
  ⟨builtinFilters.map (RegexFilter.evaluate U) ++ [InjectionDetectFilter.evaluate U ⟨30⟩]⟩

def commandCaptures (U : Unicode) (trimmed : Text) : Option (Text × Option Text) :=
  let ends := fun re s => Regex.ends (CharClass.reading U) re none s
  ((ends (oneOf (Llm.chars "/.,")) trimmed).flatMap fun lead =>
    let afterLead := trimmed.drop lead
    (ends (cat [oneOf [.word], star (oneOf (.word :: Llm.chars "-"))]) afterLead).flatMap fun n =>
      let cmd := afterLead.take n
      let rest := afterLead.drop n
      ((ends (plus space) rest).flatMap fun gap =>
        (ends (star InjectionRules.dot) (rest.drop gap)).filterMap fun m =>
          if (rest.drop gap).drop m = [] then some (cmd, some ((rest.drop gap).take m)) else none) ++
      if rest = [] then [(cmd, none)] else []).head?

def splitWhitespace (text : Text) : List Text := (text.splitOnP isWhitespace).filter (· ≠ [])

structure DeterministicPreFilter where
  commandRegistry : HashMap Text CommandHandler
  filterEngine : DeterministicFilterEngine
  commandsEnabled : Bool

namespace DeterministicPreFilter

def new (U : Unicode) : DeterministicPreFilter := ⟨builtinCommands, builtinFilterEngine U, true⟩

def rejected (pattern message : Text) : Text × StageDecision :=
  ("rejected".toList,
    ⟨.rejected, "pattern match '".toList ++ pattern ++ "': ".toList ++ message, .blacklist pattern 422⟩)

def decideCommand (self : DeterministicPreFilter) (trimmed cmd : Text) (args : List Text) : Text × StageDecision :=
  match self.commandRegistry.lookup cmd with
  | some handler =>
    match handler args with
    | .ok result =>
      ("command_dispatched".toList,
        ⟨.rejected, "command '".toList ++ cmd ++ "' executed deterministically".toList, .command result cmd⟩)
    | .error e =>
      ("command_error".toList, ⟨.rejected, "command '".toList ++ cmd ++ "' parse error: ".toList ++ e, .empty⟩)
  | none =>
    match self.filterEngine.evaluate (.pipeline trimmed) with
    | some (.hardReject pattern message) => rejected pattern message
    | _ => ("unknown_command".toList, ⟨.rejected, "unknown command: '".toList ++ cmd ++ "'".toList, .empty⟩)

def passed : Text × StageDecision := ("passed".toList, ⟨.passed, "no command, no PII flags".toList, .piiClasses []⟩)

def decideMessage (self : DeterministicPreFilter) (input : Text) : Text × StageDecision :=
  match self.filterEngine.evaluate (.pipeline input) with
  | some (.hardReject pattern message) => rejected pattern message
  | some (.outputFilter action matchedPattern codewords hits) =>
    ("output_filter_flagged".toList,
      ⟨.passed, "PII flagged for output filtering: ".toList ++ matchedPattern,
        .piiFilter ⟨matchedPattern, action, codewords, hits⟩⟩)
  | some (.softRedirect _ _) => passed
  | none => passed

def commandOf (U : Unicode) (self : DeterministicPreFilter) (input : Text) : Option (Text × Option Text) :=
  if self.commandsEnabled then commandCaptures U input.trim else none

def decide (U : Unicode) (self : DeterministicPreFilter) (request : RouterRequest) :
    Except Text (Text × StageDecision) :=
  match extractUserMessage request with
  | none => .error "no user message found".toList
  | some input =>
    match self.commandOf U input with
    | some (cmd, args) => .ok (self.decideCommand input.trim cmd ((args.map splitWhitespace).getD []))
    | none => .ok (self.decideMessage input)

theorem rejected_iff_first_rejects (U : Unicode) (self : DeterministicPreFilter) (request : RouterRequest)
    (input : Text) (hinput : extractUserMessage request = some input) (hcommand : self.commandOf U input = none) :
    (∃ out, self.decide U request = .ok out ∧ out.2.verdict = .rejected) ↔
      ∃ before filter after, self.filterEngine.filters = before ++ filter :: after ∧
        (∀ g ∈ before, g (.pipeline input) = none) ∧
        ∃ pattern message, filter (.pipeline input) = some (.hardReject pattern message) := by
  have hdecide : self.decide U request = .ok (self.decideMessage input) := by
    simp only [decide, hinput, hcommand]
  have hverdict : (self.decideMessage input).2.verdict = .rejected ↔
      ∃ pattern message, self.filterEngine.evaluate (.pipeline input) = some (.hardReject pattern message) := by
    unfold decideMessage
    cases self.filterEngine.evaluate (.pipeline input) with
    | none => exact ⟨fun h => StageVerdict.noConfusion h, fun ⟨_, _, h⟩ => (nomatch h)⟩
    | some decision =>
      cases decision with
      | hardReject pattern message => exact ⟨fun _ => ⟨pattern, message, rfl⟩, fun _ => rfl⟩
      | softRedirect route reason => exact ⟨fun h => StageVerdict.noConfusion h, fun ⟨_, _, h⟩ => (nomatch h)⟩
      | outputFilter action matchedPattern codewords hits =>
        exact ⟨fun h => StageVerdict.noConfusion h, fun ⟨_, _, h⟩ => (nomatch h)⟩
  rw [hdecide]
  constructor
  · rintro ⟨out, hout, hrejected⟩
    obtain rfl := Except.ok.inj hout
    obtain ⟨pattern, message, heval⟩ := hverdict.mp hrejected
    obtain ⟨before, filter, after, hfilters, hfilter, hnone⟩ := List.findSome?_eq_some_iff.mp heval
    exact ⟨before, filter, after, hfilters, hnone, pattern, message, hfilter⟩
  · rintro ⟨before, filter, after, hfilters, hnone, pattern, message, hfilter⟩
    refine ⟨_, rfl, hverdict.mpr ⟨pattern, message, ?_⟩⟩
    exact List.findSome?_eq_some_iff.mpr ⟨before, filter, after, hfilters, hfilter, hnone⟩

def keyRequest (text : String) : RouterRequest :=
  ⟨[⟨"user".toList, .text text.toList⟩], ⟨none, none, none⟩⟩

theorem api_key_rejected :
    ∃ out, (new .ascii).decide .ascii (keyRequest "api_key=abcdefghijklmnop") = .ok out ∧
      out.2.verdict = .rejected :=
  (rejected_iff_first_rejects .ascii (new .ascii) (keyRequest "api_key=abcdefghijklmnop")
    "api_key=abcdefghijklmnop".toList (by decide +kernel) (by decide +kernel)).mpr
    ⟨(builtinFilterEngine .ascii).filters.take 4, RegexFilter.evaluate .ascii
        ⟨"api_key".toList, [Llm.apiKeyRe.regex], .hardReject, none, .none, [.any], "API key detected".toList⟩,
      [InjectionDetectFilter.evaluate .ascii ⟨30⟩], rfl, by decide +kernel, "api_key".toList,
      "API key detected".toList, by decide +kernel⟩

theorem api_key_passes_with_email :
    let input := "user@example.com api_key=abcdefghijklmnop".toList
    ((builtinFilterEngine .ascii).filters[4]?.map fun filter => filter (.pipeline input)) =
        some (some (.hardReject "api_key".toList "API key detected".toList)) ∧
      (new .ascii).commandOf .ascii input = none ∧
      ((new .ascii).decide .ascii (keyRequest "user@example.com api_key=abcdefghijklmnop")).map
        (fun out => out.2.verdict) = .ok .passed := by decide +kernel

end DeterministicPreFilter

end Fluent.Router
