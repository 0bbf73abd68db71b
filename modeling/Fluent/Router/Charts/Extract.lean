import Fluent.Library.Substring
import Fluent.Router.Charts.Schema

namespace Fluent.Router.Charts

open Fluent.Library
open Fluent.Spacy (Text)
open Fluent.Dag (Debug)

structure SlugOptions where
  asciiOnly : Bool
  separator : Char
  collapseRuns : Bool
  trimLeading : Bool
  trimTrailing : Bool
  maxChars : Option ℕ

def pushSlug (opts : SlugOptions) (out : Text) (c : Char) : Text :=
  if isNameChar c then out ++ [c]
  else if c = ' ' ∨ opts.asciiOnly then
    if opts.collapseRuns ∧ (out = [] ∨ out.getLast? = some opts.separator) then out else out ++ [opts.separator]
  else out

def slugifyWith (unicodeLowercase : Text → Text) (text : Text) (opts : SlugOptions) : Text :=
  let lowered := if opts.asciiOnly then text.map Char.toLower else unicodeLowercase text
  let out := lowered.foldl (pushSlug opts) []
  let out := if opts.trimLeading then out.dropWhile (· = opts.separator) else out
  let out := if opts.trimTrailing then (out.reverse.dropWhile (· = opts.separator)).reverse else out
  match opts.maxChars with
  | some max => out.take max
  | none => out

def chartExtractedNameMaxChars : ℕ := 64

def chartSlugOptions : SlugOptions := ⟨true, '_', true, false, true, some chartExtractedNameMaxChars⟩

def slugifyChartName (query : Text) : Text := slugifyWith id query chartSlugOptions

structure ChartAuditStep where
  id : Text
  prompt : Text
  dependsOn : List Text
  provides : List Text

structure ChartAuditTranscript where
  query : Text
  steps : List ChartAuditStep

def templateFromPrompt (prompt query : Text) : Text :=
  match if query ≠ [] then find query prompt else none with
  | some pos => prompt.take pos ++ "\x7b\x7b request \x7d\x7d".toList ++ prompt.drop (pos + query.length)
  | none => prompt ++ "\nUser request: \x7b\x7b request \x7d\x7d".toList

def ChartError.display : ChartError → Text
  | unsupportedVersion version => "unsupported chart schema version: ".toList ++ version.repr.toList
  | invalid reason => "invalid chart: ".toList ++ reason
  | duplicateName name => "duplicate chart entity name: ".toList ++ name
  | compile reason => "chart compile failed: ".toList ++ reason
  | selection reason => "chart selection failed: ".toList ++ reason

variable {N F : Type}

def ChartAuditStep.target (query : Text) (step : ChartAuditStep) : ChartTarget F where
  name := step.id
  provides := if step.id ∈ step.provides then step.provides else step.provides ++ [step.id]
  depends := step.dependsOn.map .capability
  template := templateFromPrompt step.prompt query
  essential := true
  rubric := none

section Extract

variable [Debug Text] (num : Numbers N F)

def checkValid (what : Text) (chart : ChartDef F) : Except ChartError Unit :=
  match chart.validate num with
  | .ok _ => .ok ()
  | .error e =>
    .error (.invalid (what ++ " '".toList ++ chart.name ++ "' failed validation: ".toList ++ e.display))

def extractChartFromAudit (transcript : ChartAuditTranscript) : Except ChartError (ChartDef F) := do
  let name := slugifyChartName transcript.query
  ensure (name ≠ []) (.invalid "cannot auto-extract a chart: query produced an empty name".toList)
  ensure (transcript.steps ≠ [])
    (.invalid ("cannot auto-extract chart '".toList ++ name ++ "': transcript has no steps".toList))
  let chart : ChartDef F :=
    ⟨name, "Auto-extracted from a solved dispatch: ".toList ++ transcript.query, chartSchemaVersion,
      transcript.steps.map (ChartAuditStep.target transcript.query), none⟩
  checkValid num "auto-extracted chart".toList chart
  return chart

end Extract

end Fluent.Router.Charts
