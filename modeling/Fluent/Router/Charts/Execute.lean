import Fluent.CommonCore.LoadCache
import Fluent.Router.Charts.Compile

namespace Fluent.Router.Charts

open Fluent.Library
open Fluent.Spacy (Text)
open Fluent.CommonCore (LoadCache)
open Fluent.Dag (DependencyGraph Debug)

variable {N F K : Type}

structure RubricVerdict (F : Type) where
  accepted : Bool
  reason : Text
  score : Option F
  judged : Bool

/-- What the gate asks: the judge's answer as a value, if it gives one, and the hash of a rubric with an output. -/
structure Gate (N F K : Type) where
  judge : Option (ChartRubric F → Text → Json N → Option (Json N))
  key : ChartRubric F → Json N → K

abbrev RubricCache (K : Type) := LoadCache K Unit

def deterministicFieldsPass (output : Json N) : List Text → Except Text Unit
  | [] => .ok ()
  | path :: paths =>
    match resolvePath output path with
    | some v =>
      if v.isNull then .error ("required field '".toList ++ path ++ "' is null".toList)
      else deterministicFieldsPass output paths
    | none => .error ("output is missing required field '".toList ++ path ++ "'".toList)

def parseJudgeOutput (num : Numbers N F) (minScore : F) : Json N → Except ChartError (RubricVerdict F)
  | .object fields =>
    let value : Json N := .object fields
    let score := ((value.get "score".toList).bind fun
      | .number n => num.asF64 n
      | _ => none).getD num.zero
    let accepted := ((value.get "accepted".toList).bind Json.asBool).getD (num.ge score minScore)
    let reason := ((value.get "reason".toList).bind Json.asStr).getD "judge did not provide a reason".toList
    let finalAccepted := accepted && num.ge score minScore
    .ok ⟨finalAccepted,
      if finalAccepted then reason
      else "judge score ".toList ++ num.displayFixed score ++ " below min ".toList ++ num.displayFixed minScore ++
        ": ".toList ++ reason,
      some score, true⟩
  | _ => .error (.selection "rubric judge output is not a JSON object".toList)

def judgeOutput (num : Numbers N F) (judge : ChartRubric F → Text → Json N → Option (Json N)) (rubric : ChartRubric F)
    (owner : Text) (output : Json N) : Except ChartError (RubricVerdict F) :=
  match judge rubric owner output with
  | some value => parseJudgeOutput num rubric.minScore value
  | none => .error (.selection "rubric judge call failed".toList)

def RubricVerdict.pass : RubricVerdict F := ⟨true, "rubric gate passed".toList, none, false⟩

section CheckRubric

variable [DecidableEq K]

def recordAccepted (gate : Gate N F K) (cache : Option (RubricCache K)) (rubric : ChartRubric F) (output : Json N) :
    Option (RubricCache K) :=
  cache.map fun cache => cache.insert (gate.key rubric output) ()

def runGate (num : Numbers N F) (gate : Gate N F K) (cache : Option (RubricCache K)) (rubric : ChartRubric F)
    (output : Json N) (owner : Text) : RubricVerdict F × Option (RubricCache K) :=
  match deterministicFieldsPass output rubric.requireFields with
  | .error reason => (⟨false, reason, none, false⟩, cache)
  | .ok () =>
    match gate.judge.filter fun _ => rubric.judgeModel.isSome with
    | none => (.pass, recordAccepted gate cache rubric output)
    | some judge =>
      match judgeOutput num judge rubric owner output with
      | .ok verdict => (verdict, if verdict.accepted then recordAccepted gate cache rubric output else cache)
      | .error _ => (.pass, recordAccepted gate cache rubric output)

def checkRubric (num : Numbers N F) (gate : Gate N F K) (cache : Option (RubricCache K)) (rubric : ChartRubric F)
    (output : Json N) (owner : Text) : RubricVerdict F × Option (RubricCache K) :=
  match cache with
  | none => runGate num gate none rubric output owner
  | some known =>
    match known.get (gate.key rubric output) with
    | (some (), known) => (⟨true, "rubric gate passed (cached)".toList, none, false⟩, some known)
    | (none, known) => runGate num gate (some known) rubric output owner

end CheckRubric

inductive ChartTargetVerdict where
  | completed
  | failed
  | rubricRejected
  | cancelled
deriving DecidableEq

structure ChartAuditEntry where
  chart : Text
  target : Text
  verdict : ChartTargetVerdict
  reason : Text
deriving DecidableEq

structure StageDecision (N : Type) where
  reason : Text
  metadata : Json N

def chartOutputMetaKey : Text := "output".toList

inductive SupervisedBatchEvent (N : Type) where
  | completed (name : Text) (output : StageDecision N)
  | failed (name error : Text)
  | panicked (name info : Text)
  | cancelled (name : Text)

def SupervisedBatchEvent.name : SupervisedBatchEvent N → Text
  | completed name _ => name
  | failed name _ => name
  | panicked name _ => name
  | cancelled name => name

def SupervisedBatchEvent.isCompleted : SupervisedBatchEvent N → Bool
  | completed .. => true
  | _ => false

structure SupervisedBatchSummary (N : Type) where
  completed : List (SupervisedBatchEvent N)
  panicked : List (SupervisedBatchEvent N)
  failed : List (SupervisedBatchEvent N)
  cancelled : List (SupervisedBatchEvent N)

def SupervisedBatchSummary.events (s : SupervisedBatchSummary N) : List (SupervisedBatchEvent N) :=
  s.completed ++ s.panicked ++ s.failed ++ s.cancelled

structure ChartExecutionPlan (F : Type) where
  chartName : Text
  chartRubric : Option (ChartRubric F)
  targets : List (CompiledTarget F)
  order : List Text

def ChartExecutionPlan.compile [Debug Text] (num : Numbers N F) (hash : HashOrder Text) (entities : List (Entity N))
    (chart : ChartDef F) : Except ChartError (ChartExecutionPlan F) := do
  let (targets, order) ← compileChartStages num hash entities chart
  return ⟨chart.name, chart.rubric, targets, order⟩

structure Wave (N : Type) where
  registered : List Text
  completed : HashMap Text (StageDecision N)
  events : List (SupervisedBatchEvent N)

structure Execution (N K : Type) where
  completed : HashMap Text (StageDecision N)
  failed : Finset Text
  audit : List ChartAuditEntry
  cache : Option (RubricCache K)
  waves : List (Wave N)

/-- What the execution runs with: the gate, and how a batch of targets ends in the context of the completed ones. -/
structure Surroundings (N F K : Type) where
  num : Numbers N F
  gate : Gate N F K
  batch : List (CompiledTarget F) → HashMap Text (StageDecision N) → SupervisedBatchSummary N

structure ChartExecutionSummary (N : Type) where
  completed : List (StageDecision N)
  failed : List Text
  cancelled : List Text
  finalOutput : Option (Json N)
  audit : List ChartAuditEntry
  accepted : Bool

def ChartExecutionSummary.rubricRejected (summary : ChartExecutionSummary N) : Bool :=
  summary.audit.any fun e => e.verdict = .rubricRejected

namespace ChartExecutionPlan

variable [DecidableEq K] (plan : ChartExecutionPlan F) (env : Surroundings N F K)

variable (st : Execution N K)

def log (target : Text) (verdict : ChartTargetVerdict) (reason : Text) : Execution N K :=
  { st with audit := st.audit ++ [⟨plan.chartName, target, verdict, reason⟩] }

def fail (name : Text) (verdict : ChartTargetVerdict) (reason : Text) : Execution N K :=
  { plan.log st name verdict reason with failed := insert name st.failed }

def complete (name : Text) (decision : StageDecision N) : Execution N K :=
  { plan.log st name .completed decision.reason with completed := st.completed.insert name decision }

def outputOf (decision : StageDecision N) : Option (Json N) := decision.metadata.get chartOutputMetaKey

def processEvent : SupervisedBatchEvent N → Execution N K
  | .completed name decision =>
    match plan.targets.find? (·.name = name) with
    | none => st
    | some target =>
      match target.rubric with
      | none => plan.complete st name decision
      | some rubric =>
        let (verdict, cache) := checkRubric env.num env.gate st.cache rubric ((outputOf decision).getD .null) name
        if verdict.accepted then plan.complete { st with cache := cache } name decision
        else plan.fail { st with cache := cache } name .rubricRejected verdict.reason
  | .failed name error => plan.fail st name .failed error
  | .panicked name info => plan.fail st name .failed info
  | .cancelled name => plan.fail st name .cancelled "cancelled by supervisor".toList

def ready (graph : DependencyGraph Text) (st : Execution N K) : List (CompiledTarget F) :=
  ((graph.readyNodes st.completed.keys).filter fun name => name ∉ st.completed ∧ name ∉ st.failed).filterMap
    fun name => plan.targets.find? (·.name = name)

variable [Debug Text]

def registerUnit (graph : DependencyGraph Text) (target : CompiledTarget F) :
    Except ChartError (DependencyGraph Text) :=
  match graph.register target.stage.name target.stage.depends target.stage.provides with
  | .ok graph => .ok graph
  | .error _ => .error (.compile ("register chart target '".toList ++ target.name ++ "': task already registered: ".toList ++
      target.stage.name))

def openWave (ready : List (CompiledTarget F)) : Execution N K :=
  { st with waves := st.waves ++
      [⟨ready.map CompiledTarget.name, st.completed, (env.batch ready st.completed).events⟩] }

def runWave (ready : List (CompiledTarget F)) : Except ChartError (Execution N K) := do
  let _ ← ready.foldlM registerUnit .new
  return (env.batch ready st.completed).events.foldl (plan.processEvent env) (openWave env st ready)

def essentialFailed : Bool := plan.targets.any fun t => t.name ∈ st.failed ∧ t.essential

def runWaves (graph : DependencyGraph Text) : ℕ → Execution N K → Option (Except ChartError (Execution N K))
  | 0, _ => none
  | fuel + 1, st =>
    if (plan.ready graph st).isEmpty then some (.ok st)
    else
      match plan.runWave env st (plan.ready graph st) with
      | .error e => some (.error e)
      | .ok st => if plan.essentialFailed st then some (.ok st) else runWaves graph fuel st

omit [Debug Text] in
def start (cache : Option (RubricCache K)) : Execution N K := ⟨∅, ∅, [], cache, []⟩

def run (cache : Option (RubricCache K)) (fuel : ℕ) : Option (Except ChartError (Execution N K)) :=
  match stageGraph plan.targets with
  | .error e => some (.error (.compile ("stage graph invalid: ".toList ++ displayGraphError e)))
  | .ok graph => plan.runWaves env graph fuel (start cache)

omit [Debug Text] in
def summarize : ChartExecutionSummary N :=
  let names := plan.targets.map CompiledTarget.name
  let completed := names.filterMap st.completed.lookup
  let failed := names.filter fun name => name ∉ st.completed ∧ name ∈ st.failed
  let cancelled := names.filter fun name => name ∉ st.completed ∧ name ∉ st.failed
  let audit := st.audit ++ cancelled.map fun name => ⟨plan.chartName, name, .cancelled, "dependency failed".toList⟩
  let finalOutput := completed.getLast?.bind outputOf
  let accepted := failed.isEmpty && cancelled.isEmpty
  match plan.chartRubric, finalOutput with
  | some rubric, some output =>
    let verdict := (checkRubric env.num env.gate st.cache rubric output plan.chartName).1
    ⟨completed, failed, cancelled, finalOutput,
      if verdict.accepted then audit
      else audit ++ [⟨plan.chartName, "<chart>".toList, .rubricRejected, verdict.reason⟩],
      accepted && verdict.accepted⟩
  | _, _ => ⟨completed, failed, cancelled, finalOutput, audit, accepted⟩

def execute (cache : Option (RubricCache K)) (fuel : ℕ) : Option (Except ChartError (ChartExecutionSummary N)) :=
  (plan.run env cache fuel).map fun out => out.map (plan.summarize env)

end ChartExecutionPlan

end Fluent.Router.Charts
