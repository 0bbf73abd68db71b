import Fluent.Dag.Checkpointed

namespace Fluent.Router

open Fluent.Dag Fluent.Library

inductive StepStatus
  | pending
  | inProgress
  | completed
  | failed
  | cancelled
  deriving DecidableEq, Repr

def StepStatus.fmt : StepStatus → String
  | .pending => "Pending"
  | .inProgress => "InProgress"
  | .completed => "Completed"
  | .failed => "Failed"
  | .cancelled => "Cancelled"

inductive DagError
  | stepNotFound (step : String)
  | stepAlreadyCompleted (step : String)
  | graph (e : GraphError)
  | checkpointNotFound (name : String)
  deriving DecidableEq, Repr

structure StepResult where
  content : String
  accepted : Bool
  error : Option String
  deriving DecidableEq, Repr

structure SessionStep where
  id : String
  status : StepStatus
  dependsOn : List String
  result : Option StepResult
  checkpoint : Bool
  deriving DecidableEq, Repr

def SessionStep.new (id : String) : SessionStep := ⟨id, .pending, [], none, false⟩

structure DependencySession where
  graph : CheckpointedStepGraph String SessionStep

namespace DependencySession

variable [Debug String]

def new : DependencySession := ⟨.new⟩

def getStep (s : DependencySession) (id : String) : Option SessionStep := s.graph.status id

def addStep (s : DependencySession) (step : SessionStep) :
    DependencySession × Except DagError Unit :=
  match s.graph.addStep step.id step.dependsOn step with
  | .error e => (s, .error (.graph e))
  | .ok graph => (⟨graph⟩, .ok ())

def startStep (s : DependencySession) (id : String) : DependencySession × Except DagError Unit :=
  match s.getStep id with
  | none => (s, .error (.stepNotFound id))
  | some step =>
    if step.status ≠ .pending then
      (s, .error (.stepAlreadyCompleted
        ("step '" ++ id ++ "' is not Pending (current: " ++ step.status.fmt ++ ")")))
    else (⟨s.graph.updateState (fun step => { step with status := .inProgress }) id⟩, .ok ())

def cancelStatus (step : SessionStep) : SessionStep :=
  if step.status = .pending ∨ step.status = .inProgress then { step with status := .cancelled }
  else step

def cancelDependents (s : DependencySession) (id : String) : DependencySession :=
  ⟨(s.graph.cancelDependents id).foldl (CheckpointedStepGraph.updateState cancelStatus) s.graph⟩

def shouldCancel (result : StepResult) : Bool := !result.accepted || result.error.isSome

def recordResult (result : StepResult) (step : SessionStep) : SessionStep :=
  { step with
    status := if shouldCancel result then .failed else .completed
    result := some result }

def settle (s : DependencySession) (id : String) (result : StepResult) : DependencySession :=
  let done : DependencySession := ⟨(s.graph.updateState (recordResult result) id).complete id⟩
  if shouldCancel result then done.cancelDependents id else done

def completeStep (s : DependencySession) (id : String) (result : StepResult) :
    DependencySession × Except DagError Unit :=
  match s.getStep id with
  | none => (s, .error (.stepNotFound id))
  | some step =>
    if step.status = .completed then (s, .error (.stepAlreadyCompleted id))
    else if step.checkpoint then
      match (s.settle id result).graph.checkpoint id with
      | .error e => (s.settle id result, .error (.graph e))
      | .ok graph => (⟨graph⟩, .ok ())
    else (s.settle id result, .ok ())

def finished (step : SessionStep) : Prop :=
  step.status = .completed ∨ step.status = .cancelled ∨ step.status = .failed

instance : DecidablePred finished := fun _ => inferInstanceAs (Decidable (_ ∨ _ ∨ _))

def resetStatus (step : SessionStep) : SessionStep :=
  if finished step then { step with status := .pending } else step

def rewindToCheckpoint (s : DependencySession) (name : String) :
    DependencySession × Except DagError Unit :=
  match s.graph.rewindTo name with
  | .error _ => (s, .error (.checkpointNotFound name))
  | .ok (graph, reset) =>
    (⟨reset.foldl (CheckpointedStepGraph.updateState resetStatus) graph⟩, .ok ())

def nextReady (s : DependencySession) : List String :=
  (s.graph.readySteps.filter (fun id => !s.graph.isCompleted id)).filter
    (fun id => (s.getStep id).any (fun step => step.status = .pending))

inductive Op
  | addStep (step : SessionStep)
  | startStep (id : String)
  | completeStep (id : String) (result : StepResult)
  | cancelDependents (id : String)
  | rewindToCheckpoint (name : String)

def perform (s : DependencySession) : Op → DependencySession
  | .addStep step => (s.addStep step).1
  | .startStep id => (s.startStep id).1
  | .completeStep id result => (s.completeStep id result).1
  | .cancelDependents id => s.cancelDependents id
  | .rewindToCheckpoint name => (s.rewindToCheckpoint name).1

def OffersReady (s : DependencySession) : Prop :=
  ∀ id ∈ s.nextReady, ∃ step, s.getStep id = some step ∧ step.status = .pending ∧
    ∀ d ∈ step.dependsOn, ∃ prereq, s.getStep d = some prereq ∧ prereq.status = .completed

def FailedSatisfied (s : DependencySession) (d : String) : Prop :=
  s.graph.isCompleted d ∧ ∃ step, s.getStep d = some step ∧ step.status = .failed

/-- No operation brings back a pending step behind a failed one: a step is not added on top of a
failed prerequisite, and a rewind that resets a step also resets its failed prerequisites. -/
def NoFailedPrereq (s : DependencySession) : Op → Prop
  | .addStep step => step.status = .pending → ∀ d ∈ step.dependsOn, ¬s.FailedSatisfied d
  | .rewindToCheckpoint name => ∀ idx, s.graph.checkpoints.lookup name = some idx →
      ∀ id ∈ s.graph.order.drop idx, ∀ step, s.getStep id = some step → finished step →
        ∀ d ∈ step.dependsOn, s.FailedSatisfied d → d ∈ s.graph.order.drop idx
  | _ => True

end DependencySession

end Fluent.Router
