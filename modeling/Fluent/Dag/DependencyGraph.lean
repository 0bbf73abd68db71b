import Fluent.Dag.KahnSort

namespace Fluent.Dag

open Fluent.Library

class Debug (K : Type*) where
  fmt : K → String

instance : Debug ℕ := ⟨fun n => toString n⟩

inductive GraphError
  | nodeNotFound (node : String)
  | circularDependency (nodes : String)
  | duplicateNode (node : String)
  deriving DecidableEq, Repr

structure DependencyGraph (K : Type*) where
  nodes : List K
  deps : HashMap K (List K)
  provides : HashMap K (List K)
  providesToDependents : HashMap K (List K)
  assetToProviders : HashMap K (List K)

namespace DependencyGraph

variable {K : Type*} [DecidableEq K]

def new : DependencyGraph K := ⟨[], ∅, ∅, ∅, ∅⟩

def register [Debug K] (g : DependencyGraph K) (node : K) (deps provides : List K) :
    Except GraphError (DependencyGraph K) :=
  if node ∈ g.deps then .error (.duplicateNode (Debug.fmt node))
  else .ok {
    nodes := g.nodes ++ [node]
    deps := g.deps.insert node deps
    provides := g.provides.insert node provides
    providesToDependents := HashMap.pushEntries g.providesToDependents deps node
    assetToProviders := HashMap.pushEntries g.assetToProviders provides node }

def scrubIndex (index : HashMap K (List K)) (asset node : K) : HashMap K (List K) :=
  match index.lookup asset with
  | none => index
  | some members =>
    let members := members.filter (· ≠ node)
    if members = [] then index.erase asset else index.insert asset members

def unregister (g : DependencyGraph K) (node : K) : DependencyGraph K × Bool :=
  match g.deps.lookup node with
  | none => (g, false)
  | some deps =>
    let provides := (g.provides.lookup node).getD []
    ({ nodes := g.nodes.filter (· ≠ node)
       deps := g.deps.erase node
       provides := g.provides.erase node
       providesToDependents := deps.foldl (fun ix a => scrubIndex ix a node) g.providesToDependents
       assetToProviders := provides.foldl (fun ix a => scrubIndex ix a node) g.assetToProviders },
      true)

def depsOf (g : DependencyGraph K) (node : K) : Option (List K) := g.deps.lookup node

def providesOf (g : DependencyGraph K) (node : K) : Option (List K) := g.provides.lookup node

def report (index : HashMap K (List K)) (out : List K) (dep : K) : List K :=
  if dep ∉ index ∧ dep ∉ out then out ++ [dep] else out

def unresolvedDeps (g : DependencyGraph K) : List K :=
  g.nodes.foldl
    (fun out node => ((g.deps.lookup node).getD []).foldl (report g.assetToProviders) out) []

def isReady (g : DependencyGraph K) (node : K) (satisfied : Finset K) : Bool :=
  match g.deps.lookup node with
  | some deps => deps.all (· ∈ satisfied)
  | none => false

def readyNodes (g : DependencyGraph K) (satisfied : Finset K) : List K :=
  g.nodes.filter (g.isReady · satisfied)

inductive Reachable [Debug K] : DependencyGraph K → Prop
  | new : Reachable new
  | register {g g' : DependencyGraph K} {node : K} {deps provides : List K} :
      Reachable g → g.register node deps provides = .ok g' → Reachable g'
  | unregister {g : DependencyGraph K} (node : K) : Reachable g → Reachable (g.unregister node).1

end DependencyGraph

end Fluent.Dag
