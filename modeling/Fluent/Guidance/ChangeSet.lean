import Mathlib.Data.Finset.Image
import Mathlib.Data.Char
import Mathlib.Data.List.Lex
import Fluent.CommonCore.LexicalPath
import Fluent.Library.HashContainers

namespace Fluent.Guidance

open Fluent.Library
open Fluent.Spacy (Text)
open Fluent.CommonCore.Path

inductive ChangeKind where
  | created
  | changed
  | deleted
deriving DecidableEq

inductive ChangeSetError where
  | notAbsolute (path : Text)
deriving DecidableEq

structure ChangeSetSnapshot where
  touchedFiles : List Text
  rescanDirectories : List Text
  deletedPrefixes : List Text
  forceFullReconcile : Bool
deriving DecidableEq

structure ChangeSet where
  touchedFiles : Finset Text
  rescanDirectories : Finset Text
  deletedPrefixes : Finset Text
  forceFullReconcile : Bool
  root : Option Text
  maxChangedPaths : ℕ

def gitignore : Text := ".gitignore".toList

def parentScope (root path : Text) : Text :=
  if path = root then path
  else
    let parent := (parentLexical path).getD root
    if parent = path then root
    else if parent = root ∨ (root ++ ['/']).isPrefixOf parent then parent
    else root

namespace ChangeSet

def new (root : Option Text) (maxChangedPaths : ℕ) : ChangeSet :=
  ⟨∅, ∅, ∅, false, root.map normalizeLexical, max maxChangedPaths 1⟩

def size (c : ChangeSet) : ℕ := c.touchedFiles.card + c.rescanDirectories.card + c.deletedPrefixes.card

def pathCoveredBy (paths : Finset Text) (path : Text) : Bool := path ∈ paths || ancestry.hasAncestor paths path

variable (order : HashOrder Text)

def collapseSet (paths : Finset Text) : Finset Text :=
  ancestry.prune ((order.iter paths).mergeSort fun left right => utf8Len left ≤ utf8Len right) paths

def collapsePaths (c : ChangeSet) : ChangeSet :=
  let rescans := collapseSet order c.rescanDirectories
  let deleted := collapseSet order c.deletedPrefixes
  { c with
    deletedPrefixes := deleted
    touchedFiles := c.touchedFiles.filter fun file =>
      ancestry.hasAncestor rescans file = false ∧ ancestry.hasAncestor deleted file = false
    rescanDirectories := rescans.filter fun directory => ancestry.hasAncestor deleted directory = false }

def widenLeaves (root : Text) (c : ChangeSet) : ChangeSet :=
  if c.touchedFiles = ∅ ∧ c.deletedPrefixes = ∅ then c
  else collapsePaths order { c with
    touchedFiles := ∅
    deletedPrefixes := ∅
    rescanDirectories := c.rescanDirectories ∪ (c.touchedFiles ∪ c.deletedPrefixes).image (parentScope root) }

def widenRescans (root : Text) (c : ChangeSet) : ChangeSet :=
  collapsePaths order { c with rescanDirectories := c.rescanDirectories.image (parentScope root) }

def widenLoop (root : Text) (c : ChangeSet) : ChangeSet :=
  if c.maxChangedPaths ≤ c.size then
    if (widenRescans order root c).size < c.size then widenLoop root (widenRescans order root c)
    else widenRescans order root c
  else c
termination_by c.size

def enforcePathBudget (c : ChangeSet) : ChangeSet :=
  let collapsed := collapsePaths order c
  if collapsed.size < collapsed.maxChangedPaths then collapsed
  else
    match collapsed.root with
    | none => { collapsed with forceFullReconcile := true }
    | some root => widenLoop order root (widenLeaves order root collapsed)

def record (c : ChangeSet) (path : Text) (kind : ChangeKind) (isDirectory : Bool) : ChangeSet :=
  if fileNameLexical path = gitignore then
    match parentLexical path with
    | some parent => { c with rescanDirectories := insert parent c.rescanDirectories }
    | none => c
  else if kind = .deleted then { c with deletedPrefixes := insert path c.deletedPrefixes }
  else if isDirectory then { c with rescanDirectories := insert path c.rescanDirectories }
  else { c with touchedFiles := insert path c.touchedFiles }

def withinBudget (c : ChangeSet) : ChangeSet := if c.maxChangedPaths ≤ c.size then enforcePathBudget order c else c

def add (c : ChangeSet) (path : Text) (kind : ChangeKind) (isDirectory : Bool) : Except ChangeSetError ChangeSet :=
  if c.forceFullReconcile && decide (0 < c.size) then .ok c
  else if isAbsoluteLexical path = false then .error (.notAbsolute path)
  else
    let normalized := normalizeLexical path
    if pathCoveredBy c.rescanDirectories normalized || pathCoveredBy c.deletedPrefixes normalized then .ok c
    else .ok (withinBudget order (c.record normalized kind isDirectory))

def requireFullReconcile (c : ChangeSet) : ChangeSet := { c with forceFullReconcile := true }

def merge (c : ChangeSet) (other : ChangeSetSnapshot) : ChangeSet :=
  if c.forceFullReconcile && decide (0 < c.size) then c
  else
    let merged := { c with
      touchedFiles := c.touchedFiles ∪ other.touchedFiles.toFinset
      rescanDirectories := c.rescanDirectories ∪ other.rescanDirectories.toFinset
      deletedPrefixes := c.deletedPrefixes ∪ other.deletedPrefixes.toFinset
      forceFullReconcile := c.forceFullReconcile || other.forceFullReconcile }
    if merged.forceFullReconcile then merged else withinBudget order merged

def sortedVec (paths : Finset Text) : List Text := (order.iter paths).mergeSort fun left right => left ≤ right

def snapshot (c : ChangeSet) : ChangeSetSnapshot × ChangeSet :=
  let collapsed := collapsePaths order c
  (⟨sortedVec order collapsed.touchedFiles, sortedVec order collapsed.rescanDirectories,
    sortedVec order collapsed.deletedPrefixes, collapsed.forceFullReconcile⟩, collapsed)

end ChangeSet

end Fluent.Guidance
