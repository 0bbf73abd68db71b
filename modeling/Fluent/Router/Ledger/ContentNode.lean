import Mathlib.Data.List.Basic
import Fluent.Spacy.Hash

namespace Fluent.Router.Ledger

open Fluent.Spacy (Text)

inductive OriginRole where
  | user
  | system
  | assistant
  | tool
  | subagent
  | selfOrigin
  | other (name : Text)
deriving DecidableEq

namespace OriginRole

def asStr : OriginRole → Text
  | user => "user".toList
  | system => "system".toList
  | assistant => "assistant".toList
  | tool => "tool".toList
  | subagent => "subagent".toList
  | selfOrigin => "self".toList
  | other name => name

def fromText (role : Text) : OriginRole :=
  if role.lower = "user".toList then user
  else if role.lower = "system".toList then system
  else if role.lower = "assistant".toList then assistant
  else if role.lower = "tool".toList then tool
  else if role.lower = "subagent".toList then subagent
  else if role.lower = "self".toList then selfOrigin
  else other role

end OriginRole

abbrev NodeId := Int64

/-- A node of the ledger. `X` stands for the values the store carries and never looks into. -/
structure ContentNode (X : Type) where
  id : Option NodeId
  name : Text
  source : Text
  contentHash : UInt64
  lod : List Text
  embedding : Option X
  capabilities : Option X
  sessionId : Option Text
  requestId : Option Text
  role : Option OriginRole
  turnIndex : Option UInt64
  accepted : Option Bool
  acceptanceScore : Option X
  activeLod : Option UInt8
  parentId : Option NodeId
  stepId : Option Text
  stepStatus : Option X
  metadata : Option X
  createdAt : Option UInt64
  annotation : Option X
deriving DecidableEq

def fnv1a64 (input : List UInt8) : UInt64 :=
  input.foldl (fun hash byte => (hash ^^^ byte.toUInt64) * 1099511628211) 14695981039346656037

def contentHashOf (content : Text) : UInt64 :=
  if content = [] then 0 else fnv1a64 content.bytes

def firstSentence (text : Text) : Text :=
  let trimmed := text.trim
  if trimmed = [] then []
  else
    match trimmed.findIdx? fun c => c = '.' ∨ c = '!' ∨ c = '?' with
    | some idx => Text.trim (trimmed.take (idx + 1))
    | none => trimmed.take 120

def takeBytes : Text → ℕ → Text
  | [], _ => []
  | c :: s, n => if c.utf8Size ≤ n then c :: takeBytes s (n - c.utf8Size) else []

def truncateUtf8 (s : Text) (maxBytes : ℕ) : Text :=
  if s.byteLen ≤ maxBytes then s else takeBytes s maxBytes ++ ['…']

def deriveLabel (role content : Text) : Text :=
  let sentence := firstSentence content
  let snippet := if sentence = [] then truncateUtf8 content 64 else truncateUtf8 sentence 64
  if snippet = [] then role else snippet

namespace ContentNode

variable {X : Type}

variable (node : ContentNode X)

def tier (level : ℕ) : Text := (node.lod[level]?).getD []

def roleName : Text := (node.role.map OriginRole.asStr).getD []

def setTier (level : ℕ) (text : Text) : ContentNode X :=
  { node with lod := node.lod.set level text }

def padLod (n : ℕ) : ContentNode X :=
  { node with lod := node.lod ++ List.replicate (n - node.lod.length) [] }

def ensureLodEager : ContentNode X :=
  let node := node.padLod 6
  let content := node.tier 0
  let node := { node with contentHash := contentHashOf content }
  if content = [] then node
  else
    let node := if node.tier 5 = [] then node.setTier 5 (deriveLabel node.roleName content) else node
    { node with activeLod := some (node.activeLod.getD 0) }

def newNode (id : NodeId) (sessionId requestId role content : Text) (accepted : Option Bool) (now : UInt64) :
    ContentNode X :=
  ensureLodEager
    { id := some id
      name := role ++ "-msg-".toList ++ (toString id.toInt).toList
      source := "session".toList
      contentHash := 0
      lod := [content, [], [], [], [], []]
      embedding := none
      capabilities := none
      sessionId := some sessionId
      requestId := some requestId
      role := some (OriginRole.fromText role)
      turnIndex := some id.toUInt64
      accepted := accepted
      acceptanceScore := none
      activeLod := some 0
      parentId := none
      stepId := none
      stepStatus := none
      metadata := none
      createdAt := some now
      annotation := none }

theorem tier_padLod (n level : ℕ) : (node.padLod n).tier level = node.tier level := by
  unfold padLod tier
  by_cases h : level < node.lod.length
  · rw [List.getElem?_append_left h]
  · rw [List.getElem?_append_right (by omega), List.getElem?_eq_none (by omega : node.lod.length ≤ level)]
    cases hpad : (List.replicate (n - node.lod.length) ([] : Text))[level - node.lod.length]? with
    | none => rfl
    | some text =>
      obtain ⟨hlt, htext⟩ := List.getElem?_eq_some_iff.mp hpad
      rw [List.getElem_replicate] at htext
      exact htext.symm

theorem le_length_padLod (n : ℕ) : n ≤ (node.padLod n).lod.length := by
  rw [padLod, List.length_append, List.length_replicate]
  omega

theorem tier_setTier_ne {level level' : ℕ} (h : level ≠ level') (text : Text) :
    (node.setTier level text).tier level' = node.tier level' := by
  rw [tier, setTier, List.getElem?_set_ne h]
  rfl

theorem tier_setTier_self {level : ℕ} (h : level < node.lod.length) (text : Text) :
    (node.setTier level text).tier level = text := by
  rw [tier, setTier, List.getElem?_set_self h]
  rfl

theorem setTier_tier {level : ℕ} (h : level < node.lod.length) :
    node.setTier level (node.tier level) = node := by
  unfold setTier tier
  rw [List.getElem?_eq_getElem h, Option.getD_some, List.set_getElem_self]

theorem length_setTier (level : ℕ) (text : Text) :
    (node.setTier level text).lod.length = node.lod.length :=
  List.length_set

theorem ensureLodEager_keeps :
    node.ensureLodEager.id = node.id ∧ node.ensureLodEager.sessionId = node.sessionId ∧
      node.ensureLodEager.role = node.role ∧ 6 ≤ node.ensureLodEager.lod.length ∧
      ∀ level < 5, node.ensureLodEager.tier level = node.tier level := by
  have hpad := node.le_length_padLod 6
  unfold ensureLodEager
  dsimp only
  split_ifs
  · exact ⟨rfl, rfl, rfl, hpad, fun level _ => node.tier_padLod 6 level⟩
  · refine ⟨rfl, rfl, rfl, (length_setTier ..).symm ▸ hpad, fun level hlevel => ?_⟩
    exact (tier_setTier_ne _ (by omega) _).trans (node.tier_padLod 6 level)
  · exact ⟨rfl, rfl, rfl, hpad, fun level _ => node.tier_padLod 6 level⟩

theorem tier_zero_newNode (id : NodeId) (sessionId requestId role content : Text) (accepted : Option Bool)
    (now : UInt64) : (newNode id sessionId requestId role content accepted now : ContentNode X).tier 0 = content :=
  (ensureLodEager_keeps _).2.2.2.2 0 (by decide)

end ContentNode

end Fluent.Router.Ledger
