import Mathlib.Data.List.Sort
import Fluent.Library.HashContainers
import Fluent.Router.LedgerGuard
import Fluent.Router.Ledger.ContentNode

open Fluent.Library

namespace Fluent.Router.Ledger

open Fluent.Spacy (Text)

inductive LedgerError where
  | notFound (id : NodeId)
  | invalidLod (level : UInt8)
  | noSummarizer
  | summary (message : Text)
  | db
deriving DecidableEq

structure LedgerRow where
  nodeId : NodeId
  content : Text
  contentJson : Text
deriving DecidableEq

/-- What the store runs on: the tables behind the filters, `serde_json` for nodes, and the summarizer. -/
structure Host (X : Type) where
  unicode : Unicode
  toJson : ContentNode X → Text
  fromJson : Text → Option (ContentNode X)
  summarizer : Option (Text → Except Text Text)

/-- The store, the table it writes to, and which of the statements to come fail. -/
structure ContentNodeStore (X : Type) where
  nodes : HashMap NodeId (ContentNode X)
  bySession : HashMap Text (List NodeId)
  byRole : HashMap Text (List NodeId)
  nextId : NodeId
  durable : Option (List LedgerRow)
  faults : List Bool

namespace Host

variable {X : Type} (host : Host X)

def scrub (text : Text) : ScrubbedText := (scrubForLedger host.unicode text).get (scrubForLedger_isSome ..)

theorem scrub_harmless {text : Text} (h : Harmless text) : host.scrub text = ⟨text, false, none⟩ := by
  unfold scrub
  simp only [h.scrub, Option.get_some]

def rowOf (id : NodeId) (node : ContentNode X) : LedgerRow := ⟨id, node.tier 0, host.toJson node⟩

def insertNodeRow (rows : List LedgerRow) (node : ContentNode X) : Option (List LedgerRow) :=
  let id := node.id.getD (rows.getLast?.elim 1 (·.nodeId + 1))
  if rows.any (·.nodeId = id) then none
  else some (rows.orderedInsert (fun a b => a.nodeId ≤ b.nodeId) (host.rowOf id node))

def updateNodeRow (rows : List LedgerRow) (node : ContentNode X) : List LedgerRow :=
  rows.map fun row => if node.id = some row.nodeId then host.rowOf row.nodeId node else row

variable (node : ContentNode X)

def scrubLod0 : ContentNode X :=
  if node.lod ≠ [] then node.setTier 0 (host.scrub (node.tier 0)).text else node

def guarded : ContentNode X :=
  if node.lod ≠ [] ∧ node.tier 0 ≠ [] then node.setTier 0 (host.scrub (node.tier 0)).text else node

def replaceFlagged : ContentNode X :=
  let s := host.scrub (node.tier 0)
  if s.flagged then ((node.padLod 6).setTier 0 s.text).setTier 5 [] else node

theorem mem_insertNodeRow {host : Host X} {rows rows' : List LedgerRow} {node : ContentNode X} {id : NodeId}
    (hid : node.id = some id) (h : host.insertNodeRow rows node = some rows') (row : LedgerRow) :
    row ∈ rows' ↔ row = host.rowOf id node ∨ row ∈ rows := by
  unfold insertNodeRow at h
  rw [hid] at h
  dsimp only [Option.getD_some] at h
  split_ifs at h
  rw [← Option.some.inj h, List.mem_orderedInsert]

theorem guarded_harmless {node : ContentNode X} (h : Harmless (node.tier 0)) : host.guarded node = node := by
  unfold guarded
  split_ifs with hne
  · rw [host.scrub_harmless h]
    exact node.setTier_tier (List.length_pos_of_ne_nil hne.1)
  · rfl

theorem scrubLod0_tier {level : ℕ} (h : level ≠ 0) :
    (host.scrubLod0 node).tier level = node.tier level := by
  unfold scrubLod0
  split_ifs
  · exact node.tier_setTier_ne h.symm _
  · rfl

theorem guarded_tier {level : ℕ} (h : level ≠ 0) :
    (host.guarded node).tier level = node.tier level := by
  unfold guarded
  split_ifs
  · exact node.tier_setTier_ne h.symm _
  · rfl

theorem scrubLod0_id : (host.scrubLod0 node).id = node.id := by
  unfold scrubLod0
  split_ifs <;> rfl

theorem guarded_id : (host.guarded node).id = node.id := by
  unfold guarded
  split_ifs <;> rfl

end Host

namespace ContentNodeStore

variable {X : Type} (host : Host X)

def empty (durable : Option (List LedgerRow)) : ContentNodeStore X := ⟨∅, ∅, ∅, 1, durable, []⟩

def statement (store : ContentNodeStore X) (run : List LedgerRow → Option (List LedgerRow)) :
    Except LedgerError Unit × ContentNodeStore X :=
  match store.durable with
  | none => (.ok (), store)
  | some rows =>
    match if store.faults.headD false then none else run rows with
    | none => (.error .db, { store with faults := store.faults.tail })
    | some rows => (.ok (), { store with faults := store.faults.tail, durable := some rows })

def persistInsert (store : ContentNodeStore X) (node : ContentNode X) : Except LedgerError Unit × ContentNodeStore X :=
  store.statement fun rows => host.insertNodeRow rows node

def persistUpdate (store : ContentNodeStore X) (node : ContentNode X) : Except LedgerError Unit × ContentNodeStore X :=
  store.statement fun rows => some (host.updateNodeRow rows node)

-- `fetch_add` on the counter wraps around
def allocate (store : ContentNodeStore X) : NodeId × ContentNodeStore X :=
  (store.nextId, { store with nextId := store.nextId + 1 })

def pushIndex (index : HashMap Text (List NodeId)) (key : Option Text) (id : NodeId) : HashMap Text (List NodeId) :=
  match key with
  | none => index
  | some key => HashMap.pushEntry index key id

def indexNode (store : ContentNodeStore X) (id : NodeId) : ContentNodeStore X :=
  match store.nodes.lookup id with
  | none => store
  | some node =>
    { store with
      bySession := pushIndex store.bySession node.sessionId id
      byRole := pushIndex store.byRole (node.role.map OriginRole.asStr) id }

-- the node goes into the maps before its row is written
def insertPrepared (store : ContentNodeStore X) (id : NodeId) (node : ContentNode X) :
    Except LedgerError NodeId × ContentNodeStore X :=
  let store := indexNode { store with nodes := store.nodes.insert id node } id
  match store.persistInsert host node with
  | (.error e, store) => (.error e, store)
  | (.ok (), store) => (.ok id, store)

def insertNode (store : ContentNodeStore X) (node : ContentNode X) : Except LedgerError NodeId × ContentNodeStore X :=
  let node := host.guarded node
  match node.id with
  | some id => store.insertPrepared host id node.ensureLodEager
  | none =>
    let (id, store) := store.allocate
    store.insertPrepared host id (ContentNode.ensureLodEager { node with id := some id })

def recordRequest (store : ContentNodeStore X) (sessionId requestId content : Text) (now : UInt64) :
    Except LedgerError NodeId × ContentNodeStore X :=
  let scrubbed := host.scrub content
  let (id, store) := store.allocate
  store.insertNode host (ContentNode.newNode id sessionId requestId "user".toList scrubbed.text none now)

def recordContentNode (store : ContentNodeStore X) (node : ContentNode X) :
    Except LedgerError NodeId × ContentNodeStore X :=
  let node := host.scrubLod0 node
  match node.id with
  | some _ => store.insertNode host node.ensureLodEager
  | none =>
    let (id, store) := store.allocate
    store.insertNode host (ContentNode.ensureLodEager { node with id := some id })

-- the shared node is changed first, and stays changed when the row cannot be written
def withNodeMut (store : ContentNodeStore X) (id : NodeId) (f : ContentNode X → ContentNode X) :
    Except LedgerError (ContentNode X) × ContentNodeStore X :=
  match store.nodes.lookup id with
  | none => (.error (.notFound id), store)
  | some node =>
    let node := (f node).ensureLodEager
    match persistUpdate host { store with nodes := store.nodes.insert id node } node with
    | (.error e, store) => (.error e, store)
    | (.ok (), store) => (.ok node, store)

def replaceText (text : Text) (activeLod : UInt8) (node : ContentNode X) : ContentNode X :=
  { (node.setTier 0 text).setTier 5 (deriveLabel node.roleName text) with activeLod := some activeLod }

def applyResult (accepted : Bool) (score : Option X) (scrubbed : Text) (node : ContentNode X) : ContentNode X :=
  let node := { node with accepted := some accepted, acceptanceScore := score }
  if scrubbed = [] then node else replaceText scrubbed 0 node

def recordResult (store : ContentNodeStore X) (id : NodeId) (accepted : Bool) (score : Option X) (content : Text) :
    Except LedgerError (ContentNode X) × ContentNodeStore X :=
  store.withNodeMut host id (applyResult accepted score (host.scrub content).text)

def collapseNode (store : ContentNodeStore X) (id : NodeId) (summary : Text) (lod : UInt8) :
    Except LedgerError (ContentNode X) × ContentNodeStore X :=
  store.withNodeMut host id (replaceText summary lod)

def updateNodeMetadata (store : ContentNodeStore X) (id : NodeId) (metadata : X) :
    Except LedgerError (ContentNode X) × ContentNodeStore X :=
  store.withNodeMut host id fun node => { node with metadata := some metadata }

def setActiveLod (store : ContentNodeStore X) (id : NodeId) (activeLod : UInt8) :
    Except LedgerError (ContentNode X) × ContentNodeStore X :=
  store.withNodeMut host id fun node => { node with activeLod := some activeLod }

def cacheTier (level : ℕ) (derived : Text) (node : ContentNode X) : ContentNode X :=
  (node.padLod (level + 1)).setTier level derived

def ensureTier (store : ContentNodeStore X) (id : NodeId) (level : UInt8) :
    Except LedgerError Unit × ContentNodeStore X :=
  if ¬(1 ≤ level ∧ level ≤ 4) then (.error (.invalidLod level), store)
  else
    match store.nodes.lookup id with
    | none => (.error (.notFound id), store)
    | some node =>
      match node.lod.head? with
      | none => (.error (.notFound id), store)
      | some fullText =>
        if node.tier level.toNat ≠ [] then (.ok (), store)
        else
          match host.summarizer with
          | none => (.error .noSummarizer, store)
          | some summarize =>
            match summarize fullText with
            | .error message => (.error (.summary message), store)
            | .ok derived =>
              match store.withNodeMut host id (cacheTier level.toNat derived) with
              | (.error e, store) => (.error e, store)
              | (.ok _, store) => (.ok (), store)

def ensureLod (store : ContentNodeStore X) (id : NodeId) (level : UInt8) :
    Except LedgerError (ContentNode X) × ContentNodeStore X :=
  match store.ensureTier host id level with
  | (.error e, store) => (.error e, store)
  | (.ok (), store) =>
    match store.nodes.lookup id with
    | none => (.error (.notFound id), store)
    | some node => (.ok node, store)

def turnKey (node : ContentNode X) : UInt64 := (node.turnIndex.or (node.id.map Int64.toUInt64)).getD 0

def sessionNodes (store : ContentNodeStore X) (sessionId : Text) : List (ContentNode X) :=
  (((store.bySession.lookup sessionId).getD []).filterMap store.nodes.lookup).mergeSort
    fun a b => turnKey b ≤ turnKey a

def selectLod (n maxNodes : ℕ) : List UInt8 :=
  if n ≤ maxNodes then List.replicate n 0
  else (List.range n).map fun i =>
    if n - i ≤ maxNodes / 4 then 0
    else if n - i ≤ maxNodes / 2 then 1
    else if n - i ≤ 3 * maxNodes / 4 then 2
    else 3

def demotions (store : ContentNodeStore X) (sessionId : Text) (maxNodes : ℕ) : List (NodeId × UInt8) :=
  let nodes := (store.sessionNodes sessionId).reverse
  (nodes.zip (selectLod nodes.length maxNodes)).filterMap fun (node, lod) =>
    if node.activeLod.getD 0 < lod then node.id.map (·, lod) else none

def demote (store : ContentNodeStore X) : List (NodeId × UInt8) → Except LedgerError Unit × ContentNodeStore X
  | [] => (.ok (), store)
  | (id, lod) :: rest =>
    match store.setActiveLod host id lod with
    | (.error e, store) => (.error e, store)
    | (.ok _, store) => store.demote rest

def compactSession (store : ContentNodeStore X) (sessionId : Text) (maxNodes : ℕ) :
    Except LedgerError (List NodeId) × ContentNodeStore X :=
  let demoted := store.demotions sessionId maxNodes
  match store.demote host demoted with
  | (.error e, store) => (.error e, store)
  | (.ok (), store) => (.ok (demoted.map Prod.fst), store)

def commitReviewInMemory (store : ContentNodeStore X) (parseId : NodeId) (metadata : X)
    (review : Option (NodeId × ContentNode X)) : ContentNodeStore X :=
  let store :=
    match store.nodes.lookup parseId with
    | none => store
    | some node => { store with nodes := store.nodes.insert parseId { node with metadata := some metadata } }
  match review with
  | none => store
  | some (id, node) => indexNode { store with nodes := store.nodes.insert id node } id

def reviewNode (store : ContentNodeStore X) (node : ContentNode X) : ContentNode X :=
  ContentNode.ensureLodEager { node with id := some store.nextId }

def reviewRows (store : ContentNodeStore X) (parseNode : ContentNode X) (review : Option (ContentNode X))
    (rows : List LedgerRow) : Option (List LedgerRow) :=
  match review with
  | none => some (host.updateNodeRow rows parseNode)
  | some node => host.insertNodeRow (host.updateNodeRow rows parseNode) (store.reviewNode node)

-- the transaction comes before the maps, and fails as a whole
def applyReview (store : ContentNodeStore X) (parseId : NodeId) (metadata : X) (review : Option (ContentNode X)) :
    Except LedgerError (Option NodeId) × ContentNodeStore X :=
  match store.nodes.lookup parseId with
  | none => (.error (.notFound parseId), store)
  | some parseNode =>
    let prepared := review.map fun node => (store.nextId, store.reviewNode node)
    let next := if review.isSome then store.allocate.2 else store
    match next.statement (store.reviewRows host { parseNode with metadata := some metadata } review) with
    | (.error e, store) => (.error e, store)
    | (.ok (), store) => (.ok (prepared.map Prod.fst), store.commitReviewInMemory parseId metadata prepared)

def hydrateRow (store : ContentNodeStore X) (row : LedgerRow) : ContentNodeStore X :=
  match host.fromJson row.contentJson with
  | none => store
  | some node =>
    let node := { node with contentHash := contentHashOf (node.tier 0) }
    { store with
      nodes := store.nodes.insert row.nodeId node
      bySession := pushIndex store.bySession node.sessionId row.nodeId
      byRole := pushIndex store.byRole (node.role.map OriginRole.asStr) row.nodeId }

-- a row that does not parse is passed over before its id is looked at
def maxId (rows : List LedgerRow) : NodeId :=
  rows.foldl (fun maxId row => if (host.fromJson row.contentJson).isSome then max maxId row.nodeId else maxId) 0

def hydrate (rows : List LedgerRow) : ContentNodeStore X :=
  { rows.foldl (hydrateRow host) (empty (some rows)) with nextId := maxId host rows + 1 }

def reopen (store : ContentNodeStore X) : ContentNodeStore X :=
  match store.durable with
  | none => empty none
  | some rows => { hydrate host rows with faults := store.faults }

end ContentNodeStore

namespace ContentNodeLedger

variable {X : Type} (host : Host X)

def recordRequest (store : ContentNodeStore X) (sessionId requestId content : Text) (now : UInt64) :
    Except LedgerError NodeId × ContentNodeStore X :=
  store.recordRequest host sessionId requestId (host.scrub content).text now

def recordResult (store : ContentNodeStore X) (id : NodeId) (accepted : Bool) (score : Option X) (content : Text) :
    Except LedgerError (ContentNode X) × ContentNodeStore X :=
  store.recordResult host id accepted score (host.scrub content).text

def recordContentNode (store : ContentNodeStore X) (node : ContentNode X) :
    Except LedgerError NodeId × ContentNodeStore X :=
  store.recordContentNode host (host.replaceFlagged node)

end ContentNodeLedger

inductive StoreOp (X : Type) where
  | recordRequest (sessionId requestId content : Text) (now : UInt64)
  | recordResult (id : NodeId) (accepted : Bool) (score : Option X) (content : Text)
  | recordContentNode (node : ContentNode X)
  | insertNode (node : ContentNode X)
  | collapseNode (id : NodeId) (summary : Text) (lod : UInt8)
  | ensureLod (id : NodeId) (level : UInt8)
  | compactSession (sessionId : Text) (maxNodes : ℕ)
  | updateNodeMetadata (id : NodeId) (metadata : X)
  | applyReview (parseId : NodeId) (metadata : X) (review : Option (ContentNode X))
  | ledgerRequest (sessionId requestId content : Text) (now : UInt64)
  | ledgerResult (id : NodeId) (accepted : Bool) (score : Option X) (content : Text)
  | ledgerContentNode (node : ContentNode X)
  | reopen

namespace ContentNodeStore

variable {X : Type} (host : Host X)

def step (store : ContentNodeStore X) : StoreOp X → ContentNodeStore X
  | .recordRequest sessionId requestId content now => (store.recordRequest host sessionId requestId content now).2
  | .recordResult id accepted score content => (store.recordResult host id accepted score content).2
  | .recordContentNode node => (store.recordContentNode host node).2
  | .insertNode node => (store.insertNode host node).2
  | .collapseNode id summary lod => (store.collapseNode host id summary lod).2
  | .ensureLod id level => (store.ensureLod host id level).2
  | .compactSession sessionId maxNodes => (store.compactSession host sessionId maxNodes).2
  | .updateNodeMetadata id metadata => (store.updateNodeMetadata host id metadata).2
  | .applyReview parseId metadata review => (store.applyReview host parseId metadata review).2
  | .ledgerRequest sessionId requestId content now =>
    (ContentNodeLedger.recordRequest host store sessionId requestId content now).2
  | .ledgerResult id accepted score content => (ContentNodeLedger.recordResult host store id accepted score content).2
  | .ledgerContentNode node => (ContentNodeLedger.recordContentNode host store node).2
  | .reopen => store.reopen host

def writeOnly : Host Unit where
  unicode := .ascii
  toJson node := node.tier 0
  fromJson _ := none
  summarizer := none

end ContentNodeStore

end Fluent.Router.Ledger
