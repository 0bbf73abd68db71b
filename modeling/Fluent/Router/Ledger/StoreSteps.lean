import Fluent.Router.Ledger.NodeStore

open Fluent.Library

namespace Fluent.Router.Ledger

open Fluent.Spacy (Text)

namespace ContentNodeStore

variable {X : Type} {host : Host X}

section Statement

variable (store : ContentNodeStore X) (run : List LedgerRow → Option (List LedgerRow))

@[simp] theorem statement_nodes : (store.statement run).2.nodes = store.nodes := by
  unfold statement
  split
  · rfl
  · split <;> rfl

@[simp] theorem statement_nextId : (store.statement run).2.nextId = store.nextId := by
  unfold statement
  split
  · rfl
  · split <;> rfl

theorem statement_durable : (store.statement run).2.durable =
    store.durable.map fun rows => if store.faults.headD false then rows else (run rows).getD rows := by
  unfold statement
  cases hdurable : store.durable with
  | none => exact hdurable
  | some rows =>
    dsimp only [Option.map_some]
    cases store.faults.headD false with
    | true => rfl
    | false => cases run rows <;> rfl

end Statement

section InsertPrepared

variable (store : ContentNodeStore X) (id : NodeId) (node : ContentNode X)

theorem indexNode_inserted : indexNode { store with nodes := store.nodes.insert id node } id =
    { store with
      nodes := store.nodes.insert id node
      bySession := pushIndex store.bySession node.sessionId id
      byRole := pushIndex store.byRole (node.role.map OriginRole.asStr) id } := by
  unfold indexNode
  simp only [Finmap.lookup_insert]

theorem insertPrepared_snd : (store.insertPrepared host id node).2 =
    (persistInsert host { store with
      nodes := store.nodes.insert id node
      bySession := pushIndex store.bySession node.sessionId id
      byRole := pushIndex store.byRole (node.role.map OriginRole.asStr) id } node).2 := by
  unfold insertPrepared
  dsimp only
  rw [indexNode_inserted]
  split <;> rename_i h <;> exact (congrArg Prod.snd h).symm

@[simp] theorem insertPrepared_nodes :
    (store.insertPrepared host id node).2.nodes = store.nodes.insert id node := by
  rw [insertPrepared_snd, persistInsert, statement_nodes]

@[simp] theorem insertPrepared_nextId : (store.insertPrepared host id node).2.nextId = store.nextId := by
  rw [insertPrepared_snd, persistInsert, statement_nextId]

theorem insertPrepared_durable : (store.insertPrepared host id node).2.durable =
    store.durable.map fun rows =>
      if store.faults.headD false then rows else (host.insertNodeRow rows node).getD rows := by
  rw [insertPrepared_snd, persistInsert, statement_durable]

end InsertPrepared

section WithNodeMut

variable (store : ContentNodeStore X) (id : NodeId) (f : ContentNode X → ContentNode X)

theorem withNodeMut_of_none (h : store.nodes.lookup id = none) : (store.withNodeMut host id f).2 = store := by
  unfold withNodeMut
  rw [h]

theorem withNodeMut_snd {node : ContentNode X} (h : store.nodes.lookup id = some node) :
    (store.withNodeMut host id f).2 =
      (persistUpdate host { store with nodes := store.nodes.insert id (f node).ensureLodEager }
        (f node).ensureLodEager).2 := by
  unfold withNodeMut
  rw [h]
  dsimp only
  split <;> rename_i hpersist <;> exact (congrArg Prod.snd hpersist).symm

theorem withNodeMut_nodes {node : ContentNode X} (h : store.nodes.lookup id = some node) :
    (store.withNodeMut host id f).2.nodes = store.nodes.insert id (f node).ensureLodEager := by
  rw [withNodeMut_snd store id f h, persistUpdate, statement_nodes]

end WithNodeMut

section Insertions

variable (store : ContentNodeStore X) (node : ContentNode X)

def idFor : NodeId := node.id.getD store.nextId

def allocated : ContentNodeStore X := if node.id = none then store.allocate.2 else store

def insertedNode (host : Host X) : ContentNode X :=
  ContentNode.ensureLodEager { (host.guarded node) with id := some (store.idFor node) }

theorem insertNode_eq : store.insertNode host node =
    (store.allocated node).insertPrepared host (store.idFor node) (store.insertedNode node host) := by
  have hid : (host.guarded node).id = node.id := host.guarded_id node
  unfold insertNode insertedNode allocated idFor
  cases hnode : node.id with
  | none =>
    simp only [hid, hnode, if_true, Option.getD_none]
    rfl
  | some id =>
    simp only [hid, hnode, Option.getD_some]
    rw [if_neg (Option.some_ne_none id), ← hnode, ← hid]

theorem insertNode_of_id {id : NodeId} (h : node.id = some id) : store.insertNode host node =
    store.insertPrepared host id (host.guarded node).ensureLodEager := by
  unfold insertNode
  simp only [host.guarded_id, h]

def contentNode (host : Host X) : ContentNode X :=
  (host.guarded (ContentNode.ensureLodEager
    { (host.scrubLod0 node) with id := some (store.idFor node) })).ensureLodEager

theorem recordContentNode_eq : store.recordContentNode host node =
    (store.allocated node).insertPrepared host (store.idFor node) (store.contentNode node host) := by
  have hid : (host.scrubLod0 node).id = node.id := host.scrubLod0_id node
  unfold recordContentNode contentNode allocated idFor
  cases hnode : node.id with
  | none =>
    simp only [hid, hnode, if_true, Option.getD_none]
    exact insertNode_of_id _ _ (ContentNode.ensureLodEager_keeps _).1
  | some id =>
    simp only [hid, hnode, Option.getD_some]
    rw [if_neg (Option.some_ne_none id), ← hnode, ← hid]
    exact insertNode_of_id _ _ ((ContentNode.ensureLodEager_keeps _).1.trans (hid.trans hnode))

def requestNode (host : Host X) (sessionId requestId content : Text) (now : UInt64) : ContentNode X :=
  (host.guarded (ContentNode.newNode store.nextId sessionId requestId "user".toList (host.scrub content).text
    none now)).ensureLodEager

theorem recordRequest_eq (sessionId requestId content : Text) (now : UInt64) :
    store.recordRequest host sessionId requestId content now =
      store.allocate.2.insertPrepared host store.nextId (store.requestNode host sessionId requestId content now) :=
  insertNode_of_id _ _ (ContentNode.ensureLodEager_keeps _).1

theorem requestNode_harmless {content : Text} (h : Harmless content) (sessionId requestId : Text) (now : UInt64) :
    store.requestNode host sessionId requestId content now = (ContentNode.newNode store.nextId sessionId requestId
      "user".toList content none now).ensureLodEager := by
  unfold requestNode
  rw [host.scrub_harmless h, host.guarded_harmless]
  rw [ContentNode.tier_zero_newNode]
  exact h

end Insertions

section EnsureLod

variable (host : Host X) (store : ContentNodeStore X) (id : NodeId) (level : UInt8)

def derivedTier : Option Text :=
  if 1 ≤ level ∧ level ≤ 4 then
    match store.nodes.lookup id, host.summarizer with
    | some node, some summarize =>
      if node.lod ≠ [] ∧ node.tier level.toNat = [] then (summarize (node.tier 0)).toOption else none
    | _, _ => none
  else none

theorem ensureLod_snd : (store.ensureLod host id level).2 =
    match store.derivedTier host id level with
    | none => store
    | some derived => (store.withNodeMut host id (cacheTier level.toNat derived)).2 := by
  have hsnd : (store.ensureLod host id level).2 = (store.ensureTier host id level).2 := by
    unfold ensureLod
    split <;> rename_i h
    · rw [h]
    · rw [h]
      split <;> rfl
  rw [hsnd]
  unfold ensureTier derivedTier
  by_cases hlevel : 1 ≤ level ∧ level ≤ 4
  · rw [if_neg (not_not.mpr hlevel), if_pos hlevel]
    cases hnode : store.nodes.lookup id with
    | none => rfl
    | some node =>
      dsimp only
      cases hlod : node.lod with
      | nil =>
        cases host.summarizer with
        | none => rfl
        | some summarize =>
          dsimp only
          rw [if_neg fun h => h.1 hlod]
          rfl
      | cons full rest =>
        have hfull : node.tier 0 = full := by
          rw [ContentNode.tier, hlod]
          rfl
        dsimp only [List.head?_cons]
        by_cases htier : node.tier level.toNat = []
        · rw [if_neg (not_not.mpr htier)]
          cases host.summarizer with
          | none => rfl
          | some summarize =>
            dsimp only
            rw [if_pos ⟨hlod ▸ List.cons_ne_nil full rest, htier⟩, hfull]
            cases summarize full with
            | error message => rfl
            | ok derived =>
              dsimp only [Except.toOption]
              split <;> rename_i h <;> rw [h]
        · rw [if_pos htier]
          cases host.summarizer with
          | none => rfl
          | some summarize =>
            dsimp only
            rw [if_neg fun h => htier h.2]
  · rw [if_pos hlevel, if_neg hlevel]

variable {host store id level}

theorem derivedTier_spec {derived : Text} (h : store.derivedTier host id level = some derived) :
    (1 ≤ level.toNat ∧ level.toNat ≤ 4) ∧ ∃ node summarize, store.nodes.lookup id = some node ∧
      host.summarizer = some summarize ∧ summarize (node.tier 0) = .ok derived := by
  unfold derivedTier at h
  split_ifs at h with hlevel
  split at h <;> rename_i hlookup hsummarizer
  · rename_i node summarize
    split_ifs at h with hnode
    refine ⟨⟨UInt8.le_iff_toNat_le.mp hlevel.1, UInt8.le_iff_toNat_le.mp hlevel.2⟩, node, summarize, hlookup,
      hsummarizer, ?_⟩
    cases hresult : summarize (node.tier 0) with
    | error message =>
      rw [hresult] at h
      cases h
    | ok text =>
      rw [hresult] at h
      rw [Option.some.inj h]
  · cases h

end EnsureLod

theorem replaceText_tier {node : ContentNode X} (h : 6 ≤ node.lod.length) (text : Text) (lod : UInt8) :
    (replaceText text lod node).tier 0 = text ∧
      ∀ level, 1 ≤ level → level ≤ 4 → (replaceText text lod node).tier level = node.tier level := by
  refine ⟨?_, fun level h₁ h₄ => ?_⟩
  · exact (ContentNode.tier_setTier_ne _ (by decide) _).trans (ContentNode.tier_setTier_self _ (by omega) _)
  · exact (ContentNode.tier_setTier_ne _ (by omega) _).trans (ContentNode.tier_setTier_ne _ (by omega) _)

theorem cacheTier_tier (node : ContentNode X) {level level' : ℕ} (h : level ≠ level') (derived : Text) :
    (cacheTier level derived node).tier level' = node.tier level' :=
  (ContentNode.tier_setTier_ne _ h _).trans (node.tier_padLod (level + 1) level')

theorem statement_run {store : ContentNodeStore X} {rows rows' : List LedgerRow}
    {run : List LedgerRow → Option (List LedgerRow)} (hrows : store.durable = some rows) (hfault : store.faults.headD false = false)
    (h : run rows = some rows') :
    store.statement run = (.ok (), { store with faults := store.faults.tail, durable := some rows' }) := by
  unfold statement
  rw [hrows]
  simp only [hfault, Bool.false_eq_true, if_false, h]

def AllNodes (Q : NodeId → ContentNode X → Prop) (store : ContentNodeStore X) : Prop :=
  ∀ id node, store.nodes.lookup id = some node → Q id node

section AllNodes

variable {Q : NodeId → ContentNode X → Prop} {store : ContentNodeStore X} {id : NodeId}

theorem allNodes_empty (durable : Option (List LedgerRow)) (faults : List Bool) :
    AllNodes Q ({ empty durable with faults := faults } : ContentNodeStore X) := by
  intro id node h
  rw [empty, Finmap.lookup_empty] at h
  cases h

theorem allNodes_of_insert {store' : ContentNodeStore X} {node : ContentNode X} (h : AllNodes Q store)
    (hnodes : store'.nodes = store.nodes.insert id node) : AllNodes Q store' ↔ Q id node := by
  unfold AllNodes
  simp only [hnodes, HashMap.lookup_insert_ite]
  constructor
  · exact fun h' => h' id node (if_pos rfl)
  · intro hnode id' node' hlookup
    split_ifs at hlookup with hid
    · rw [hid, ← Option.some.inj hlookup]
      exact hnode
    · exact h id' node' hlookup

theorem allNodes_insertPrepared (h : AllNodes Q store) (node : ContentNode X) :
    AllNodes Q (store.insertPrepared host id node).2 ↔ Q id node :=
  allNodes_of_insert h (insertPrepared_nodes store id node)

theorem allNodes_withNodeMut (h : AllNodes Q store) (f : ContentNode X → ContentNode X) :
    AllNodes Q (store.withNodeMut host id f).2 ↔
      ∀ node, store.nodes.lookup id = some node → Q id (f node).ensureLodEager := by
  cases hlookup : store.nodes.lookup id with
  | none =>
    rw [withNodeMut_of_none store id f hlookup]
    exact iff_of_true h fun node hnode => (Option.some_ne_none node hnode.symm).elim
  | some node =>
    rw [allNodes_of_insert h (withNodeMut_nodes store id f hlookup)]
    exact ⟨fun hq node' hnode => Option.some.inj hnode ▸ hq, fun hq => hq node rfl⟩

theorem allNodes_allocate (h : AllNodes Q store) : AllNodes Q store.allocate.2 := h

theorem allNodes_allocated (h : AllNodes Q store) (node : ContentNode X) : AllNodes Q (store.allocated node) := by
  unfold allocated
  split_ifs
  · exact h
  · exact h

theorem allNodes_commitReview (h : AllNodes Q store) {parseId : NodeId} {metadata : X}
    (hparse : ∀ node, Q parseId node → Q parseId { node with metadata := some metadata })
    {review : Option (NodeId × ContentNode X)} (hreview : ∀ r ∈ review, Q r.1 r.2) :
    AllNodes Q (store.commitReviewInMemory parseId metadata review) := by
  have hstored : AllNodes Q (store.commitReviewInMemory parseId metadata none) := by
    unfold commitReviewInMemory
    dsimp only
    split <;> rename_i hlookup
    · exact h
    · exact (allNodes_of_insert h rfl).mpr (hparse _ (h parseId _ hlookup))
  cases review with
  | none => exact hstored
  | some r =>
    refine (allNodes_of_insert hstored ?_).mpr (hreview r rfl)
    unfold commitReviewInMemory
    dsimp only
    rw [indexNode_inserted]

theorem allNodes_applyReview (h : AllNodes Q store) {parseId : NodeId} {metadata : X}
    (hparse : ∀ node, Q parseId node → Q parseId { node with metadata := some metadata })
    {review : Option (ContentNode X)} (hreview : ∀ node ∈ review, Q store.nextId (store.reviewNode node)) :
    AllNodes Q (store.applyReview host parseId metadata review).2 := by
  unfold applyReview
  split
  · exact h
  · rename_i parseNode _
    have hstatement : AllNodes Q ((if review.isSome then store.allocate.2 else store).statement
        (store.reviewRows host { parseNode with metadata := some metadata } review)).2 := by
      unfold AllNodes
      rw [statement_nodes]
      split_ifs
      · exact h
      · exact h
    dsimp only
    split <;> rename_i hresult <;> rw [hresult] at hstatement
    · exact hstatement
    · refine allNodes_commitReview hstatement hparse fun r hr => ?_
      obtain ⟨node, hnode, rfl⟩ := Option.map_eq_some_iff.mp hr
      exact hreview node hnode

theorem demote_induction {P : ContentNodeStore X → Prop} (hP : ∀ store id lod, P store →
      P (store.setActiveLod host id lod).2) (demoted : List (NodeId × UInt8)) {store : ContentNodeStore X} (h : P store) :
    P (store.demote host demoted).2 := by
  induction demoted generalizing store with
  | nil => exact h
  | cons d rest ih =>
    have hset := hP store d.1 d.2 h
    unfold demote
    split <;> rename_i hresult
    · rw [hresult] at hset
      exact hset
    · rw [hresult] at hset
      exact ih hset

theorem compactSession_induction {P : ContentNodeStore X → Prop} (hP : ∀ store id lod, P store →
      P (store.setActiveLod host id lod).2) (h : P store) (sessionId : Text) (maxNodes : ℕ) :
    P (store.compactSession host sessionId maxNodes).2 := by
  have hdemote := demote_induction hP (store.demotions sessionId maxNodes) h
  unfold compactSession
  dsimp only
  split <;> rename_i hresult <;> rw [hresult] at hdemote <;> exact hdemote

end AllNodes

end ContentNodeStore

def KeepsKeys {X : Type} (f : ContentNode X → ContentNode X) : Prop :=
  ∀ node, (f node).id = node.id ∧ (f node).sessionId = node.sessionId ∧ (f node).role = node.role

inductive Effect (X : Type) where
  | keep
  | add (advance : Bool) (id : NodeId) (node : ContentNode X)
  | edit (id : NodeId) (f : ContentNode X → ContentNode X)
  | demote (demoted : List (NodeId × UInt8))
  | review (parseId : NodeId) (metadata : X) (review : Option (ContentNode X))
  | reopen

namespace ContentNodeStore

variable {X : Type} (host : Host X) (store : ContentNodeStore X)

def perform : Effect X → ContentNodeStore X
  | .keep => store
  | .add advance id node => ((if advance then store.allocate.2 else store).insertPrepared host id node).2
  | .edit id f => (store.withNodeMut host id f).2
  | .demote demoted => (store.demote host demoted).2
  | .review parseId metadata review => (store.applyReview host parseId metadata review).2
  | .reopen => store.reopen host

def effect : StoreOp X → Effect X
  | .recordRequest sessionId requestId content now =>
    .add true store.nextId (store.requestNode host sessionId requestId content now)
  | .recordResult id accepted score content => .edit id (applyResult accepted score (host.scrub content).text)
  | .recordContentNode node => .add node.id.isNone (store.idFor node) (store.contentNode node host)
  | .insertNode node => .add node.id.isNone (store.idFor node) (store.insertedNode node host)
  | .collapseNode id summary lod => .edit id (replaceText summary lod)
  | .ensureLod id level =>
    match store.derivedTier host id level with
    | none => .keep
    | some derived => .edit id (cacheTier level.toNat derived)
  | .compactSession sessionId maxNodes => .demote (store.demotions sessionId maxNodes)
  | .updateNodeMetadata id metadata => .edit id fun node => { node with metadata := some metadata }
  | .applyReview parseId metadata review => .review parseId metadata review
  | .ledgerRequest sessionId requestId content now =>
    .add true store.nextId (store.requestNode host sessionId requestId (host.scrub content).text now)
  | .ledgerResult id accepted score content =>
    .edit id (applyResult accepted score (host.scrub (host.scrub content).text).text)
  | .ledgerContentNode node =>
    .add (host.replaceFlagged node).id.isNone (store.idFor (host.replaceFlagged node))
      (store.contentNode (host.replaceFlagged node) host)
  | .reopen => .reopen

theorem allocated_eq (node : ContentNode X) :
    store.allocated node = if node.id.isNone then store.allocate.2 else store := by
  unfold allocated
  cases node.id <;> rfl

theorem step_eq_perform (op : StoreOp X) : store.step host op = store.perform host (store.effect host op) := by
  have hcontent : ∀ node, (store.recordContentNode host node).2 =
      store.perform host (.add node.id.isNone (store.idFor node) (store.contentNode node host)) := by
    intro node
    rw [recordContentNode_eq, allocated_eq]
    rfl
  cases op with
  | recordRequest sessionId requestId content now => exact congrArg Prod.snd (recordRequest_eq ..)
  | ledgerRequest sessionId requestId content now => exact congrArg Prod.snd (recordRequest_eq ..)
  | recordContentNode node => exact hcontent node
  | ledgerContentNode node => exact hcontent (host.replaceFlagged node)
  | insertNode node =>
    rw [step, insertNode_eq, allocated_eq]
    rfl
  | ensureLod id level =>
    rw [step, ensureLod_snd, effect]
    split <;> rfl
  | compactSession sessionId maxNodes =>
    rw [step, compactSession]
    split <;> rename_i h <;> exact (congrArg Prod.snd h).symm
  | recordResult | collapseNode | updateNodeMetadata | applyReview | ledgerResult | reopen => rfl

def Sound : Effect X → Prop
  | .add _ id node => node.id = some id ∧ 6 ≤ node.lod.length
  | .edit _ f => KeepsKeys f
  | _ => True

variable {host store}

theorem effect_sound (op : StoreOp X) : Sound (store.effect host op) := by
  have hrequest : ∀ sessionId requestId content now,
      Sound (.add true store.nextId (store.requestNode host sessionId requestId content now)) := by
    intro sessionId requestId content now
    obtain ⟨hid, -, -, hlod, -⟩ := ContentNode.ensureLodEager_keeps (host.guarded (ContentNode.newNode store.nextId
      sessionId requestId "user".toList (host.scrub content).text none now))
    refine ⟨hid.trans ((host.guarded_id _).trans ?_), hlod⟩
    exact (ContentNode.ensureLodEager_keeps _).1
  have hcontent : ∀ node, Sound (.add node.id.isNone (store.idFor node) (store.contentNode node host)) := by
    intro node
    refine ⟨?_, (ContentNode.ensureLodEager_keeps _).2.2.2.1⟩
    rw [contentNode, (ContentNode.ensureLodEager_keeps _).1, host.guarded_id]
    exact (ContentNode.ensureLodEager_keeps _).1
  have hresult : ∀ accepted score text, KeepsKeys (applyResult accepted score text : ContentNode X → ContentNode X) := by
    intro accepted score text node
    unfold applyResult
    split_ifs <;> exact ⟨rfl, rfl, rfl⟩
  cases op with
  | recordRequest sessionId requestId content now => exact hrequest ..
  | ledgerRequest sessionId requestId content now => exact hrequest ..
  | recordContentNode node => exact hcontent node
  | ledgerContentNode node => exact hcontent (host.replaceFlagged node)
  | insertNode node =>
    exact ⟨(ContentNode.ensureLodEager_keeps _).1, (ContentNode.ensureLodEager_keeps _).2.2.2.1⟩
  | recordResult id accepted score content => exact hresult _ _ _
  | ledgerResult id accepted score content => exact hresult _ _ _
  | collapseNode | updateNodeMetadata => exact fun node => ⟨rfl, rfl, rfl⟩
  | ensureLod id level =>
    unfold effect
    dsimp only
    split
    · trivial
    · exact fun node => ⟨rfl, rfl, rfl⟩
  | compactSession | applyReview | reopen => trivial

theorem effect_ne_reopen {op : StoreOp X} (h : op ≠ .reopen) : store.effect host op ≠ .reopen := by
  cases op with
  | ensureLod id level =>
    unfold effect
    dsimp only
    split <;> exact nofun
  | reopen => exact absurd rfl h
  | recordRequest | recordResult | recordContentNode | insertNode | collapseNode | compactSession
  | updateNodeMetadata | applyReview | ledgerRequest | ledgerResult | ledgerContentNode => exact nofun

theorem allNodes_perform {Q : NodeId → ContentNode X → Prop} (h : AllNodes Q store) {e : Effect X} (hne : e ≠ .reopen)
    (hadd : ∀ advance id node, e = .add advance id node → Q id node)
    (hedit : ∀ id f, e = .edit id f → ∀ node, Q id node → Q id (f node).ensureLodEager)
    (hdemote : ∀ id lod node, Q id node → Q id (ContentNode.ensureLodEager { node with activeLod := some lod }))
    (hparse : ∀ id metadata node, Q id node → Q id { node with metadata := some metadata })
    (hreview : ∀ node, Q store.nextId (store.reviewNode node)) : AllNodes Q (store.perform host e) := by
  cases e with
  | keep => exact h
  | add advance id node =>
    have hstart : AllNodes Q (if advance then store.allocate.2 else store) := by
      split_ifs
      · exact h
      · exact h
    exact (allNodes_insertPrepared hstart node).mpr (hadd advance id node rfl)
  | edit id f => exact (allNodes_withNodeMut h f).mpr fun node hnode => hedit id f rfl node (h id node hnode)
  | demote demoted =>
    refine demote_induction (fun store id lod (h : AllNodes Q store) => ?_) demoted h
    exact (allNodes_withNodeMut h _).mpr fun node hnode => hdemote id lod node (h id node hnode)
  | review parseId metadata review =>
    exact allNodes_applyReview h (fun node hnode => hparse parseId metadata node hnode) fun node _ => hreview node
  | reopen => exact absurd rfl hne

def Padded : ContentNodeStore X → Prop := AllNodes fun _ node => 6 ≤ node.lod.length

theorem padded_step (h : Padded store) {op : StoreOp X} (hop : op ≠ .reopen) : Padded (store.step host op) := by
  have hsound : Sound (store.effect host op) := effect_sound op
  have hlod : ∀ node : ContentNode X, 6 ≤ node.ensureLodEager.lod.length :=
    fun node => (ContentNode.ensureLodEager_keeps node).2.2.2.1
  rw [step_eq_perform]
  refine allNodes_perform h (effect_ne_reopen hop) (fun advance id node he => ?_) (fun id f _ node _ => hlod _)
    (fun id lod node _ => hlod _) (fun id metadata node hnode => hnode) fun node => hlod _
  rw [he] at hsound
  exact hsound.2

end ContentNodeStore

end Fluent.Router.Ledger
