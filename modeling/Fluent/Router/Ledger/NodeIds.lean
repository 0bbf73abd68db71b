import Fluent.Library.Runs
import Fluent.Router.Ledger.StoreSteps

open Fluent.Library

namespace Fluent.Router.Ledger

open Fluent.Spacy (Text)

theorem toInt_succ {id : NodeId} (h : id.toInt < 2 ^ 63 - 1) : (id + 1).toInt = id.toInt + 1 := by
  have hone : (1 : NodeId).toInt = 1 := rfl
  have hlow := id.le_toInt
  rw [Int64.toInt_add, hone, Int.bmod_eq_of_le] <;> omega

theorem toInt_succ_of_max {id : NodeId} (h : ¬id.toInt < 2 ^ 63 - 1) : (id + 1).toInt = -2 ^ 63 := by
  have hmax : id = Int64.maxValue := by
    have hhigh := id.toInt_lt
    apply Int64.toInt_inj.mp
    rw [Int64.toInt_maxValue]
    omega
  rw [hmax]
  rfl

namespace ContentNodeStore

variable {X : Type} {host : Host X} {store : ContentNodeStore X}

def InUse (store : ContentNodeStore X) (id : NodeId) : Prop :=
  (store.nodes.lookup id).isSome ∨ ∃ rows, store.durable = some rows ∧ ∃ row ∈ rows, row.nodeId = id

def Clear (store : ContentNodeStore X) : Prop := ∀ id, store.InUse id → id.toInt < store.nextId.toInt

structure Request where
  sessionId : Text
  requestId : Text
  content : Text
  now : UInt64

def request (host : Host X) (store : ContentNodeStore X) (r : Request) : ContentNodeStore X :=
  (store.recordRequest host r.sessionId r.requestId r.content r.now).2

/-- The node goes under an id that nothing has, and the other nodes stay as they are. -/
def RecordsFresh (host : Host X) (store : ContentNodeStore X) (r : Request) : Prop :=
  ∃ id node, ¬store.InUse id ∧ node.id = some id ∧ (request host store r).nodes.lookup id = some node ∧
    ∀ id', id' ≠ id → (request host store r).nodes.lookup id' = store.nodes.lookup id'

def AllFresh (host : Host X) (store : ContentNodeStore X) : Prop :=
  ∀ requests : List Request, store.nextId.toInt + requests.length ≤ 2 ^ 63 →
    Respects (request host) (RecordsFresh host) store requests

theorem inUse_insertPrepared {id : NodeId} {node : ContentNode X} (hid : node.id = some id) (id' : NodeId) :
    (store.insertPrepared host id node).2.InUse id' ↔ id' = id ∨ store.InUse id' := by
  unfold InUse
  rw [insertPrepared_nodes, insertPrepared_durable, HashMap.lookup_insert_ite]
  by_cases heq : id' = id
  · rw [if_pos heq]
    exact iff_of_true (.inl rfl) (.inl heq)
  · rw [if_neg heq, or_iff_right heq]
    apply or_congr Iff.rfl
    cases store.durable with
    | none => exact iff_of_false (by rintro ⟨_, h, -⟩; cases h) (by rintro ⟨_, h, -⟩; cases h)
    | some rows =>
      simp only [Option.map_some, Option.some.injEq, exists_eq_left']
      split_ifs
      · exact Iff.rfl
      · cases hinsert : host.insertNodeRow rows node with
        | none => exact Iff.rfl
        | some rows' =>
          rw [Option.getD_some]
          simp only [Host.mem_insertNodeRow hid hinsert, or_and_right, exists_or, exists_eq_left, Host.rowOf]
          exact or_iff_right (Ne.symm heq)

theorem clear_of_allocation (h : Clear store) {store' : ContentNodeStore X} (hnext : store'.nextId = store.nextId + 1)
    (huse : ∀ id, store'.InUse id ↔ id = store.nextId ∨ store.InUse id) :
    Clear store' ↔ store.nextId.toInt < 2 ^ 63 - 1 := by
  unfold Clear
  rw [hnext]
  constructor
  · intro hclear
    by_contra hmax
    have habove := hclear store.nextId ((huse _).mpr (.inl rfl))
    have hlow := store.nextId.le_toInt
    rw [toInt_succ_of_max hmax] at habove
    omega
  · intro hmax id hid
    rw [toInt_succ hmax]
    rcases (huse id).mp hid with rfl | hid
    · omega
    · have := h id hid
      omega

theorem clear_of_supplied (h : Clear store) {store' : ContentNodeStore X} {id : NodeId}
    (hnext : store'.nextId = store.nextId) (huse : ∀ id', store'.InUse id' ↔ id' = id ∨ store.InUse id') :
    Clear store' ↔ id.toInt < store.nextId.toInt := by
  unfold Clear
  rw [hnext]
  constructor
  · exact fun hclear => hclear id ((huse id).mpr (.inl rfl))
  · intro hlt id' hid'
    rcases (huse id').mp hid' with rfl | hid'
    · exact hlt
    · exact h id' hid'

theorem nextId_request (r : Request) : (request host store r).nextId = store.nextId + 1 := by
  rw [request, recordRequest_eq, insertPrepared_nextId]
  rfl

theorem requestNode_id (sessionId requestId content : Text) (now : UInt64) :
    (store.requestNode host sessionId requestId content now).id = some store.nextId := by
  rw [requestNode, (ContentNode.ensureLodEager_keeps _).1, host.guarded_id]
  exact (ContentNode.ensureLodEager_keeps _).1

theorem inUse_request (r : Request) (id : NodeId) :
    (request host store r).InUse id ↔ id = store.nextId ∨ store.InUse id := by
  rw [request, recordRequest_eq, inUse_insertPrepared (requestNode_id ..)]
  rfl

theorem recordsFresh_iff (r : Request) : RecordsFresh host store r ↔ ¬store.InUse store.nextId := by
  have hnodes : (request host store r).nodes =
      store.nodes.insert store.nextId (store.requestNode host r.sessionId r.requestId r.content r.now) := by
    rw [request, recordRequest_eq, insertPrepared_nodes]
    rfl
  constructor
  · rintro ⟨id, node, hfresh, -, hlookup, -⟩ huse
    rw [hnodes, HashMap.lookup_insert_ite] at hlookup
    split_ifs at hlookup with hid
    · exact hfresh (hid ▸ huse)
    · exact hfresh (.inl (hlookup ▸ rfl))
  · refine fun hfresh => ⟨store.nextId, store.requestNode host r.sessionId r.requestId r.content r.now, hfresh,
      requestNode_id .., ?_, fun id hid => ?_⟩
    · rw [hnodes, HashMap.lookup_insert_ite, if_pos rfl]
    · rw [hnodes, HashMap.lookup_insert_ite, if_neg hid]

theorem Clear.request (h : Clear store) (r : Request) (hmax : store.nextId.toInt < 2 ^ 63 - 1) :
    Clear (request host store r) :=
  (clear_of_allocation h (nextId_request r) (inUse_request r)).mpr hmax

theorem Clear.allFresh (h : Clear store) : AllFresh host store := by
  intro requests
  induction requests generalizing store with
  | nil => exact fun _ => trivial
  | cons r rest ih =>
    intro hlen
    refine ⟨(recordsFresh_iff r).mpr fun huse => lt_irrefl _ (h _ huse), ?_⟩
    cases rest with
    | nil => trivial
    | cons r' rest =>
      rw [List.length_cons, List.length_cons] at hlen
      have hmax : store.nextId.toInt < 2 ^ 63 - 1 := by omega
      apply ih (h.request r hmax)
      rw [nextId_request, toInt_succ hmax, List.length_cons]
      omega

theorem reaches_id {id : NodeId} (r : Request) (k : ℕ) (huse : store.InUse id)
    (hk : store.nextId.toInt + k = id.toInt) :
    ¬Respects (request host) (RecordsFresh host) store (List.replicate (k + 1) r) := by
  induction k generalizing store with
  | zero =>
    have hnext : store.nextId = id := Int64.toInt_inj.mp (by omega)
    exact fun h => (recordsFresh_iff r).mp h.1 (hnext.symm ▸ huse)
  | succ k ih =>
    intro h
    have hhigh := id.toInt_lt
    refine ih ((inUse_request r id).mpr (.inr huse)) ?_ h.2
    rw [nextId_request, toInt_succ (by omega)]
    omega

theorem allFresh_iff : AllFresh host store ↔ Clear store := by
  constructor
  · intro h id huse
    by_contra hge
    have hhigh := id.toInt_lt
    obtain ⟨k, hk⟩ : ∃ k : ℕ, store.nextId.toInt + k = id.toInt := ⟨(id.toInt - store.nextId.toInt).toNat, by omega⟩
    refine reaches_id ⟨[], [], [], 0⟩ k huse hk (h _ ?_)
    rw [List.length_replicate]
    omega
  · exact Clear.allFresh

def CountsAll (host : Host X) (rows : List LedgerRow) : Prop :=
  (∀ row ∈ rows, (host.fromJson row.contentJson).isSome → row.nodeId.toInt < 2 ^ 63 - 1) ∧
    ∀ row ∈ rows, host.fromJson row.contentJson = none → row.nodeId.toInt ≤ 0 ∨
      ∃ row' ∈ rows, (host.fromJson row'.contentJson).isSome ∧ row.nodeId.toInt ≤ row'.nodeId.toInt

theorem toInt_max (a b : NodeId) : (max a b).toInt = max a.toInt b.toInt := by
  change (if a ≤ b then b else a).toInt = _
  split_ifs with h
  · exact (max_eq_right (Int64.le_iff_toInt_le.mp h)).symm
  · exact (max_eq_left (not_le.mp (mt Int64.le_iff_toInt_le.mpr h)).le).symm

theorem foldl_maxId (host : Host X) (rows : List LedgerRow) (start : NodeId) :
    let top := rows.foldl (fun top row =>
      if (host.fromJson row.contentJson).isSome then max top row.nodeId else top) start
    start.toInt ≤ top.toInt ∧
      (∀ row ∈ rows, (host.fromJson row.contentJson).isSome → row.nodeId.toInt ≤ top.toInt) ∧
      (top = start ∨ ∃ row ∈ rows, (host.fromJson row.contentJson).isSome ∧ row.nodeId = top) := by
  induction rows generalizing start with
  | nil => exact ⟨le_refl _, fun row hrow => absurd hrow List.not_mem_nil, .inl rfl⟩
  | cons row rows ih =>
    dsimp only [List.foldl_cons]
    by_cases hparse : (host.fromJson row.contentJson).isSome
    · rw [if_pos hparse]
      obtain ⟨hstart, hrows, htop⟩ := ih (max start row.nodeId)
      rw [toInt_max] at hstart
      refine ⟨(le_max_left ..).trans hstart, List.forall_mem_cons.mpr ⟨fun _ => (le_max_right ..).trans hstart, hrows⟩, ?_⟩
      rcases htop with htop | ⟨row', hrow', hparse', hid⟩
      · rw [htop]
        change (if start ≤ row.nodeId then row.nodeId else start) = start ∨ _
        split_ifs with hle
        · refine .inr ⟨row, List.mem_cons_self, hparse, ?_⟩
          exact (if_pos hle).symm
        · exact .inl rfl
      · exact .inr ⟨row', List.mem_cons_of_mem _ hrow', hparse', hid⟩
    · rw [if_neg hparse]
      obtain ⟨hstart, hrows, htop⟩ := ih start
      refine ⟨hstart, List.forall_mem_cons.mpr ⟨fun h => absurd h hparse, hrows⟩, htop.imp_right ?_⟩
      rintro ⟨row', hrow', hid⟩
      exact ⟨row', List.mem_cons_of_mem _ hrow', hid⟩

theorem foldl_hydrateRow (host : Host X) (rows : List LedgerRow) (start : ContentNodeStore X) :
    (rows.foldl (hydrateRow host) start).durable = start.durable ∧
      ∀ id, ((rows.foldl (hydrateRow host) start).nodes.lookup id).isSome →
        (start.nodes.lookup id).isSome ∨ ∃ row ∈ rows, row.nodeId = id := by
  induction rows generalizing start with
  | nil => exact ⟨rfl, fun _ h => .inl h⟩
  | cons row rows ih =>
    rw [List.foldl_cons]
    obtain ⟨hdurable, hnodes⟩ := ih (hydrateRow host start row)
    have hrow : (hydrateRow host start row).durable = start.durable ∧ ∀ id,
        ((hydrateRow host start row).nodes.lookup id).isSome → (start.nodes.lookup id).isSome ∨ row.nodeId = id := by
      unfold hydrateRow
      split
      · exact ⟨rfl, fun _ h => .inl h⟩
      · refine ⟨rfl, fun id h => ?_⟩
        rw [HashMap.lookup_insert_ite] at h
        split_ifs at h with hid
        · exact .inr hid.symm
        · exact .inl h
    refine ⟨hdurable.trans hrow.1, fun id h => ?_⟩
    rcases hnodes id h with h | ⟨row', hrow', hid⟩
    · rcases hrow.2 id h with h | hid
      · exact .inl h
      · exact .inr ⟨row, List.mem_cons_self, hid⟩
    · exact .inr ⟨row', List.mem_cons_of_mem _ hrow', hid⟩

theorem inUse_hydrate (rows : List LedgerRow) (id : NodeId) :
    (hydrate host rows).InUse id ↔ ∃ row ∈ rows, row.nodeId = id := by
  obtain ⟨hdurable, hnodes⟩ := foldl_hydrateRow host rows (empty (some rows))
  constructor
  · rintro (h | ⟨rows', hrows', h⟩)
    · rcases hnodes id h with h | h
      · rw [empty, Finmap.lookup_empty] at h
        cases h
      · exact h
    · rw [hydrate, hdurable] at hrows'
      exact Option.some.inj hrows' ▸ h
  · exact fun h => .inr ⟨rows, hdurable, h⟩

theorem maxId_spec (host : Host X) (rows : List LedgerRow) :
    0 ≤ (maxId host rows).toInt ∧
      (∀ row ∈ rows, (host.fromJson row.contentJson).isSome → row.nodeId.toInt ≤ (maxId host rows).toInt) ∧
      (maxId host rows = 0 ∨ ∃ row ∈ rows, (host.fromJson row.contentJson).isSome ∧ row.nodeId = maxId host rows) :=
  foldl_maxId host rows 0

theorem clear_hydrate_iff (rows : List LedgerRow) : Clear (hydrate host rows) ↔ CountsAll host rows := by
  obtain ⟨hzero, htop, hattained⟩ := maxId_spec host rows
  have hzeroId : (0 : NodeId).toInt = 0 := rfl
  unfold Clear
  simp only [inUse_hydrate, forall_exists_index, and_imp, forall_apply_eq_imp_iff₂]
  change (∀ row ∈ rows, row.nodeId.toInt < (maxId host rows + 1).toInt) ↔ _
  constructor
  · intro h
    have hmax : (maxId host rows).toInt < 2 ^ 63 - 1 := by
      by_contra hmax
      rcases hattained with heq | ⟨row, hrow, -, hid⟩
      · rw [heq, hzeroId] at hmax
        omega
      · have habove := h row hrow
        rw [hid, toInt_succ_of_max hmax] at habove
        omega
    refine ⟨fun row hrow hparse => (htop row hrow hparse).trans_lt hmax, fun row hrow _ => ?_⟩
    have hle := h row hrow
    rw [toInt_succ hmax] at hle
    rcases hattained with heq | ⟨row', hrow', hparse', hid⟩
    · rw [heq, hzeroId] at hle
      exact .inl (by omega)
    · exact .inr ⟨row', hrow', hparse', by rw [hid]; omega⟩
  · rintro ⟨hparsed, hskipped⟩ row hrow
    have hmax : (maxId host rows).toInt < 2 ^ 63 - 1 := by
      rcases hattained with heq | ⟨row', hrow', hparse', hid⟩
      · rw [heq, hzeroId]
        omega
      · exact hid ▸ hparsed row' hrow' hparse'
    rw [toInt_succ hmax, Int.lt_add_one_iff]
    by_cases hparse : (host.fromJson row.contentJson).isSome
    · exact htop row hrow hparse
    · rcases hskipped row hrow (Option.not_isSome_iff_eq_none.mp hparse) with hle | ⟨row', hrow', hparse', hle⟩
      · exact hle.trans hzero
      · exact hle.trans (htop row' hrow' hparse')

def Numbering : StoreOp X → Prop
  | .recordRequest .. | .recordContentNode _ | .insertNode _ | .reopen => True
  | _ => False

/-- A supplied id is below the counter, an allocated one is not the last, and a table is opened whose ids are all
counted. -/
def KeepsClear (host : Host X) (store : ContentNodeStore X) : StoreOp X → Prop
  | .recordRequest .. => store.nextId.toInt < 2 ^ 63 - 1
  | .recordContentNode node | .insertNode node =>
    match node.id with
    | none => store.nextId.toInt < 2 ^ 63 - 1
    | some id => id.toInt < store.nextId.toInt
  | .reopen => ∀ rows, store.durable = some rows → CountsAll host rows
  | _ => True

theorem clear_insert_iff (h : Clear store) (node : ContentNode X) {added : ContentNode X}
    (hid : added.id = some (store.idFor node)) :
    Clear ((store.allocated node).insertPrepared host (store.idFor node) added).2 ↔
      match node.id with
      | none => store.nextId.toInt < 2 ^ 63 - 1
      | some id => id.toInt < store.nextId.toInt := by
  cases hnode : node.id with
  | none =>
    have hstore : store.allocated node = store.allocate.2 := if_pos hnode
    have hfor : store.idFor node = store.nextId := by rw [idFor, hnode, Option.getD_none]
    rw [hfor] at hid ⊢
    rw [hstore]
    exact clear_of_allocation h (insertPrepared_nextId ..) fun id' => inUse_insertPrepared hid id'
  | some id =>
    have hstore : store.allocated node = store := if_neg (hnode ▸ Option.some_ne_none id)
    have hfor : store.idFor node = id := by rw [idFor, hnode, Option.getD_some]
    rw [hfor] at hid ⊢
    rw [hstore]
    exact clear_of_supplied h (insertPrepared_nextId ..) fun id' => inUse_insertPrepared hid id'

theorem clear_step_iff (h : Clear store) {op : StoreOp X} (hop : Numbering op) :
    Clear (store.step host op) ↔ KeepsClear host store op := by
  cases op with
  | recordRequest sessionId requestId content now =>
    change Clear (request host store ⟨sessionId, requestId, content, now⟩) ↔ _
    exact clear_of_allocation h (nextId_request _) (inUse_request _)
  | recordContentNode node =>
    rw [step, recordContentNode_eq]
    apply clear_insert_iff h
    rw [contentNode, (ContentNode.ensureLodEager_keeps _).1, host.guarded_id]
    exact (ContentNode.ensureLodEager_keeps _).1
  | insertNode node =>
    rw [step, insertNode_eq]
    exact clear_insert_iff h node (ContentNode.ensureLodEager_keeps _).1
  | reopen =>
    rw [step, reopen, KeepsClear]
    cases store.durable with
    | none =>
      refine iff_of_true (fun id huse => ?_) fun rows hrows => (Option.some_ne_none rows hrows.symm).elim
      rcases huse with huse | ⟨rows, hrows, -⟩
      · rw [empty, Finmap.lookup_empty] at huse
        cases huse
      · cases hrows
    | some rows =>
      refine (clear_hydrate_iff rows).trans ⟨fun hrows rows' heq => ?_, fun hrows => hrows rows rfl⟩
      exact Option.some.inj heq ▸ hrows
  | recordResult | collapseNode | ensureLod | compactSession | updateNodeMetadata | applyReview | ledgerRequest
  | ledgerResult | ledgerContentNode => exact hop.elim

theorem allocated_ids_fresh_iff (rows : List LedgerRow) (faults : List Bool) (ops : List (StoreOp X))
    (hops : ∀ op ∈ ops, Numbering op) :
    Along (step host) (AllFresh host) { hydrate host rows with faults := faults } ops ↔
      CountsAll host rows ∧ Respects (step host) (KeepsClear host) { hydrate host rows with faults := faults } ops := by
  have hstart : AllFresh host ({ hydrate host rows with faults := faults } : ContentNodeStore X) ↔ CountsAll host rows :=
    allFresh_iff.trans (clear_hydrate_iff rows)
  rw [← hstart]
  refine along_iff_start_and_respects (I := fun _ => True) (fun _ _ _ _ => trivial) (fun store op _ hp hop => ?_) trivial
    (respects_of_forall hops)
  exact allFresh_iff.trans (clear_step_iff (allFresh_iff.mp hp) hop)

def oneRequest : List (StoreOp Unit) := [.recordRequest "s".toList "r".toList "cd".toList 0]

theorem two_requests_fresh :
    Along (step writeOnly) (AllFresh writeOnly) { hydrate writeOnly [] with faults := [true] }
      (oneRequest ++ oneRequest) := by
  refine (allocated_ids_fresh_iff [] [true] (oneRequest ++ oneRequest) fun op hop => ?_).mpr
    ⟨⟨nofun, nofun⟩, (by decide +kernel : (1 : NodeId).toInt < 2 ^ 63 - 1), ?_, trivial⟩
  · obtain rfl : op = .recordRequest "s".toList "r".toList "cd".toList 0 := by
      simpa [oneRequest] using hop
    trivial
  · change (request writeOnly { hydrate writeOnly [] with faults := [true] } ⟨_, _, _, _⟩).nextId.toInt < 2 ^ 63 - 1
    rw [nextId_request]
    decide +kernel

def suppliedTwo : ContentNodeStore Unit :=
  (StoreOp.insertNode (ContentNode.newNode 2 "s".toList "r".toList "user".toList "ab".toList none 0) :: oneRequest).foldl
    (step writeOnly) (hydrate writeOnly [])

theorem request_overwrites_supplied : suppliedTwo.InUse suppliedTwo.nextId ∧
    (suppliedTwo.nodes.lookup 2).map (fun node => node.tier 0) = some "ab".toList ∧
    ((suppliedTwo.step writeOnly (.recordRequest "s".toList "r".toList "ef".toList 0)).nodes.lookup 2).map
      (fun node => node.tier 0) = some "ef".toList := by
  have hsupplied : Harmless ((ContentNode.newNode 2 "s".toList "r".toList "user".toList "ab".toList none 0 :
      ContentNode Unit).tier 0) := by
    decide +kernel
  have hstore : suppliedTwo.nextId = 2 ∧ (suppliedTwo.nodes.lookup 2).map (fun node => node.tier 0) =
      some "ab".toList := by
    unfold suppliedTwo oneRequest
    simp only [List.foldl_cons, List.foldl_nil, step, insertNode_eq, insertedNode,
      writeOnly.guarded_harmless hsupplied, recordRequest_eq,
      requestNode_harmless _ (by decide +kernel : Harmless "cd".toList)]
    decide +kernel
  refine ⟨.inl ?_, hstore.2, ?_⟩
  · rw [hstore.1]
    have hsome := congrArg Option.isSome hstore.2
    rwa [Option.isSome_map] at hsome
  · rw [step, recordRequest_eq, insertPrepared_nodes, hstore.1, Finmap.lookup_insert,
      requestNode_harmless _ (by decide +kernel : Harmless "ef".toList), hstore.1]
    decide +kernel

end ContentNodeStore

end Fluent.Router.Ledger
