import Mathlib.Logic.Function.Basic
import Fluent.Router.Ledger.StoreSteps

open Fluent.Library

namespace Fluent.Router.Ledger

open Fluent.Spacy (Text)

def rowAt (rows : List LedgerRow) (id : NodeId) : Option LedgerRow := rows.find? (·.nodeId = id)

section Table

variable {X : Type} {host : Host X} {rows rows' : List LedgerRow} {row : LedgerRow} {id id' : NodeId} {node : ContentNode X}

theorem mem_of_rowAt (h : rowAt rows id = some row) : row ∈ rows ∧ row.nodeId = id :=
  ⟨List.mem_of_find?_eq_some h, by simpa using List.find?_some h⟩

theorem rowAt_updateNodeRow (hid : node.id = some id) (id' : NodeId) : rowAt (host.updateNodeRow rows node) id' =
    if id' = id then (rowAt rows id').map fun _ => host.rowOf id node else rowAt rows id' := by
  have hkeeps : ∀ row, (if node.id = some row.nodeId then host.rowOf row.nodeId node else row).nodeId = row.nodeId := by
    intro row
    split_ifs <;> rfl
  unfold rowAt Host.updateNodeRow
  rw [List.find?_map]
  have hfun : ((fun row : LedgerRow => decide (row.nodeId = id')) ∘
      fun row => if node.id = some row.nodeId then host.rowOf row.nodeId node else row) =
        fun row => decide (row.nodeId = id') := by
    funext row
    simp only [Function.comp_apply, hkeeps]
  rw [hfun]
  cases hfind : rows.find? fun row => decide (row.nodeId = id') with
  | none => simp
  | some row =>
    obtain ⟨-, hrow⟩ := mem_of_rowAt hfind
    simp only [Option.map_some, hid, hrow, Option.some.injEq]
    by_cases heq : id' = id
    · rw [if_pos heq.symm, if_pos heq, heq]
    · rw [if_neg (Ne.symm heq), if_neg heq]

end Table

/-! Calls of `with_node_mut` on one node that run at the same time. -/

/-- A call has not started, has changed the node and holds its copy, or has returned. -/
inductive Phase (X : Type) where
  | waiting
  | holding (snapshot : ContentNode X)
  | returned (result : Except LedgerError (ContentNode X))

structure Writers (ι X : Type) where
  store : ContentNodeStore X
  phase : ι → Phase X

namespace Phase

variable {X : Type}

def snapshot : Phase X → Option (ContentNode X)
  | .waiting => none
  | .holding snapshot => some snapshot
  | .returned result => result.toOption

def After (id : NodeId) : ℕ → Phase X → Prop
  | 0, phase => phase = .waiting
  | 1, phase => ∃ node, phase = .holding node ∧ node.id = some id
  | _, phase => ∃ node, phase = .returned (.ok node)

end Phase

namespace Writers

variable {ι X : Type} [DecidableEq ι] (host : Host X) (id : NodeId) (calls : ι → ContentNode X → ContentNode X)

def start (store : ContentNodeStore X) : Writers ι X := ⟨store, fun _ => .waiting⟩

-- the lock is held for the change and the copy, and the row is written after it is released
def advance (w : Writers ι X) (i : ι) : Writers ι X :=
  match w.phase i with
  | .waiting =>
    match w.store.nodes.lookup id with
    | none => { w with phase := Function.update w.phase i (.returned (.error (.notFound id))) }
    | some node =>
      let node := (calls i node).ensureLodEager
      { store := { w.store with nodes := w.store.nodes.insert id node }
        phase := Function.update w.phase i (.holding node) }
  | .holding snapshot =>
    match w.store.persistUpdate host snapshot with
    | (.error e, store) => ⟨store, Function.update w.phase i (.returned (.error e))⟩
    | (.ok (), store) => ⟨store, Function.update w.phase i (.returned (.ok snapshot))⟩
  | .returned _ => w

def run (store : ContentNodeStore X) (schedule : List ι) : Writers ι X :=
  schedule.foldl (advance host id calls) (start store)

end Writers

section Schedule

variable {ι : Type} [DecidableEq ι]

def lastTurn (k : ℕ) : List ι → Option ι
  | [] => none
  | i :: earlier => if earlier.count i = k then some i else lastTurn k earlier

def lastMutator (schedule : List ι) : Option ι := lastTurn 0 schedule.reverse

def lastWriter (schedule : List ι) : Option ι := lastTurn 1 schedule.reverse

variable {schedule : List ι} {i : ι}

theorem lastTurn_snoc (k : ℕ) (schedule : List ι) (i : ι) : lastTurn k (schedule ++ [i]).reverse =
    if schedule.count i = k then some i else lastTurn k schedule.reverse := by
  rw [List.reverse_append, List.reverse_singleton, List.singleton_append, lastTurn, List.count_reverse]

theorem lt_count_of_lastTurn {k : ℕ} (h : lastTurn k schedule.reverse = some i) : k < schedule.count i := by
  induction schedule using List.reverseRecOn with
  | nil => cases h
  | append_singleton schedule j ih =>
    rw [lastTurn_snoc] at h
    rw [List.count_append]
    split_ifs at h with hcount
    · obtain rfl := Option.some.inj h
      rw [hcount, List.count_singleton_self]
      omega
    · have := ih h
      omega

theorem lastTurn_ne_none {k : ℕ} (h : k < schedule.count i) : lastTurn k schedule.reverse ≠ none := by
  induction schedule using List.reverseRecOn with
  | nil => cases h
  | append_singleton schedule j ih =>
    rw [lastTurn_snoc]
    split_ifs with hcount
    · exact Option.some_ne_none j
    · apply ih
      rw [List.count_append, List.count_singleton] at h
      split_ifs at h with hji
      · have : j = i := by simpa using hji
        subst this
        omega
      · omega

end Schedule

def Synced {X : Type} (host : Host X) (id : NodeId) (store : ContentNodeStore X) : Prop :=
  ∃ node rows, store.nodes.lookup id = some node ∧ node.id = some id ∧ store.durable = some rows ∧
    rowAt rows id = some (host.rowOf id node)

namespace Writers

variable {ι X : Type} [DecidableEq ι] {host : Host X} {id : NodeId} {calls : ι → ContentNode X → ContentNode X}
  {store : ContentNodeStore X} {schedule : List ι} {w : Writers ι X} {i : ι}

structure Tracks (host : Host X) (id : NodeId) (schedule : List ι) (w : Writers ι X) : Prop where
  faults : w.store.faults = []
  phase : ∀ i, (w.phase i).After id (schedule.count i)
  node : ∃ node, w.store.nodes.lookup id = some node ∧ node.id = some id ∧
    ∀ i, lastMutator schedule = some i → (w.phase i).snapshot = some node
  row : ∃ node rows, w.store.durable = some rows ∧ rowAt rows id = some (host.rowOf id node) ∧
    ∀ i, lastWriter schedule = some i → (w.phase i).snapshot = some node

theorem tracks_start (h : Synced host id store) (hfaults : store.faults = []) :
    Tracks host id [] (start store : Writers ι X) := by
  obtain ⟨node, rows, hnode, hid, hrows, hrow⟩ := h
  exact ⟨hfaults, fun _ => rfl, ⟨node, hnode, hid, nofun⟩, ⟨node, rows, hrows, hrow, nofun⟩⟩

theorem after_update {phase : ι → Phase X} (h : ∀ j, (phase j).After id (schedule.count j)) {p : Phase X}
    (hp : p.After id (schedule.count i + 1)) (j : ι) :
    (Function.update phase i p j).After id ((schedule ++ [i]).count j) := by
  rw [List.count_append, List.count_singleton]
  by_cases hne : j = i
  · subst hne
    rw [Function.update_self, if_pos (by simp)]
    exact hp
  · rw [Function.update_of_ne hne, if_neg (by simpa using Ne.symm hne)]
    exact h j

theorem tracks_mutate (hcalls : ∀ i node, (calls i node).id = node.id) (h : Tracks host id schedule w)
    (hcount : schedule.count i = 0) : Tracks host id (schedule ++ [i]) (advance host id calls w i) := by
  obtain ⟨node, hnode, hid, -⟩ := h.node
  obtain ⟨written, rows, hrows, hrow, hwriter⟩ := h.row
  have hwaiting : w.phase i = .waiting := by
    have := h.phase i
    rwa [hcount] at this
  have hadvance : advance host id calls w i =
      { store := { w.store with nodes := w.store.nodes.insert id (calls i node).ensureLodEager }
        phase := Function.update w.phase i (.holding (calls i node).ensureLodEager) } := by
    unfold advance
    rw [hwaiting]
    dsimp only
    rw [hnode]
  have hid' : (calls i node).ensureLodEager.id = some id :=
    (ContentNode.ensureLodEager_keeps _).1.trans ((hcalls i node).trans hid)
  have hlast : lastMutator (schedule ++ [i]) = some i := (lastTurn_snoc 0 schedule i).trans (if_pos hcount)
  have hkeeps : lastWriter (schedule ++ [i]) = lastWriter schedule :=
    (lastTurn_snoc 1 schedule i).trans (if_neg (by omega))
  rw [hadvance]
  refine ⟨h.faults, after_update h.phase (hcount ▸ ⟨_, rfl, hid'⟩), ⟨_, Finmap.lookup_insert _, hid', fun j hj => ?_⟩,
    ⟨written, rows, hrows, hrow, fun j hj => ?_⟩⟩
  · obtain rfl : i = j := Option.some.inj (hlast.symm.trans hj)
    exact congrArg Phase.snapshot (Function.update_self i _ w.phase)
  · rw [hkeeps] at hj
    have hne : j ≠ i := by
      rintro rfl
      have := lt_count_of_lastTurn hj
      omega
    exact (congrArg Phase.snapshot (Function.update_of_ne hne _ w.phase)).trans (hwriter j hj)

theorem tracks_write (h : Tracks host id schedule w) (hcount : schedule.count i = 1) :
    Tracks host id (schedule ++ [i]) (advance host id calls w i) := by
  obtain ⟨node, hnode, hid, hmutator⟩ := h.node
  obtain ⟨written, rows, hrows, hrow, -⟩ := h.row
  have hholding := h.phase i
  rw [hcount] at hholding
  obtain ⟨snapshot, hphase, hsnapshot⟩ := hholding
  have hpersist : w.store.persistUpdate host snapshot = (.ok (),
      { w.store with faults := w.store.faults.tail, durable := some (host.updateNodeRow rows snapshot) }) :=
    ContentNodeStore.statement_run hrows (h.faults ▸ rfl) rfl
  have hadvance : advance host id calls w i =
      { store := { w.store with faults := w.store.faults.tail, durable := some (host.updateNodeRow rows snapshot) }
        phase := Function.update w.phase i (.returned (.ok snapshot)) } := by
    unfold advance
    rw [hphase]
    dsimp only
    rw [hpersist]
  have hkeeps : lastMutator (schedule ++ [i]) = lastMutator schedule :=
    (lastTurn_snoc 0 schedule i).trans (if_neg (by omega))
  have hlast : lastWriter (schedule ++ [i]) = some i := (lastTurn_snoc 1 schedule i).trans (if_pos hcount)
  have hrow' : rowAt (host.updateNodeRow rows snapshot) id = some (host.rowOf id snapshot) := by
    rw [rowAt_updateNodeRow hsnapshot, if_pos rfl, hrow, Option.map_some]
  have hreturned : (Phase.returned (.ok snapshot)).After id (schedule.count i + 1) := by
    rw [hcount]
    exact ⟨snapshot, rfl⟩
  rw [hadvance]
  refine ⟨?_, after_update h.phase hreturned, ⟨node, hnode, hid, fun j hj => ?_⟩,
    ⟨snapshot, _, rfl, hrow', fun j hj => ?_⟩⟩
  · rw [h.faults]
    rfl
  · rw [hkeeps] at hj
    by_cases hne : j = i
    · have hsame := hmutator j hj
      rw [hne, hphase] at hsame
      rw [hne]
      exact (congrArg Phase.snapshot (Function.update_self i _ w.phase)).trans hsame
    · exact (congrArg Phase.snapshot (Function.update_of_ne hne _ w.phase)).trans (hmutator j hj)
  · obtain rfl : i = j := Option.some.inj (hlast.symm.trans hj)
    exact congrArg Phase.snapshot (Function.update_self i _ w.phase)

theorem tracks_idle (h : Tracks host id schedule w) (hcount : 1 < schedule.count i) :
    Tracks host id (schedule ++ [i]) (advance host id calls w i) := by
  obtain ⟨n, hn⟩ : ∃ n, schedule.count i = n + 2 := ⟨schedule.count i - 2, by omega⟩
  have hreturned := h.phase i
  rw [hn] at hreturned
  obtain ⟨result, hphase⟩ := hreturned
  have hadvance : advance host id calls w i = w := by
    unfold advance
    rw [hphase]
  have hmutator : lastMutator (schedule ++ [i]) = lastMutator schedule :=
    (lastTurn_snoc 0 schedule i).trans (if_neg (by omega))
  have hwriter : lastWriter (schedule ++ [i]) = lastWriter schedule :=
    (lastTurn_snoc 1 schedule i).trans (if_neg (by omega))
  rw [hadvance]
  refine ⟨h.faults, fun j => ?_, hmutator ▸ h.node, hwriter ▸ h.row⟩
  have hstays : (w.phase i).After id (schedule.count i + 1) := by
    rw [hn]
    exact ⟨result, hphase⟩
  have hupdate := after_update h.phase hstays j
  rwa [Function.update_eq_self] at hupdate

theorem tracks_run (hcalls : ∀ i node, (calls i node).id = node.id) (h : Synced host id store)
    (hfaults : store.faults = []) (schedule : List ι) : Tracks host id schedule (run host id calls store schedule) := by
  induction schedule using List.reverseRecOn with
  | nil => exact tracks_start h hfaults
  | append_singleton schedule i ih =>
    rw [run, List.foldl_append]
    rcases Nat.lt_trichotomy (schedule.count i) 1 with hcount | hcount | hcount
    · exact tracks_mutate hcalls ih (by omega)
    · exact tracks_write ih hcount
    · exact tracks_idle ih hcount

theorem snapshot_spec {R : ι → ContentNode X → Prop} (hR : ∀ i node, R i (calls i node).ensureLodEager)
    (schedule : List ι) : ∀ i node, ((run host id calls store schedule).phase i).snapshot = some node → R i node := by
  have hnone : ∀ i node, (none : Option (ContentNode X)) = some node → R i node :=
    fun _ node hnode => (Option.some_ne_none node hnode.symm).elim
  induction schedule using List.reverseRecOn with
  | nil => exact hnone
  | append_singleton schedule k ih =>
    have hupdate : ∀ p : Phase X, (∀ node, p.snapshot = some node → R k node) → ∀ i node,
        (Function.update (run host id calls store schedule).phase k p i).snapshot = some node → R i node := by
      intro p hp i node hnode
      by_cases hik : i = k
      · subst hik
        rw [Function.update_self] at hnode
        exact hp node hnode
      · rw [Function.update_of_ne hik] at hnode
        exact ih i node hnode
    rw [run, List.foldl_append]
    change ∀ i node, ((advance host id calls (run host id calls store schedule) k).phase i).snapshot = some node → _
    unfold advance
    split
    · split
      · exact hupdate _ (hnone k)
      · exact hupdate _ fun node hnode => Option.some.inj hnode ▸ hR k _
    · rename_i snapshot hphase
      split
      · exact hupdate _ (hnone k)
      · exact hupdate _ fun node hnode => ih k node (by rw [hphase]; exact hnode)
    · exact ih

theorem synced_iff_last (h : Synced host id store) (hfaults : store.faults = []) (schedule : List ι)
    (hall : ∀ i, 1 < schedule.count i) :
    (∀ calls : ι → ContentNode X → ContentNode X, (∀ i node, (calls i node).id = node.id) →
      Synced host id (run host id calls store schedule).store) ↔ lastMutator schedule = lastWriter schedule := by
  cases hmutator : lastMutator schedule with
  | none =>
    have hnil : schedule = [] := by
      refine List.eq_nil_iff_forall_not_mem.mpr fun i hi => ?_
      exact lastTurn_ne_none (List.count_pos_iff.mpr hi) hmutator
    subst hnil
    exact iff_of_true (fun _ _ => h) rfl
  | some m =>
    obtain ⟨j, hwriter⟩ := Option.ne_none_iff_exists'.mp (lastTurn_ne_none (hall m))
    constructor
    · intro hsynced
      obtain ⟨calls, hcalls⟩ : ∃ calls : ι → ContentNode X → ContentNode X, calls = fun i node =>
        { node with lod := [if i = m then ['a'] else ['b']] } := ⟨_, rfl⟩
      have hkeeps : ∀ i node, (calls i node).id = node.id := fun i node => by rw [hcalls]
      obtain ⟨node, rows, hnode, -, hrows, hrow⟩ := hsynced calls hkeeps
      have htracks := tracks_run hkeeps h hfaults schedule
      obtain ⟨node₁, hnode₁, -, hsnapshot₁⟩ := htracks.node
      obtain ⟨node₂, rows₂, hrows₂, hrow₂, hsnapshot₂⟩ := htracks.row
      have hmark : ∀ i node, (calls i node).ensureLodEager.tier 0 = if i = m then ['a'] else ['b'] := by
        intro i node
        rw [(ContentNode.ensureLodEager_keeps _).2.2.2.2 0 (by decide), hcalls]
        rfl
      have hspec : ∀ i node, ((run host id calls store schedule).phase i).snapshot = some node →
          node.tier 0 = if i = m then ['a'] else ['b'] := snapshot_spec hmark schedule
      have hmark₁ := hspec m node₁ (hsnapshot₁ m hmutator)
      have hmark₂ := hspec j node₂ (hsnapshot₂ j hwriter)
      obtain rfl := Option.some.inj (hnode.symm.trans hnode₁)
      obtain rfl := Option.some.inj (hrows.symm.trans hrows₂)
      have htext : node.tier 0 = node₂.tier 0 := congrArg LedgerRow.content (Option.some.inj (hrow.symm.trans hrow₂))
      rw [hmark₁, hmark₂, if_pos rfl] at htext
      by_cases hjm : j = m
      · exact (hjm ▸ hwriter).symm
      · rw [if_neg hjm] at htext
        exact absurd htext (by decide)
    · intro hlast calls hcalls
      have htracks := tracks_run hcalls h hfaults schedule
      obtain ⟨node, hnode, hid, hsnapshot⟩ := htracks.node
      obtain ⟨written, rows, hrows, hrow, hwritten⟩ := htracks.row
      have hsame := (hsnapshot m hmutator).symm.trans (hwritten m hlast.symm)
      obtain rfl := Option.some.inj hsame
      exact ⟨node, rows, hnode, hid, hrows, hrow⟩

def sharedNode : ContentNode Unit := ContentNode.newNode 1 "s".toList "r".toList "user".toList "x".toList none 0

def sharedStore : ContentNodeStore Unit where
  nodes := (∅ : HashMap NodeId (ContentNode Unit)).insert 1 sharedNode
  bySession := ∅
  byRole := ∅
  nextId := 2
  durable := some [ContentNodeStore.writeOnly.rowOf 1 sharedNode]
  faults := []

theorem sharedStore_synced : Synced ContentNodeStore.writeOnly 1 sharedStore := by
  refine ⟨sharedNode, [ContentNodeStore.writeOnly.rowOf 1 sharedNode], Finmap.lookup_insert _, ?_, rfl, ?_⟩
  · decide +kernel
  · decide +kernel

theorem one_after_the_other :
    lastMutator [false, false, true, true] = lastWriter [false, false, true, true] ∧
      ∀ calls : Bool → ContentNode Unit → ContentNode Unit, (∀ i node, (calls i node).id = node.id) →
        Synced ContentNodeStore.writeOnly 1
          (run ContentNodeStore.writeOnly 1 calls sharedStore [false, false, true, true]).store := by
  have hlast : lastMutator [false, false, true, true] = lastWriter [false, false, true, true] := by decide
  exact ⟨hlast, (synced_iff_last sharedStore_synced rfl _ (by decide)).mpr hlast⟩

def collapsedTwice : Writers Bool Unit :=
  run ContentNodeStore.writeOnly 1
    (fun second => ContentNodeStore.replaceText (if second then "b".toList else "a".toList) 0) sharedStore
    [false, true, true, false]

theorem older_snapshot_stays :
    (collapsedTwice.store.nodes.lookup 1).map (fun node => node.tier 0) = some "b".toList ∧
      (collapsedTwice.store.durable.bind fun rows => rowAt rows 1).map LedgerRow.content = some "a".toList ∧
      ¬Synced ContentNodeStore.writeOnly 1 collapsedTwice.store := by
  have hnode : (collapsedTwice.store.nodes.lookup 1).map (fun node => node.tier 0) = some "b".toList := by
    decide +kernel
  have hrow : (collapsedTwice.store.durable.bind fun rows => rowAt rows 1).map LedgerRow.content = some "a".toList := by
    decide +kernel
  refine ⟨hnode, hrow, ?_⟩
  rintro ⟨node, rows, hlookup, -, hrows, hat⟩
  rw [hlookup] at hnode
  rw [hrows, Option.bind_some, hat] at hrow
  have hb : node.tier 0 = "b".toList := Option.some.inj hnode
  have ha : node.tier 0 = "a".toList := Option.some.inj hrow
  exact absurd (hb.symm.trans ha) (by decide)

end Writers

end Fluent.Router.Ledger
