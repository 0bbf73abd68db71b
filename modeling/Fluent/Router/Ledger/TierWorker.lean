import Fluent.Library.Runs
import Fluent.Router.Ledger.StoreSteps

namespace Fluent.Router.Ledger

open Fluent.Library
open Fluent.Spacy (Text)

variable {X : Type}

structure TierConfig where
  targetLevels : List ℕ
  lod4MaxChars : ℕ
  lod5MaxChars : ℕ
  maxRetries : ℕ

def parseTiers (text : Text) : Option Text × Option Text :=
  let found := (text.splitOn '\n').foldl (fun (found : Option Text × Option Text) line =>
    let t := Text.trim line
    if "SUMMARY:".toList <+: t then (some (Text.trim (t.drop 8)), found.2)
    else if "DESCRIPTION:".toList <+: t then (found.1, some (Text.trim (t.drop 12)))
    else found) (none, none)
  (found.1.or (some text.trim), found.2)

def truncateChars (s : Text) (maxChars : ℕ) : Text := s.take maxChars

inductive TierWrite
  | upgrade (lod4 lod5 : Option Text)
  | degrade

def TierWrite.apply (w : TierWrite) (role lod0 : Text) (node : ContentNode X) : ContentNode X :=
  let node := node.padLod 6
  let label := deriveLabel role lod0
  match w with
  | .upgrade lod4 lod5 =>
    let node := match lod4 with
      | some text => if node.tier 4 = [] then node.setTier 4 text else node
      | none => node
    match lod5 with
    | some text => if node.tier 5 = [] ∨ node.tier 5 = label then node.setTier 5 text else node
    | none => node
  | .degrade => if node.tier 5 = [] then node.setTier 5 label else node

inductive TierPoint
  | snapshot
  | asking (needLod4 needLod5 : Bool)
  | readingRole (w : TierWrite)
  | readingText (w : TierWrite) (role : Text)
  | writing (w : TierWrite) (role lod0 : Text)
  | checking

inductive TierEnding
  | settled
  | gaveUp
  | requeued (accepted : Bool)

inductive TierStage
  | running (point : TierPoint)
  | settle
  | reenqueue
  | done (ending : TierEnding)

structure TierTask where
  id : NodeId
  stage : TierStage

/-- Every run that was started is among the tasks. A node without an entry in `retries` counts 0. -/
structure TierWorker (X : Type) where
  store : ContentNodeStore X
  retries : NodeId → ℕ
  queue : List NodeId
  tasks : List TierTask

inductive TierOp (X : Type)
  | enqueue (id : NodeId) (accepted : Bool)
  | outside (store : ContentNodeStore X)
  | start
  | advance (k : ℕ) (reply : Except Text Text) (accepted : Bool)

def needsTier (store : ContentNodeStore X) (id : NodeId) : Bool :=
  (store.nodes.lookup id).any fun node => node.tier 4 = [] ∨ node.tier 5 = []

namespace TierPoint

def derived (lod4 lod5 : Option Text) : TierStage :=
  if lod4 = none ∧ lod5 = none then .running .checking else .running (.readingRole (.upgrade lod4 lod5))

variable (cfg : TierConfig) (host : Host X)

def fromSnapshot (node : ContentNode X) : TierStage :=
  let needLod4 := decide (4 ∈ cfg.targetLevels ∧ node.tier 4 = [])
  let needLod5 := decide (5 ∈ cfg.targetLevels ∧
    (node.tier 5 = [] ∨ node.tier 5 = deriveLabel node.roleName (node.tier 0)))
  if node.tier 0 = [] ∨ (needLod4 = false ∧ needLod5 = false) then derived none none
  else .running (.asking needLod4 needLod5)

def fromReply (needLod4 needLod5 : Bool) : Except Text Text → TierStage
  | .error _ => .running (.readingRole .degrade)
  | .ok text =>
    let (summary, desc) := parseTiers text
    derived (if needLod4 then summary.map (truncateChars · cfg.lod4MaxChars) else none)
      (if needLod5 then desc.map (truncateChars · cfg.lod5MaxChars) else none)

def next (store : ContentNodeStore X) (id : NodeId) (reply : Except Text Text) : TierPoint → TierStage
  | snapshot => ((store.nodes.lookup id).map (fromSnapshot cfg)).getD (derived none none)
  | asking needLod4 needLod5 => fromReply cfg needLod4 needLod5 reply
  | readingRole w => .running (.readingText w (((store.nodes.lookup id).map ContentNode.roleName).getD []))
  | readingText w role => .running (.writing w role (((store.nodes.lookup id).map (·.tier 0)).getD []))
  | writing (.upgrade _ _) _ _ => .running .checking
  | writing .degrade _ _ => .reenqueue
  | checking => if needsTier store id then .reenqueue else .settle

def write (store : ContentNodeStore X) (id : NodeId) : TierPoint → ContentNodeStore X
  | writing w role lod0 => (store.withNodeMut host id (w.apply role lod0)).2
  | _ => store

end TierPoint

namespace TierWorker

variable (cfg : TierConfig) (host : Host X)

def new (store : ContentNodeStore X) : TierWorker X := ⟨store, fun _ => 0, [], []⟩

def offer (s : TierWorker X) (id : NodeId) (accepted : Bool) : TierWorker X :=
  if accepted then { s with queue := s.queue ++ [id] } else s

def goto (s : TierWorker X) (k : ℕ) (id : NodeId) (stage : TierStage) : TierWorker X :=
  { s with tasks := s.tasks.set k ⟨id, stage⟩ }

def setRetries (s : TierWorker X) (id : NodeId) (count : ℕ) : TierWorker X :=
  { s with retries := Function.update s.retries id count }

def advance (s : TierWorker X) (k : ℕ) (task : TierTask) (reply : Except Text Text) (accepted : Bool) : TierWorker X :=
  match task.stage with
  | .running point =>
    { s with store := point.write host s.store task.id }.goto k task.id (point.next cfg s.store task.id reply)
  | .settle => (s.setRetries task.id 0).goto k task.id (.done .settled)
  | .reenqueue =>
    if s.retries task.id < cfg.maxRetries then
      ((s.setRetries task.id (s.retries task.id + 1)).offer task.id accepted).goto k task.id (.done (.requeued accepted))
    else (s.setRetries task.id 0).goto k task.id (.done .gaveUp)
  | .done _ => s

def step (s : TierWorker X) : TierOp X → TierWorker X
  | .enqueue id accepted => s.offer id accepted
  | .outside store => { s with store := store }
  | .start =>
    match s.queue with
    | [] => s
    | id :: queue => { s with queue := queue, tasks := s.tasks ++ [⟨id, .running .snapshot⟩] }
  | .advance k reply accepted =>
    match s.tasks[k]? with
    | none => s
    | some task => advance cfg host s k task reply accepted

def run (s : TierWorker X) (ops : List (TierOp X)) : TierWorker X := ops.foldl (step cfg host) s

end TierWorker

def tally (f : TierTask → ℕ) (tasks : List TierTask) : ℕ := (tasks.map f).sum

def TierTask.weigh (id : NodeId) (f : TierStage → ℕ) (task : TierTask) : ℕ := if task.id = id then f task.stage else 0

namespace TierStage

def live : TierStage → ℕ
  | done _ => 0
  | _ => 1

def left : TierStage → ℕ
  | done .settled | done .gaveUp => 1
  | _ => 0

def retried : TierStage → ℕ
  | done (.requeued _) => 1
  | _ => 0

def lost : TierStage → ℕ
  | done (.requeued false) => 1
  | _ => 0

def progress : TierStage → ℕ
  | running .snapshot => 1
  | running (.asking ..) => 2
  | running (.readingRole _) => 3
  | running (.readingText ..) => 4
  | running (.writing ..) => 5
  | running .checking => 6
  | settle | reenqueue => 7
  | done _ => 8

structure Going (stage : TierStage) : Prop where
  live : stage.live = 1
  left : stage.left = 0
  retried : stage.retried = 0
  lost : stage.lost = 0

end TierStage

namespace TierWorker

def total (s : TierWorker X) (id : NodeId) (f : TierStage → ℕ) : ℕ := tally (TierTask.weigh id f) s.tasks

def runs (s : TierWorker X) (id : NodeId) : ℕ := s.total id fun _ => 1

def busy (s : TierWorker X) (id : NodeId) : TierOp X → Bool
  | .start => s.queue.head? = some id
  | .advance k _ _ => (s.tasks[k]?).any fun task => task.id = id ∧ task.stage.live = 1
  | _ => false

def work (cfg : TierConfig) (host : Host X) (id : NodeId) : TierWorker X → List (TierOp X) → ℕ
  | _, [] => 0
  | s, op :: ops => (if s.busy id op then 1 else 0) + work cfg host id (step cfg host s op) ops

end TierWorker

def TierOp.enqueues (id : NodeId) : TierOp X → ℕ
  | .enqueue id' _ => if id' = id then 1 else 0
  | _ => 0

def KeepsLod4 (cfg : TierConfig) (host : Host X) (s : TierWorker X) (op : TierOp X) : Prop :=
  (∀ store, op ≠ .outside store) → ∀ id node, s.store.nodes.lookup id = some node → node.tier 4 ≠ [] →
    ∃ node', (s.step cfg host op).store.nodes.lookup id = some node' ∧ node'.tier 4 = node.tier 4

section Tally

variable {f g : TierTask → ℕ} {tasks : List TierTask}

@[simp] theorem tally_append (task : TierTask) : tally f (tasks ++ [task]) = tally f tasks + f task := by
  simp [tally]

theorem tally_set {k : ℕ} {task task' : TierTask} (h : tasks[k]? = some task) :
    tally f (tasks.set k task') + f task = tally f tasks + f task' := by
  induction tasks generalizing k with
  | nil => cases h
  | cons t tasks ih =>
    cases k with
    | zero =>
      cases h
      simp only [tally, List.set_cons_zero, List.map_cons, List.sum_cons]
      omega
    | succ k =>
      have hrest := ih h
      simp only [tally, List.set_cons_succ, List.map_cons, List.sum_cons] at hrest ⊢
      omega

theorem tally_add : tally f tasks + tally g tasks = tally (fun task => f task + g task) tasks := by
  induction tasks with
  | nil => rfl
  | cons t tasks ih =>
    simp only [tally, List.map_cons, List.sum_cons] at ih ⊢
    omega

theorem tally_mul (c : ℕ) : tally (fun task => c * f task) tasks = c * tally f tasks := by
  induction tasks with
  | nil => rfl
  | cons t tasks ih =>
    simp only [tally, List.map_cons, List.sum_cons, Nat.mul_add] at ih ⊢
    omega

theorem tally_le (h : ∀ task, f task ≤ g task) : tally f tasks ≤ tally g tasks := by
  induction tasks with
  | nil => exact Nat.le_refl 0
  | cons t tasks ih =>
    have ht := h t
    simp only [tally, List.map_cons, List.sum_cons] at ih ⊢
    omega

end Tally

namespace TierWorker

variable {cfg : TierConfig} {host : Host X} {s : TierWorker X} {id : NodeId}

structure Accounted (cfg : TierConfig) (id : NodeId) (n : ℕ) (s : TierWorker X) : Prop where
  copies : s.queue.count id + s.total id TierStage.live + s.total id TierStage.left +
    s.total id TierStage.lost ≤ n
  retried : s.total id TierStage.retried ≤
    cfg.maxRetries * s.total id TierStage.left + s.retries id
  counter : s.retries id ≤ cfg.maxRetries
  owed : s.retries id = 0 ∨ 0 < s.queue.count id + s.total id TierStage.live +
    s.total id TierStage.lost

theorem runs_eq : s.runs id = s.total id TierStage.live + s.total id TierStage.left +
    s.total id TierStage.retried := by
  unfold runs total
  rw [tally_add, tally_add]
  refine congrArg (tally · s.tasks) (funext fun task => ?_)
  unfold TierTask.weigh
  split_ifs
  · obtain ⟨_, point | _ | _ | (_ | _ | accepted)⟩ := task <;> rfl
  · rfl

theorem Accounted.runs_le {n : ℕ} (h : Accounted cfg id n s) : s.runs id ≤ n * (cfg.maxRetries + 1) := by
  obtain ⟨hcopies, hretried, hcounter, howed⟩ := h
  rw [runs_eq]
  generalize s.total id TierStage.live = live at *
  generalize s.total id TierStage.left = left at *
  generalize s.total id TierStage.lost = lost at *
  generalize s.total id TierStage.retried = retried at *
  generalize s.queue.count id = queued at *
  generalize s.retries id = count at *
  have howe : live + count ≤ (queued + live + lost) * (cfg.maxRetries + 1) := by
    rcases howed with rfl | hpos
    · rw [Nat.mul_succ]
      omega
    · have hmul : cfg.maxRetries ≤ (queued + live + lost) * cfg.maxRetries := Nat.le_mul_of_pos_left _ hpos
      rw [Nat.mul_succ]
      omega
  calc live + left + retried ≤ left * (cfg.maxRetries + 1) + (live + count) := by
        rw [Nat.mul_succ, Nat.mul_comm left]
        omega
    _ ≤ left * (cfg.maxRetries + 1) + (queued + live + lost) * (cfg.maxRetries + 1) := Nat.add_le_add_left howe _
    _ = (left + (queued + live + lost)) * (cfg.maxRetries + 1) := (Nat.add_mul ..).symm
    _ ≤ n * (cfg.maxRetries + 1) := Nat.mul_le_mul_right _ (by omega)

theorem next_running (store : ContentNodeStore X) (reply : Except Text Text) (point : TierPoint) :
    (TierStage.running point).progress < (point.next cfg store id reply).progress ∧
      (point.next cfg store id reply).Going := by
  have hderived : ∀ lod4 lod5, 2 < (TierPoint.derived lod4 lod5).progress ∧ (TierPoint.derived lod4 lod5).Going := by
    intro lod4 lod5
    unfold TierPoint.derived
    split_ifs
    · exact ⟨Nat.le_of_ble_eq_true rfl, rfl, rfl, rfl, rfl⟩
    · exact ⟨Nat.le_refl 3, rfl, rfl, rfl, rfl⟩
  cases point with
  | snapshot =>
    cases hnode : store.nodes.lookup id with
    | none =>
      simp only [TierPoint.next, hnode, Option.map_none, Option.getD_none]
      exact ⟨Nat.lt_of_succ_lt (hderived none none).1, (hderived none none).2⟩
    | some node =>
      simp only [TierPoint.next, hnode, Option.map_some, Option.getD_some, TierPoint.fromSnapshot]
      split_ifs
      · exact ⟨Nat.lt_of_succ_lt (hderived none none).1, (hderived none none).2⟩
      · exact ⟨Nat.le_refl 2, rfl, rfl, rfl, rfl⟩
  | asking needLod4 needLod5 =>
    cases reply with
    | error e => exact ⟨Nat.le_refl 3, rfl, rfl, rfl, rfl⟩
    | ok text => exact hderived _ _
  | readingRole w => exact ⟨Nat.le_refl 4, rfl, rfl, rfl, rfl⟩
  | readingText w role => exact ⟨Nat.le_refl 5, rfl, rfl, rfl, rfl⟩
  | writing w role lod0 =>
    cases w with
    | upgrade lod4 lod5 => exact ⟨Nat.le_refl 6, rfl, rfl, rfl, rfl⟩
    | degrade => exact ⟨Nat.le_succ 6, rfl, rfl, rfl, rfl⟩
  | checking =>
    simp only [TierPoint.next]
    split_ifs
    · exact ⟨Nat.le_refl 7, rfl, rfl, rfl, rfl⟩
    · exact ⟨Nat.le_refl 7, rfl, rfl, rfl, rfl⟩

theorem total_goto (id : NodeId) {k : ℕ} {task : TierTask} (h : s.tasks[k]? = some task) (f : TierStage → ℕ)
    (stage : TierStage) : (s.goto k task.id stage).total id f + (if task.id = id then f task.stage else 0) =
      s.total id f + (if task.id = id then f stage else 0) :=
  tally_set h

theorem accounted_goto {n k : ℕ} {task : TierTask} (hk : s.tasks[k]? = some task) {stage : TierStage}
    (hgoing : task.stage.Going) (hstage : stage.Going) (h : Accounted cfg id n s) :
    Accounted cfg id n (s.goto k task.id stage) := by
  have hsame : ∀ f : TierStage → ℕ, f task.stage = f stage → (s.goto k task.id stage).total id f = s.total id f := by
    intro f hf
    have hset := total_goto id hk f stage
    rw [hf] at hset
    exact Nat.add_right_cancel hset
  have hlive := hsame TierStage.live (hgoing.live.trans hstage.live.symm)
  have hleft := hsame TierStage.left (hgoing.left.trans hstage.left.symm)
  have hretried := hsame TierStage.retried (hgoing.retried.trans hstage.retried.symm)
  have hlost := hsame TierStage.lost (hgoing.lost.trans hstage.lost.symm)
  obtain ⟨hcopies, hretry, hcounter, howed⟩ := h
  exact ⟨by rwa [hlive, hleft, hlost], by rwa [hleft, hretried], hcounter, by rwa [hlive, hlost]⟩

theorem totals_end {k : ℕ} {task : TierTask} (hk : s.tasks[k]? = some task) (hgoing : task.stage.Going)
    (ending : TierEnding) :
    (s.goto k task.id (.done ending)).total task.id TierStage.live + 1 = s.total task.id TierStage.live ∧
      (s.goto k task.id (.done ending)).total task.id TierStage.left =
        s.total task.id TierStage.left + (TierStage.done ending).left ∧
      (s.goto k task.id (.done ending)).total task.id TierStage.retried =
        s.total task.id TierStage.retried + (TierStage.done ending).retried ∧
      (s.goto k task.id (.done ending)).total task.id TierStage.lost =
        s.total task.id TierStage.lost + (TierStage.done ending).lost := by
  have hset := fun f => total_goto task.id hk f (.done ending)
  simp only [if_true] at hset
  refine ⟨?_, ?_, ?_, ?_⟩
  · rw [← hgoing.live]
    exact hset TierStage.live
  · rw [← hset TierStage.left, hgoing.left, Nat.add_zero]
  · rw [← hset TierStage.retried, hgoing.retried, Nat.add_zero]
  · rw [← hset TierStage.lost, hgoing.lost, Nat.add_zero]

theorem accounted_other {n k : ℕ} {task : TierTask} (hk : s.tasks[k]? = some task) (hid : task.id ≠ id)
    (stage : TierStage) (h : Accounted cfg id n s) : Accounted cfg id n (s.goto k task.id stage) := by
  have hsame : ∀ f : TierStage → ℕ, (s.goto k task.id stage).total id f = s.total id f := by
    intro f
    have hset := total_goto id hk f stage
    rwa [if_neg hid, if_neg hid] at hset
  obtain ⟨hcopies, hretry, hcounter, howed⟩ := h
  exact ⟨by rwa [hsame, hsame, hsame], by rwa [hsame, hsame], hcounter, by rwa [hsame, hsame]⟩

theorem accounted_setRetries {n : ℕ} {id' : NodeId} (hid : id' ≠ id) (count : ℕ) (h : Accounted cfg id n s) :
    Accounted cfg id n (s.setRetries id' count) := by
  have hsame : (s.setRetries id' count).retries id = s.retries id := Function.update_of_ne (Ne.symm hid) ..
  exact ⟨h.copies, by rw [hsame]; exact h.retried, by rw [hsame]; exact h.counter, by rw [hsame]; exact h.owed⟩

theorem accounted_offer {n : ℕ} (h : Accounted cfg id n s) (id' : NodeId) (accepted : Bool) :
    Accounted cfg id (n + if id' = id then 1 else 0) (s.offer id' accepted) := by
  obtain ⟨hcopies, hretry, hcounter, howed⟩ := h
  cases accepted with
  | false => exact ⟨Nat.le_trans hcopies (Nat.le_add_right ..), hretry, hcounter, howed⟩
  | true =>
    have hcount : (s.offer id' true).queue.count id = s.queue.count id + if id' = id then 1 else 0 := by
      simp [offer, List.count_append, List.count_singleton]
    have htotal : ∀ f, (s.offer id' true).total id f = s.total id f := fun _ => rfl
    refine ⟨?_, hretry, hcounter, ?_⟩
    · simp only [hcount, htotal]
      omega
    · simp only [hcount, htotal]
      exact howed.imp_right fun hpos => by omega

theorem accounted_leave {n k : ℕ} {task : TierTask} (hk : s.tasks[k]? = some task) (hgoing : task.stage.Going)
    {ending : TierEnding} (hleaves : (TierStage.done ending).left = 1 ∧ (TierStage.done ending).retried = 0 ∧
      (TierStage.done ending).lost = 0) (h : Accounted cfg id n s) :
    Accounted cfg id n ((s.setRetries task.id 0).goto k task.id (.done ending)) := by
  by_cases hid : task.id = id
  · subst hid
    obtain ⟨hcopies, hretry, hcounter, howed⟩ := h
    obtain ⟨hlive, hleft, hretried, hlost⟩ := totals_end (s := s.setRetries task.id 0) hk hgoing ending
    have htotal : ∀ f, (s.setRetries task.id 0).total task.id f = s.total task.id f := fun _ => rfl
    have hzero : ((s.setRetries task.id 0).goto k task.id (.done ending)).retries task.id = 0 := Function.update_self ..
    have hqueue : ((s.setRetries task.id 0).goto k task.id (.done ending)).queue = s.queue := rfl
    rw [htotal] at hlive hleft hretried hlost
    rw [hleaves.1] at hleft
    rw [hleaves.2.1] at hretried
    rw [hleaves.2.2] at hlost
    refine ⟨?_, ?_, by omega, .inl hzero⟩
    · rw [hqueue]
      omega
    · rw [hzero, hretried, hleft, Nat.mul_add]
      omega
  · exact accounted_other (s := s.setRetries task.id 0) hk hid _ (accounted_setRetries hid 0 h)

theorem accounted_retry {n k : ℕ} {task : TierTask} (hk : s.tasks[k]? = some task) (hgoing : task.stage.Going)
    (hcount : s.retries task.id < cfg.maxRetries) (accepted : Bool) (h : Accounted cfg id n s) :
    Accounted cfg id n (((s.setRetries task.id (s.retries task.id + 1)).offer task.id accepted).goto k task.id
      (.done (.requeued accepted))) := by
  have hk' : ((s.setRetries task.id (s.retries task.id + 1)).offer task.id accepted).tasks[k]? = some task := by
    cases accepted <;> exact hk
  by_cases hid : task.id = id
  · subst hid
    obtain ⟨hcopies, hretry, hcounter, howed⟩ := h
    obtain ⟨hlive, hleft, hretried, hlost⟩ := totals_end hk' hgoing (.requeued accepted)
    generalize hs' : ((s.setRetries task.id (s.retries task.id + 1)).offer task.id accepted).goto k task.id
      (.done (.requeued accepted)) = s' at *
    have htotal : ∀ f, ((s.setRetries task.id (s.retries task.id + 1)).offer task.id accepted).total task.id f =
        s.total task.id f := by
      intro f
      cases accepted <;> rfl
    have hretries : s'.retries task.id = s.retries task.id + 1 := by
      rw [← hs']
      cases accepted <;> exact Function.update_self ..
    have hcopy : s'.queue.count task.id + (TierStage.done (.requeued accepted)).lost = s.queue.count task.id + 1 := by
      rw [← hs']
      cases accepted with
      | false => rfl
      | true => simp [goto, offer, setRetries, TierStage.lost]
    rw [htotal] at hlive hleft hretried hlost
    have hone : (TierStage.done (.requeued accepted)).retried = 1 ∧ (TierStage.done (.requeued accepted)).left = 0 :=
      ⟨rfl, rfl⟩
    rw [hone.2, Nat.add_zero] at hleft
    rw [hone.1] at hretried
    refine ⟨by omega, ?_, by omega, by omega⟩
    rw [hretried, hleft, hretries]
    omega
  · refine accounted_other hk' hid _ ?_
    have hoffer := accounted_offer (accounted_setRetries hid (s.retries task.id + 1) h) task.id accepted
    rwa [if_neg hid] at hoffer

theorem accounted_advance {n k : ℕ} {task : TierTask} (hk : s.tasks[k]? = some task) (reply : Except Text Text)
    (accepted : Bool) (h : Accounted cfg id n s) : Accounted cfg id n (advance cfg host s k task reply accepted) := by
  unfold advance
  cases hstage : task.stage with
  | running point =>
    refine accounted_goto (s := { s with store := point.write host s.store task.id }) hk ?_
      (next_running s.store reply point).2 ⟨h.copies, h.retried, h.counter, h.owed⟩
    exact hstage ▸ ⟨rfl, rfl, rfl, rfl⟩
  | settle => exact accounted_leave hk (hstage ▸ ⟨rfl, rfl, rfl, rfl⟩) ⟨rfl, rfl, rfl⟩ h
  | reenqueue =>
    dsimp only
    split_ifs with hcount
    · exact accounted_retry hk (hstage ▸ ⟨rfl, rfl, rfl, rfl⟩) hcount accepted h
    · exact accounted_leave hk (hstage ▸ ⟨rfl, rfl, rfl, rfl⟩) ⟨rfl, rfl, rfl⟩ h
  | done ending => exact h

theorem accounted_step {n : ℕ} (host : Host X) (h : Accounted cfg id n s) (op : TierOp X) :
    Accounted cfg id (n + op.enqueues id) (step cfg host s op) := by
  cases op with
  | enqueue id' accepted => exact accounted_offer h id' accepted
  | outside store => exact ⟨h.copies, h.retried, h.counter, h.owed⟩
  | start =>
    unfold step
    cases hqueue : s.queue with
    | nil => exact h
    | cons id' queue =>
      obtain ⟨hcopies, hretry, hcounter, howed⟩ := h
      rw [hqueue, List.count_cons] at hcopies howed
      have htotal : ∀ f : TierStage → ℕ, ({ s with queue := queue, tasks := s.tasks ++ [⟨id', .running .snapshot⟩] } :
          TierWorker X).total id f = s.total id f + if id' = id then f (.running .snapshot) else 0 :=
        fun f => tally_append _
      have hlive := htotal TierStage.live
      have hleft := htotal TierStage.left
      have hretried := htotal TierStage.retried
      have hlost := htotal TierStage.lost
      simp only [TierStage.live, TierStage.left, TierStage.retried, TierStage.lost, ite_self, Nat.add_zero] at *
      simp only [beq_iff_eq] at hcopies howed
      refine ⟨?_, by rwa [hretried, hleft], hcounter, ?_⟩
      · simp only [hlive, hleft, hlost]
        omega
      · simp only [hlive, hlost]
        exact howed.imp_right fun hpos => by omega
  | advance k reply accepted =>
    change Accounted cfg id n (step cfg host s (.advance k reply accepted))
    simp only [step]
    cases hk : s.tasks[k]? with
    | none => exact h
    | some task => exact accounted_advance hk reply accepted h

theorem accounted_run {n : ℕ} (host : Host X) (h : Accounted cfg id n s) (ops : List (TierOp X)) :
    Accounted cfg id (n + (ops.map (TierOp.enqueues id)).sum) (run cfg host s ops) := by
  induction ops generalizing s n with
  | nil => exact h
  | cons op ops ih =>
    have hrest := ih (accounted_step host h op)
    rwa [Nat.add_assoc] at hrest

theorem advance_eq_goto (k : ℕ) (task : TierTask) (reply : Except Text Text) (accepted : Bool) :
    (advance cfg host s k task reply accepted = s ∧ task.stage.live = 0) ∨
      ∃ s' stage, advance cfg host s k task reply accepted = goto s' k task.id stage ∧ s'.tasks = s.tasks ∧
        task.stage.progress < stage.progress := by
  unfold advance
  cases hstage : task.stage with
  | running point => exact .inr ⟨_, _, rfl, rfl, (next_running s.store reply point).1⟩
  | settle => exact .inr ⟨_, _, rfl, rfl, Nat.le_refl 8⟩
  | reenqueue =>
    right
    dsimp only
    split_ifs
    · refine ⟨_, _, rfl, ?_, Nat.le_refl 8⟩
      cases accepted <;> rfl
    · exact ⟨_, _, rfl, rfl, Nat.le_refl 8⟩
  | done ending => exact .inl ⟨rfl, rfl⟩

theorem progress_step (cfg : TierConfig) (host : Host X) (s : TierWorker X) (id : NodeId) (op : TierOp X) :
    (if s.busy id op then 1 else 0) + s.total id TierStage.progress ≤
      (step cfg host s op).total id TierStage.progress := by
  cases op with
  | enqueue id' accepted => cases accepted <;> exact Nat.le_of_eq (Nat.zero_add _)
  | outside store => exact Nat.le_of_eq (Nat.zero_add _)
  | start =>
    cases hqueue : s.queue with
    | nil => simp [step, busy, hqueue]
    | cons id' queue =>
      simp only [step, busy, hqueue, total, tally_append, TierTask.weigh, TierStage.progress, List.head?_cons,
        Option.some.injEq, decide_eq_true_eq]
      omega
  | advance k reply accepted =>
    cases hk : s.tasks[k]? with
    | none => simp [step, busy, hk]
    | some task =>
      simp only [step, busy, hk, Option.any_some, decide_eq_true_eq]
      rcases advance_eq_goto k task reply accepted with ⟨heq, hdone⟩ | ⟨s', stage, heq, htasks, hlt⟩
      · rw [heq, hdone]
        simp
      · rw [heq]
        have hset := total_goto id (htasks ▸ hk) TierStage.progress stage
        have hsame : s'.total id TierStage.progress = s.total id TierStage.progress := by
          unfold total
          rw [htasks]
        rw [hsame] at hset
        by_cases hid : task.id = id
        · simp only [hid, if_true, true_and] at hset ⊢
          split_ifs <;> omega
        · simp only [hid, if_false, false_and] at hset ⊢
          omega

theorem work_le (cfg : TierConfig) (host : Host X) (id : NodeId) (s : TierWorker X) (ops : List (TierOp X)) :
    work cfg host id s ops + s.total id TierStage.progress ≤ (run cfg host s ops).total id TierStage.progress := by
  induction ops generalizing s with
  | nil => exact Nat.le_of_eq (Nat.zero_add _)
  | cons op ops ih =>
    have hop := progress_step cfg host s id op
    have hrest := ih (step cfg host s op)
    simp only [work]
    change _ ≤ (run cfg host (step cfg host s op) ops).total id TierStage.progress
    omega

theorem progress_le (s : TierWorker X) (id : NodeId) : s.total id TierStage.progress ≤ 8 * s.runs id := by
  unfold runs total
  rw [← tally_mul]
  refine tally_le fun task => ?_
  unfold TierTask.weigh
  split_ifs
  · obtain ⟨_, (_ | _ | _ | _ | _ | _) | _ | _ | _⟩ := task <;> simp [TierStage.progress]
  · exact Nat.le_refl 0

end TierWorker

theorem TierWrite.apply_tier_four (w : TierWrite) (role lod0 : Text) {node : ContentNode X} (h : node.tier 4 ≠ []) :
    (w.apply role lod0 node).ensureLodEager.tier 4 = node.tier 4 := by
  rw [(ContentNode.ensureLodEager_keeps _).2.2.2.2 4 (by omega)]
  have hpad := node.tier_padLod 6 4
  have hkeep : (node.padLod 6).tier 4 ≠ [] := hpad ▸ h
  have hset : ∀ text, ((node.padLod 6).setTier 5 text).tier 4 = node.tier 4 := by
    intro text
    rw [ContentNode.tier_setTier_ne _ (by omega), hpad]
  unfold TierWrite.apply
  cases w with
  | upgrade lod4 lod5 =>
    cases lod4 <;> cases lod5 <;> simp only [if_neg hkeep] <;> try split_ifs
    all_goals first | exact hpad | exact hset _
  | degrade =>
    dsimp only
    split_ifs
    · exact hset _
    · exact hpad

namespace TierWorker

theorem store_step (cfg : TierConfig) (host : Host X) (s : TierWorker X) {op : TierOp X}
    (hop : ∀ store, op ≠ .outside store) : (s.step cfg host op).store = s.store ∨
      ∃ (id : NodeId) (w : TierWrite) (role lod0 : Text),
        (s.step cfg host op).store = (s.store.withNodeMut host id (w.apply role lod0)).2 := by
  cases op with
  | enqueue id accepted => cases accepted <;> exact .inl rfl
  | outside store => exact absurd rfl (hop store)
  | start => cases hqueue : s.queue <;> simp [step, hqueue]
  | advance k reply accepted =>
    cases hk : s.tasks[k]? with
    | none => simp [step, hk]
    | some task =>
      simp only [step, hk, advance]
      cases hstage : task.stage with
      | running point =>
        cases point with
        | writing w role lod0 => exact .inr ⟨task.id, w, role, lod0, rfl⟩
        | _ => exact .inl rfl
      | settle => exact .inl rfl
      | reenqueue =>
        left
        dsimp only
        split_ifs
        · cases accepted <;> rfl
        · rfl
      | done ending => exact .inl rfl

theorem keepsLod4 (cfg : TierConfig) (host : Host X) (s : TierWorker X) (op : TierOp X) : KeepsLod4 cfg host s op := by
  intro hop id node hnode htier
  rcases store_step cfg host s hop with hsame | ⟨id', w, role, lod0, hwrite⟩
  · rw [hsame]
    exact ⟨node, hnode, rfl⟩
  · rw [hwrite]
    cases hlookup : s.store.nodes.lookup id' with
    | none =>
      rw [ContentNodeStore.withNodeMut_of_none _ _ _ hlookup]
      exact ⟨node, hnode, rfl⟩
    | some node' =>
      rw [ContentNodeStore.withNodeMut_nodes _ _ _ hlookup]
      by_cases hid : id' = id
      · subst hid
        obtain rfl := Option.some.inj (hlookup.symm.trans hnode)
        refine ⟨_, ?_, w.apply_tier_four role lod0 htier⟩
        rw [HashMap.lookup_insert_ite, if_pos rfl]
      · refine ⟨node, ?_, rfl⟩
        rw [HashMap.lookup_insert_ite, if_neg (Ne.symm hid)]
        exact hnode

theorem tier_runs_bounded (cfg : TierConfig) (host : Host X) (store : ContentNodeStore X) (ops : List (TierOp X)) :
    (∀ id, (run cfg host (new store) ops).runs id ≤
        (ops.map (TierOp.enqueues id)).sum * (cfg.maxRetries + 1) ∧
      work cfg host id (new store) ops ≤ 8 * ((ops.map (TierOp.enqueues id)).sum * (cfg.maxRetries + 1))) ∧
      Respects (step cfg host) (KeepsLod4 cfg host) (new store) ops := by
  refine ⟨fun id => ?_, ?_⟩
  · have hnew : Accounted cfg id 0 (new store) :=
      ⟨Nat.le_refl 0, Nat.zero_le _, Nat.zero_le _, .inl rfl⟩
    have hruns := (accounted_run host hnew ops).runs_le
    rw [Nat.zero_add] at hruns
    refine ⟨hruns, ?_⟩
    have hwork := work_le cfg host id (new store) ops
    have hprogress := progress_le (run cfg host (new store) ops) id
    omega
  · exact respects_of_along (I := fun _ => True) (fun s op _ => keepsLod4 cfg host s op)
      (along_of_step (fun _ _ _ _ => trivial) trivial (respects_true _ ops))

end TierWorker

end Fluent.Router.Ledger
