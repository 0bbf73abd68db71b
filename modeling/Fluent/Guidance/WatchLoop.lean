import Fluent.Guidance.ChangeSet
import Fluent.Library.Runs

namespace Fluent.Guidance

open Fluent.Library
open Fluent.Spacy (Text)
open Fluent.CommonCore.Path

def ChangeSet.isEmpty (c : ChangeSet) : Bool := c.size == 0 && !c.forceFullReconcile

inductive FileEventKind where
  | created
  | changed
  | deleted
  | renamed
deriving DecidableEq

inductive WatchReason where
  | watch
  | reconcile
deriving DecidableEq

inductive Lifecycle where
  | new
  | running
  | closed
deriving DecidableEq

structure WatchOptions where
  root : Text
  linux : Bool
  debounceMs : ℕ
  maxWaitMs : ℕ
  reconcileIntervalMs : ℕ
  resumeCheckIntervalMs : ℕ
  resumeThresholdMs : ℕ
  maxChangedPaths : ℕ
  notifies : Bool

structure RecoveryState where
  consecutiveErrors : ℕ
  reconciliationPending : Bool
  retryScheduled : Bool
  stableScheduled : Bool
deriving DecidableEq

def RecoveryState.default : RecoveryState := ⟨0, false, false, false⟩

abbrev Filters := Text → Bool → Bool

/-- The state of the loop, with the batches whose sink still runs, the `FlushDone` messages that wait in the channel and
the values reported so far. -/
structure LoopState where
  options : WatchOptions
  filters : Filters
  changes : ChangeSet
  debounceAt : Option ℕ
  maxwaitAt : Option ℕ
  reconcileRequested : Bool
  lastResumeCheck : ℕ
  pendingFlag : Bool
  lifecycle : Lifecycle
  recovery : HashMap Text RecoveryState
  reconcileAt : Option ℕ
  resumeAt : Option ℕ
  inFlight : List (ChangeSetSnapshot × WatchReason)
  flushDones : ℕ
  reports : List Bool

/-- What the loop may take next: a message, a timer or, outside of the loop, the end of a running sink. Times are in
milliseconds; `rebuilt` are the filters as the ignore files give them at that moment. -/
inductive LoopStep where
  | start (now : ℕ)
  | backendFile (path : Text) (kind : FileEventKind)
  | backendError (key : Text) (now : ℕ)
  | watchRegistered (key : Text)
  | statted (path : Text) (hint : FileEventKind) (existsDir : Option Bool) (rebuilt : Filters) (now : ℕ)
  | refreshTree (rebuilt : Filters)
  | flushNow
  | resumeCheck (at' : ℕ) (now : ℕ)
  | retryWatch (key : Text)
  | watchStable (key : Text)
  | flushDone
  | close
  | debounceTimer (now : ℕ)
  | maxwaitTimer (now : ℕ)
  | reconcileTimer (now : ℕ)
  | resumeTimer (now : ℕ)
  | sinkDone (i : ℕ)

namespace LoopState

def freshChangeSet (options : WatchOptions) : ChangeSet :=
  .new (some (options.root.map fun c => if c = '\\' then '/' else c)) options.maxChangedPaths

def initial (options : WatchOptions) (filters : Filters) (now : ℕ) : LoopState :=
  ⟨options, filters, freshChangeSet options, none, none, false, now, false, .new, ∅, none, none, [], 0, []⟩

def emitPending (s : LoopState) (value : Bool) : LoopState :=
  if s.options.notifies then { s with reports := s.reports ++ [value] } else s

def setPending (s : LoopState) (value : Bool) : LoopState :=
  if s.pendingFlag = value then s else emitPending { s with pendingFlag := value } value

def scheduleFlush (s : LoopState) (now : ℕ) : LoopState :=
  if s.lifecycle = .closed then s
  else
    let s := s.setPending true
    { s with
      debounceAt := some (now + s.options.debounceMs)
      maxwaitAt := s.maxwaitAt <|> some (now + s.options.maxWaitMs) }

def queueFullReconcile (s : LoopState) (now : ℕ) : LoopState :=
  scheduleFlush { s with changes := s.changes.requireFullReconcile, reconcileRequested := true } now

def resumeCheck (s : LoopState) (now : ℕ) : LoopState :=
  let s := if s.options.resumeThresholdMs ≤ now - s.lastResumeCheck then
      { s with changes := s.changes.requireFullReconcile, reconcileRequested := true }
    else s
  { s with lastResumeCheck := now }

def scheduleIfDirty (s : LoopState) (now : ℕ) : LoopState := if s.changes.isEmpty then s else s.scheduleFlush now

def refreshTree (s : LoopState) (rebuilt : Filters) : LoopState :=
  if s.options.linux then { s with filters := rebuilt } else s

def changeKind (existsDir : Option Bool) (hint : FileEventKind) : ChangeKind :=
  match existsDir with
  | none => .deleted
  | some _ => if hint = .renamed then .created else .changed

def handleWatchError (s : LoopState) (key : Text) (now : ℕ) : LoopState :=
  let recovery := (s.recovery.lookup key).getD .default
  let counted := { recovery with
    consecutiveErrors := recovery.consecutiveErrors + 1
    reconciliationPending := true }
  let s' := { s with recovery := s.recovery.insert key counted }
  let s' := if recovery.reconciliationPending then s' else s'.queueFullReconcile now
  { s' with recovery := s'.recovery.insert key { counted with retryScheduled := true, stableScheduled := true } }

def retryWatch (s : LoopState) (key : Text) : LoopState :=
  match s.recovery.lookup key with
  | none => s
  | some recovery => { s with recovery := s.recovery.insert key { recovery with retryScheduled := false } }

def watchStable (s : LoopState) (key : Text) : LoopState :=
  match s.recovery.lookup key with
  | none => s
  | some recovery =>
    if recovery.retryScheduled then
      { s with recovery := s.recovery.insert key ⟨0, false, recovery.retryScheduled, false⟩ }
    else { s with recovery := s.recovery.erase key }

def start (s : LoopState) (now : ℕ) : LoopState :=
  if s.lifecycle ≠ .new then s
  else
    { s with
      lifecycle := .running
      lastResumeCheck := now
      reconcileAt := if 0 < s.options.reconcileIntervalMs then some (now + s.options.reconcileIntervalMs) else s.reconcileAt
      resumeAt := if 0 < s.options.resumeCheckIntervalMs then some (now + s.options.resumeCheckIntervalMs)
        else s.resumeAt }

variable (order : HashOrder Text)

def startFlush (s : LoopState) : LoopState :=
  if s.lifecycle = .closed ∨ s.changes.isEmpty then s
  else
    { s with
      debounceAt := none
      maxwaitAt := none
      changes := freshChangeSet s.options
      reconcileRequested := false
      inFlight := s.inFlight ++ [((s.changes.snapshot order).1, if s.reconcileRequested then .reconcile else .watch)] }

def handleStatted (s : LoopState) (path : Text) (hint : FileEventKind) (existsDir : Option Bool) (rebuilt : Filters)
    (now : ℕ) : LoopState :=
  let isDir := existsDir.getD false
  if !s.filters path isDir then s
  else
    match s.changes.add order path (changeKind existsDir hint) isDir with
    | .error _ => s
    | .ok changes =>
      let s := { s with changes := changes }
      let s := if fileNameLexical path = gitignore then s.refreshTree rebuilt else s
      s.scheduleFlush now

def due (deadline : Option ℕ) (now : ℕ) : Bool := deadline.any (· ≤ now)

def turn (s : LoopState) : LoopStep → LoopState
  | .start now => s.start now
  | .backendFile _ _ => s
  | .backendError key now => s.handleWatchError key now
  | .watchRegistered _ => s
  | .statted path hint existsDir rebuilt now => s.handleStatted order path hint existsDir rebuilt now
  | .refreshTree rebuilt => s.refreshTree rebuilt
  | .flushNow => s.startFlush order
  | .resumeCheck at' now => (s.resumeCheck at').scheduleIfDirty now
  | .retryWatch key => s.retryWatch key
  | .watchStable key => s.watchStable key
  | .flushDone => if s.flushDones = 0 then s else setPending { s with flushDones := s.flushDones - 1 } false
  | .close => emitPending { s with lifecycle := .closed, debounceAt := none, maxwaitAt := none } false
  | .debounceTimer now => if due s.debounceAt now then startFlush order { s with debounceAt := none } else s
  | .maxwaitTimer now =>
    if due s.maxwaitAt now then startFlush order { s with maxwaitAt := none, debounceAt := none } else s
  | .reconcileTimer now =>
    if due s.reconcileAt now then
      queueFullReconcile { s with
        reconcileAt := if 0 < s.options.reconcileIntervalMs then some (now + s.options.reconcileIntervalMs) else none } now
    else s
  | .resumeTimer now =>
    if due s.resumeAt now then
      (resumeCheck { s with
        resumeAt := if 0 < s.options.resumeCheckIntervalMs then some (now + s.options.resumeCheckIntervalMs) else none }
          now).scheduleIfDirty now
    else s
  | .sinkDone i =>
    if i < s.inFlight.length then { s with inFlight := s.inFlight.eraseIdx i, flushDones := s.flushDones + 1 } else s

def step (s : LoopState) (op : LoopStep) : LoopState := if s.lifecycle = .closed then s else s.turn order op

def Honest (s : LoopState) : Prop :=
  s.lifecycle = .closed ∨ (s.reports.getLast? = some false → s.changes.isEmpty = true ∧ s.inFlight = [])

/-- A `FlushDone` that lowers the flag is handled when no change waits and no other batch is in flight. -/
def Safe (s : LoopState) : LoopStep → Prop
  | .flushDone => s.lifecycle ≠ .closed → s.options.notifies = true → s.flushDones ≠ 0 → s.pendingFlag = true →
      s.changes.isEmpty = true ∧ s.inFlight = []
  | _ => True

structure Reported (s : LoopState) : Prop where
  silent : s.options.notifies = false → s.reports = []
  last : s.options.notifies = true → s.reports.getLast? = some s.pendingFlag ∨ s.reports = [] ∧ s.pendingFlag = false

variable {order} {s s' : LoopState}

theorem Reported.not_false (h : Reported s) (hflag : s.pendingFlag = true) : s.reports.getLast? ≠ some false := by
  cases hnotifies : s.options.notifies with
  | false =>
    rw [h.silent hnotifies]
    nofun
  | true =>
    rcases h.last hnotifies with hlast | ⟨-, hno⟩
    · rw [hlast, hflag]
      nofun
    · rw [hflag] at hno
      cases hno

theorem Reported.honest (h : Reported s) (hflag : s.pendingFlag = true) : Honest s :=
  .inr fun hlast => absurd hlast (h.not_false hflag)

theorem Reported.setPending (h : Reported s) (value : Bool) : Reported (s.setPending value) := by
  unfold LoopState.setPending emitPending
  split_ifs with hsame hnotifies
  · exact h
  · exact ⟨fun hno => absurd (hnotifies.symm.trans hno) (by decide), fun _ => .inl List.getLast?_concat⟩
  · exact ⟨h.silent, fun hyes => absurd hyes hnotifies⟩

theorem pendingFlag_setPending (s : LoopState) (value : Bool) : (s.setPending value).pendingFlag = value := by
  unfold LoopState.setPending emitPending
  split_ifs with hsame
  · exact hsame
  · rfl
  · rfl

structure SameReports (s s' : LoopState) : Prop where
  options : s'.options = s.options
  flag : s'.pendingFlag = s.pendingFlag
  reports : s'.reports = s.reports

theorem Reported.of_same (h : Reported s) (hsame : SameReports s s') : Reported s' := by
  constructor
  · rw [hsame.options, hsame.reports]
    exact h.silent
  · rw [hsame.options, hsame.reports, hsame.flag]
    exact h.last

inductive Quiet (s s' : LoopState) : Prop where
  | same (hsame : SameReports s s') (hwork : s.changes.isEmpty = true → s.inFlight = [] →
      s'.changes.isEmpty = true ∧ s'.inFlight = [])
  | raised (hreported : Reported s → Reported s') (hflag : s'.pendingFlag = true)

theorem Quiet.reported (hquiet : Quiet s s') (h : Reported s) : Reported s' := by
  rcases hquiet with ⟨hsame, -⟩ | ⟨hreported, -⟩
  · exact h.of_same hsame
  · exact hreported h

theorem Quiet.honest (hquiet : Quiet s s') (h : Reported s) (hopen : s.lifecycle ≠ .closed) (hhonest : Honest s) :
    Honest s' := by
  rcases hquiet with ⟨hsame, hwork⟩ | ⟨hreported, hflag⟩
  · refine .inr fun hlast => ?_
    rw [hsame.reports] at hlast
    obtain ⟨hchanges, hinFlight⟩ := hhonest.resolve_left hopen hlast
    exact hwork hchanges hinFlight
  · exact (hreported h).honest hflag

theorem Quiet.refl (s : LoopState) : Quiet s s := .same ⟨rfl, rfl, rfl⟩ fun hchanges hinFlight => ⟨hchanges, hinFlight⟩

theorem quiet_scheduleFlush (hsame : SameReports s s') (hopen : s'.lifecycle ≠ .closed) (now : ℕ) :
    Quiet s (s'.scheduleFlush now) := by
  unfold scheduleFlush
  rw [if_neg hopen]
  refine .raised (fun h => ?_) (pendingFlag_setPending s' true)
  exact ((h.of_same hsame).setPending true).of_same ⟨rfl, rfl, rfl⟩

theorem quiet_startFlush (hsame : SameReports s s') (hchanges : s'.changes = s.changes)
    (hinFlight : s'.inFlight = s.inFlight) : Quiet s (s'.startFlush order) := by
  unfold startFlush
  by_cases hnone : s'.lifecycle = .closed ∨ s'.changes.isEmpty = true
  · rw [if_pos hnone]
    refine .same hsame fun hempty hno => ?_
    rw [hchanges, hinFlight]
    exact ⟨hempty, hno⟩
  · rw [if_neg hnone]
    refine .same ⟨hsame.options, hsame.flag, hsame.reports⟩ fun hempty _ => ?_
    rw [← hchanges] at hempty
    exact absurd (.inr hempty) hnone

theorem quiet_scheduleIfDirty (hsame : SameReports s s') (hopen : s'.lifecycle ≠ .closed)
    (hinFlight : s'.inFlight = s.inFlight) (now : ℕ) : Quiet s (s'.scheduleIfDirty now) := by
  unfold scheduleIfDirty
  split_ifs with hempty
  · refine .same hsame fun _ hno => ?_
    rw [hinFlight]
    exact ⟨hempty, hno⟩
  · exact quiet_scheduleFlush hsame hopen now

theorem resumeCheck_frame (s : LoopState) (now : ℕ) : SameReports s (s.resumeCheck now) ∧
    (s.resumeCheck now).lifecycle = s.lifecycle ∧ (s.resumeCheck now).inFlight = s.inFlight := by
  unfold resumeCheck
  dsimp only
  split_ifs
  · exact ⟨⟨rfl, rfl, rfl⟩, rfl, rfl⟩
  · exact ⟨⟨rfl, rfl, rfl⟩, rfl, rfl⟩

theorem quiet_handleStatted (hopen : s.lifecycle ≠ .closed) (path : Text) (hint : FileEventKind)
    (existsDir : Option Bool) (rebuilt : Filters) (now : ℕ) :
    Quiet s (s.handleStatted order path hint existsDir rebuilt now) := by
  have hrefresh : ∀ t : LoopState, SameReports t (t.refreshTree rebuilt) ∧
      (t.refreshTree rebuilt).lifecycle = t.lifecycle := by
    intro t
    unfold refreshTree
    split_ifs
    · exact ⟨⟨rfl, rfl, rfl⟩, rfl⟩
    · exact ⟨⟨rfl, rfl, rfl⟩, rfl⟩
  unfold handleStatted
  dsimp only
  by_cases htracked : (!s.filters path (existsDir.getD false)) = true
  · rw [if_pos htracked]
    exact .refl s
  · rw [if_neg htracked]
    cases s.changes.add order path (changeKind existsDir hint) (existsDir.getD false) with
    | error e => exact .refl s
    | ok changes =>
      dsimp only
      split_ifs
      · obtain ⟨hsame, hlife⟩ := hrefresh { s with changes := changes }
        refine quiet_scheduleFlush ?_ ?_ now
        · exact ⟨hsame.options, hsame.flag, hsame.reports⟩
        · exact fun hclosed => hopen (hlife.symm.trans hclosed)
      · refine quiet_scheduleFlush ?_ ?_ now
        · exact ⟨rfl, rfl, rfl⟩
        · exact hopen

theorem Quiet.with_recovery (h : Quiet s s') (recovery : HashMap Text RecoveryState) :
    Quiet s { s' with recovery := recovery } := by
  rcases h with ⟨hsame, hwork⟩ | ⟨hreported, hflag⟩
  · exact .same ⟨hsame.options, hsame.flag, hsame.reports⟩ hwork
  · exact .raised (fun h => (hreported h).of_same ⟨rfl, rfl, rfl⟩) hflag

theorem quiet_queueFullReconcile (hsame : SameReports s s') (hopen : s'.lifecycle ≠ .closed) (now : ℕ) :
    Quiet s (s'.queueFullReconcile now) := by
  refine quiet_scheduleFlush ?_ ?_ now
  · exact ⟨hsame.options, hsame.flag, hsame.reports⟩
  · exact hopen

theorem quiet_handleWatchError (hopen : s.lifecycle ≠ .closed) (key : Text) (now : ℕ) :
    Quiet s (s.handleWatchError key now) := by
  unfold handleWatchError
  dsimp only
  refine Quiet.with_recovery ?_ _
  split_ifs
  · exact (Quiet.refl s).with_recovery _
  · refine quiet_queueFullReconcile ?_ ?_ now
    · exact ⟨rfl, rfl, rfl⟩
    · exact hopen

theorem quiet_start (s : LoopState) (now : ℕ) : Quiet s (s.start now) := by
  unfold start
  by_cases hnew : s.lifecycle ≠ .new
  · rw [if_pos hnew]
    exact .refl s
  · rw [if_neg hnew]
    exact .same ⟨rfl, rfl, rfl⟩ fun hchanges hinFlight => ⟨hchanges, hinFlight⟩

theorem quiet_refreshTree (s : LoopState) (rebuilt : Filters) : Quiet s (s.refreshTree rebuilt) := by
  unfold refreshTree
  split_ifs
  · exact .same ⟨rfl, rfl, rfl⟩ fun hchanges hinFlight => ⟨hchanges, hinFlight⟩
  · exact .refl s

theorem quiet_retryWatch (s : LoopState) (key : Text) : Quiet s (s.retryWatch key) := by
  unfold retryWatch
  cases s.recovery.lookup key with
  | none => exact .refl s
  | some recovery => exact (Quiet.refl s).with_recovery _

theorem quiet_watchStable (s : LoopState) (key : Text) : Quiet s (s.watchStable key) := by
  unfold watchStable
  cases s.recovery.lookup key with
  | none => exact .refl s
  | some recovery =>
    dsimp only
    split_ifs
    · exact (Quiet.refl s).with_recovery _
    · exact (Quiet.refl s).with_recovery _

theorem Quiet.of_due {t : LoopState} (h : Quiet s t) (due : Bool) : Quiet s (if due then t else s) := by
  split_ifs
  · exact h
  · exact .refl s

theorem quiet_turn (hopen : s.lifecycle ≠ .closed) {op : LoopStep} (hdone : op ≠ .flushDone) (hclose : op ≠ .close) :
    Quiet s (s.turn order op) := by
  cases op with
  | start now => exact quiet_start s now
  | backendFile path kind => exact .refl s
  | backendError key now => exact quiet_handleWatchError hopen key now
  | watchRegistered key => exact .refl s
  | statted path hint existsDir rebuilt now => exact quiet_handleStatted hopen path hint existsDir rebuilt now
  | refreshTree rebuilt => exact quiet_refreshTree s rebuilt
  | flushNow => exact quiet_startFlush ⟨rfl, rfl, rfl⟩ rfl rfl
  | resumeCheck at' now =>
    obtain ⟨hsame, hlife, hinFlight⟩ := resumeCheck_frame s at'
    exact quiet_scheduleIfDirty hsame (hlife ▸ hopen) hinFlight now
  | retryWatch key => exact quiet_retryWatch s key
  | watchStable key => exact quiet_watchStable s key
  | flushDone => exact absurd rfl hdone
  | close => exact absurd rfl hclose
  | debounceTimer now =>
    refine Quiet.of_due ?_ (due s.debounceAt now)
    refine quiet_startFlush ?_ ?_ ?_
    · exact ⟨rfl, rfl, rfl⟩
    · rfl
    · rfl
  | maxwaitTimer now =>
    refine Quiet.of_due ?_ (due s.maxwaitAt now)
    refine quiet_startFlush ?_ ?_ ?_
    · exact ⟨rfl, rfl, rfl⟩
    · rfl
    · rfl
  | reconcileTimer now =>
    refine Quiet.of_due ?_ (due s.reconcileAt now)
    refine quiet_queueFullReconcile ?_ ?_ now
    · exact ⟨rfl, rfl, rfl⟩
    · exact hopen
  | resumeTimer now =>
    refine Quiet.of_due ?_ (due s.resumeAt now)
    obtain ⟨hsame, hlife, hinFlight⟩ := resumeCheck_frame { s with
      resumeAt := if 0 < s.options.resumeCheckIntervalMs then some (now + s.options.resumeCheckIntervalMs) else none } now
    refine quiet_scheduleIfDirty ?_ ?_ ?_ now
    · exact ⟨hsame.options, hsame.flag, hsame.reports⟩
    · exact fun hclosed => hopen (hlife.symm.trans hclosed)
    · exact hinFlight
  | sinkDone i =>
    by_cases hi : i < s.inFlight.length
    · rw [show s.turn order (.sinkDone i) =
        { s with inFlight := s.inFlight.eraseIdx i, flushDones := s.flushDones + 1 } from if_pos hi]
      refine .same ⟨rfl, rfl, rfl⟩ fun _ hno => ?_
      rw [hno] at hi
      exact absurd hi (Nat.not_lt_zero i)
    · rw [show s.turn order (.sinkDone i) = s from if_neg hi]
      exact .refl s

def Inv (s : LoopState) : Prop := s.lifecycle = .closed ∨ Reported s

theorem turn_flushDone (s : LoopState) (h : s.flushDones ≠ 0) :
    s.turn order .flushDone = setPending { s with flushDones := s.flushDones - 1 } false := if_neg h

theorem lifecycle_emitPending (s : LoopState) (value : Bool) : (s.emitPending value).lifecycle = s.lifecycle := by
  unfold emitPending
  split_ifs
  · rfl
  · rfl

theorem closed_turn_close (s : LoopState) : (s.turn order .close).lifecycle = .closed := lifecycle_emitPending _ false

theorem Inv.step {op : LoopStep} (h : Inv s) : Inv (s.step order op) := by
  unfold LoopState.step
  split_ifs with hclosed
  · exact .inl hclosed
  · have hreported := h.resolve_left hclosed
    by_cases hclose : op = .close
    · subst hclose
      exact .inl (closed_turn_close s)
    · by_cases hdone : op = .flushDone
      · subst hdone
        by_cases hnone : s.flushDones = 0
        · rw [show s.turn order .flushDone = s from if_pos hnone]
          exact h
        · rw [turn_flushDone s hnone]
          refine .inr (Reported.setPending ?_ false)
          exact hreported.of_same ⟨rfl, rfl, rfl⟩
      · exact .inr ((quiet_turn hclosed hdone hclose).reported hreported)

theorem honest_flushDone_iff (hopen : s.lifecycle ≠ .closed) (h : Reported s) (hhonest : Honest s) :
    Honest (s.turn order .flushDone) ↔ s.Safe .flushDone := by
  by_cases hnone : s.flushDones = 0
  · rw [show s.turn order .flushDone = s from if_pos hnone]
    exact iff_of_true hhonest fun _ _ hsome => absurd hnone hsome
  · rw [turn_flushDone s hnone]
    unfold setPending
    by_cases hflag : s.pendingFlag = false
    · rw [if_pos hflag]
      refine iff_of_true (.inr fun hlast => hhonest.resolve_left hopen hlast) fun _ _ _ hup => ?_
      rw [hflag] at hup
      cases hup
    · rw [if_neg hflag]
      have hup : s.pendingFlag = true := by simpa using hflag
      unfold emitPending
      by_cases hnotifies : s.options.notifies = true
      · rw [if_pos hnotifies]
        constructor
        · intro hafter _ _ _ _
          exact hafter.resolve_left hopen List.getLast?_concat
        · intro hsafe
          exact .inr fun _ => hsafe hopen hnotifies hnone hup
      · rw [if_neg hnotifies]
        refine iff_of_true (.inr fun hlast => ?_) fun _ hyes => absurd hyes hnotifies
        have hsilent : s.reports = [] := h.silent (Bool.eq_false_iff.mpr hnotifies)
        have hlast : s.reports.getLast? = some false := hlast
        rw [hsilent] at hlast
        cases hlast

theorem pending_honest_iff (order : HashOrder Text) (options : WatchOptions) (filters : Filters) (now : ℕ)
    (ops : List LoopStep) :
    Along (step order) Honest (initial options filters now) ops ↔
      Respects (step order) Safe (initial options filters now) ops := by
  have hall : Respects (step order) (fun _ _ => True) (initial options filters now) ops := respects_true _ _
  have hstart : Inv (initial options filters now) := .inr ⟨fun _ => rfl, fun _ => .inr ⟨rfl, rfl⟩⟩
  refine along_iff_respects (fun s op h _ => Inv.step h) (fun s op h hhonest _ => ?_) hstart (.inr nofun) hall
  unfold LoopState.step
  by_cases hclosed : s.lifecycle = .closed
  · rw [if_pos hclosed]
    refine iff_of_true hhonest ?_
    cases op with
    | flushDone => exact fun hopen => absurd hclosed hopen
    | _ => trivial
  · rw [if_neg hclosed]
    have hreported := h.resolve_left hclosed
    by_cases hdone : op = .flushDone
    · subst hdone
      exact honest_flushDone_iff hclosed hreported hhonest
    · have hsafe : s.Safe op := by
        cases op with
        | flushDone => exact absurd rfl hdone
        | _ => trivial
      refine iff_of_true ?_ hsafe
      by_cases hclose : op = .close
      · subst hclose
        exact .inl (closed_turn_close s)
      · exact (quiet_turn hclosed hdone hclose).honest hreported hclosed hhonest

theorem isEmpty_of_forced {c : ChangeSet} (h : c.forceFullReconcile = true) : c.isEmpty = false := by
  unfold ChangeSet.isEmpty
  rw [h]
  exact Bool.and_false _

def quickOptions : WatchOptions := ⟨['/', 'r'], true, 500, 5000, 0, 0, 60000, 1000, true⟩

theorem flushDone_hides_change : Nonempty (HashOrder Text) ∧ ∀ order : HashOrder Text,
    ¬ Along (step order) Honest (initial quickOptions (fun _ _ => true) 0)
      [.backendError ['k'] 0, .flushNow, .backendError ['j'] 0, .sinkDone 0, .flushDone] := by
  refine ⟨⟨⟨Finset.toList, Finset.nodup_toList, fun _ _ => Finset.mem_toList⟩⟩, fun order => ?_⟩
  rintro ⟨-, -, -, -, -, hclosed | hhonest⟩
  · have hnew : Lifecycle.new = .closed := hclosed
    cases hnew
  · obtain ⟨hchanges, -⟩ := hhonest rfl
    exact absurd hchanges (Bool.eq_false_iff.mp (isEmpty_of_forced rfl))

end LoopState

end Fluent.Guidance
