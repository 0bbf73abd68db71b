import Mathlib.Logic.Function.Basic
import Fluent.Library.Runs
import Fluent.Spacy.Hash

namespace Fluent.Router.Ledger

open Fluent.Library
open Fluent.Spacy (Text)

inductive OverlayKind
  | spacy
  | llm
  | embedding
deriving DecidableEq

inductive OverlayStatus
  | absent
  | pending
  | ready
  | failed
deriving DecidableEq

structure OverlayState where
  kind : OverlayKind
  status : OverlayStatus
  source : Text
  time : Option ℕ
deriving DecidableEq

def OverlayState.absent (kind : OverlayKind) : OverlayState := ⟨kind, .absent, [], none⟩

inductive OverlayTransitionError
  | alreadyReady (kind : OverlayKind)
  | failedPermanent (kind : OverlayKind)
deriving DecidableEq

/-- A node as the overlays of one kind see it: the full text, the entries under `metadata["overlays"]` and the slot of
the value. -/
structure OverlayNode (T : Type) where
  text : Text
  overlays : List OverlayState
  value : Option T
deriving DecidableEq

namespace OverlayNode

variable {T : Type}

def overlay (n : OverlayNode T) (kind : OverlayKind) : OverlayState :=
  (n.overlays.find? (·.kind = kind)).getD (.absent kind)

def upsert (state : OverlayState) : List OverlayState → List OverlayState
  | [] => [state]
  | s :: states => if s.kind = state.kind then state :: states else s :: upsert state states

def setOverlay (n : OverlayNode T) (state : OverlayState) : OverlayNode T :=
  { n with overlays := upsert state n.overlays }

def transitionOverlay (n : OverlayNode T) (kind : OverlayKind) (target : OverlayStatus) (source : Text)
    (time : Option ℕ) : Except OverlayTransitionError (OverlayNode T × OverlayState) :=
  let current := n.overlay kind
  if current.status = .ready ∧ target ≠ .ready ∧ target ≠ .absent then .error (.alreadyReady kind)
  else if current.status = .failed ∧ target ≠ .failed ∧ target ≠ .absent then .error (.failedPermanent kind)
  else
    let next : OverlayState := ⟨kind, target, source, time⟩
    .ok (n.setOverlay next, next)

def attempt (n : OverlayNode T) (kind : OverlayKind) (target : OverlayStatus) (source : Text) (time : Option ℕ) :
    OverlayNode T :=
  match n.transitionOverlay kind target source time with
  | .ok (n', _) => n'
  | .error _ => n

def install (n : OverlayNode T) (v : T) : OverlayNode T := { n with value := some v }

end OverlayNode

structure OverlayCall (T : Type) where
  source : Text
  derive : Text → Except Text T
  nowSecs : ℕ
  persists : Bool

inductive OverlayStage (T : Type)
  | start
  | snapshot
  | mark (text : Text)
  | derive (text : Text)
  | fail
  | install (v : T)
  | done (result : Except Unit (Option T))
deriving DecidableEq

structure OverlayRun (n : ℕ) (T : Type) where
  node : OverlayNode T
  stage : Fin n → OverlayStage T
  installs : List T

namespace OverlayRun

variable {n : ℕ} {T : Type}

def initial (node : OverlayNode T) : OverlayRun n T := ⟨node, fun _ => .start, []⟩

def goto (s : OverlayRun n T) (i : Fin n) (stage : OverlayStage T) : OverlayRun n T :=
  { s with stage := Function.update s.stage i stage }

def step (kind : OverlayKind) (calls : Fin n → OverlayCall T) (s : OverlayRun n T) (i : Fin n) : OverlayRun n T :=
  match s.stage i with
  | .start =>
    match s.node.value with
    | some v => s.goto i (.done (.ok (some v)))
    | none =>
      if (s.node.overlay kind).status = .failed then s.goto i (.done (.ok none))
      else s.goto i .snapshot
  | .snapshot => s.goto i (.mark s.node.text)
  | .mark text =>
    { s with node := s.node.attempt kind .pending (calls i).source none }.goto i (.derive text)
  | .derive text =>
    match (calls i).derive text with
    | .ok v => s.goto i (.install v)
    | .error _ => s.goto i .fail
  | .fail =>
    { s with node := s.node.attempt kind .failed (calls i).source (some (calls i).nowSecs) }.goto i (.done (.ok none))
  | .install v =>
    let finished (w : T) : OverlayStage T := .done (if (calls i).persists then .ok (some w) else .error ())
    match s.node.value with
    | some w => s.goto i (finished w)
    | none =>
      { s with
        node := (s.node.install v).attempt kind .ready (calls i).source (some (calls i).nowSecs)
        installs := s.installs ++ [v] }.goto i (finished v)
  | .done _ => s

def run (kind : OverlayKind) (calls : Fin n → OverlayCall T) (s : OverlayRun n T) (schedule : List (Fin n)) :
    OverlayRun n T :=
  schedule.foldl (step kind calls) s

def Installs (s : OverlayRun n T) (i : Fin n) : Prop := s.node.value = none ∧ ∃ v, s.stage i = .install v

def Agrees (kind : OverlayKind) (s : OverlayRun n T) : Prop :=
  (s.node.overlay kind).status = .ready ↔ s.node.value.isSome

structure OneValue (s : OverlayRun n T) : Prop where
  once : s.installs.length ≤ 1
  installed : ∀ v ∈ s.installs, s.node.value = some v
  returned : ∀ i v, s.stage i = .done (.ok (some v)) → s.node.value = some v

end OverlayRun

namespace OverlayNode

variable {T : Type} (n : OverlayNode T) (kind : OverlayKind) (target : OverlayStatus) (source : Text) (time : Option ℕ)

@[simp] theorem overlay_install (v : T) : (n.install v).overlay kind = n.overlay kind := rfl

@[simp] theorem install_value (v : T) : (n.install v).value = some v := rfl

theorem find_upsert (state : OverlayState) (states : List OverlayState) :
    (upsert state states).find? (·.kind = state.kind) = some state := by
  induction states with
  | nil => simp [upsert]
  | cons s states ih =>
    by_cases hs : s.kind = state.kind
    · simp [upsert, hs]
    · simp [upsert, hs, ih]

@[simp] theorem attempt_value : (n.attempt kind target source time).value = n.value := by
  unfold attempt transitionOverlay
  dsimp only
  split_ifs <;> rfl

theorem status_attempt (hto : target ≠ .absent) : ((n.attempt kind target source time).overlay kind).status =
    if (n.overlay kind).status = .ready ∨ (n.overlay kind).status = .failed then (n.overlay kind).status else target := by
  have hset : ((n.setOverlay ⟨kind, target, source, time⟩).overlay kind).status = target := by
    simp only [overlay, setOverlay]
    rw [find_upsert ⟨kind, target, source, time⟩]
    rfl
  unfold attempt transitionOverlay
  dsimp only
  cases hs : (n.overlay kind).status <;> cases target <;> simp_all

end OverlayNode

namespace OverlayRun

variable {n : ℕ} {T : Type} {kind : OverlayKind} {calls : Fin n → OverlayCall T}

theorem step_node (kind : OverlayKind) (calls : Fin n → OverlayCall T) (s : OverlayRun n T) (i : Fin n) :
    (¬ s.Installs i ∧ (step kind calls s i).installs = s.installs ∧ ((step kind calls s i).node = s.node ∨
      ∃ target source time, (target = .pending ∨ target = .failed) ∧
        (step kind calls s i).node = s.node.attempt kind target source time)) ∨
    ∃ v source time, s.Installs i ∧ (step kind calls s i).installs = s.installs ++ [v] ∧
      (step kind calls s i).node = (s.node.install v).attempt kind .ready source time := by
  unfold step Installs
  cases hstage : s.stage i with
  | start =>
    left
    cases hv : s.node.value with
    | some v => simp [goto]
    | none =>
      dsimp only
      split_ifs <;> simp [goto]
  | snapshot => simp [goto]
  | mark text =>
    left
    exact ⟨by simp, rfl, .inr ⟨_, _, _, .inl rfl, rfl⟩⟩
  | derive text =>
    left
    cases hd : (calls i).derive text <;> simp [goto, hd]
  | fail =>
    left
    exact ⟨by simp, rfl, .inr ⟨_, _, _, .inr rfl, rfl⟩⟩
  | install v =>
    cases hv : s.node.value with
    | some w => simp [goto]
    | none =>
      right
      exact ⟨v, _, _, ⟨rfl, v, rfl⟩, rfl, rfl⟩
  | done r => simp

theorem value_step {s : OverlayRun n T} {v : T} (hv : s.node.value = some v) (i : Fin n) :
    (step kind calls s i).node.value = some v ∧ (step kind calls s i).installs = s.installs := by
  obtain ⟨-, hinst, hnode | ⟨target, source, time, -, hnode⟩⟩ | ⟨w, source, time, ⟨hnone, -⟩, -⟩ :=
    step_node kind calls s i
  · exact ⟨hnode ▸ hv, hinst⟩
  · rw [hnode, OverlayNode.attempt_value]
    exact ⟨hv, hinst⟩
  · rw [hv] at hnone
    cases hnone

theorem returned_step {s : OverlayRun n T} {i j : Fin n} {v : T}
    (h : (step kind calls s i).stage j = .done (.ok (some v))) :
    s.stage j = .done (.ok (some v)) ∨ (step kind calls s i).node.value = some v := by
  by_cases hj : j = i
  · subst hj
    revert h
    unfold step
    cases hstage : s.stage j with
    | start =>
      cases hv : s.node.value with
      | some w => simp [goto, hv]
      | none =>
        dsimp only
        split_ifs <;> simp [goto]
    | snapshot => simp [goto]
    | mark text => simp [goto]
    | derive text => cases hd : (calls j).derive text <;> simp [goto, hd]
    | fail => simp [goto]
    | install w => cases hv : s.node.value <;> cases (calls j).persists <;> simp [goto, hv, OverlayNode.install]
    | done r =>
      rw [hstage]
      exact .inl
  · left
    rw [← h]
    unfold step
    cases s.stage i with
    | start =>
      cases s.node.value with
      | some w => simp [goto, hj]
      | none =>
        dsimp only
        split_ifs <;> simp [goto, hj]
    | derive text => cases hd : (calls i).derive text <;> simp [goto, hj, hd]
    | install w => cases s.node.value <;> simp [goto, hj]
    | _ => simp [goto, hj]

theorem oneValue_step {s : OverlayRun n T} (h : s.OneValue) (i : Fin n) : (step kind calls s i).OneValue := by
  have hreturned : ∀ j v, (step kind calls s i).stage j = .done (.ok (some v)) →
      (step kind calls s i).node.value = some v := by
    intro j v hj
    rcases returned_step hj with hold | hnew
    · exact (value_step (h.returned j v hold) i).1
    · exact hnew
  obtain ⟨-, hinst, -⟩ | ⟨w, source, time, ⟨hnone, -⟩, hinst, hnode⟩ := step_node kind calls s i
  · refine ⟨hinst ▸ h.once, fun v hv => ?_, hreturned⟩
    rw [hinst] at hv
    exact (value_step (h.installed v hv) i).1
  · have hempty : s.installs = [] := by
      refine List.eq_nil_iff_forall_not_mem.mpr fun v hv => ?_
      have hsome := h.installed v hv
      rw [hnone] at hsome
      cases hsome
    rw [hempty] at hinst
    refine ⟨hinst ▸ Nat.le_refl 1, fun v hv => ?_, hreturned⟩
    rw [hinst] at hv
    rw [List.mem_singleton.mp hv, hnode, OverlayNode.attempt_value, OverlayNode.install_value]

def Safe (kind : OverlayKind) (s : OverlayRun n T) (i : Fin n) : Prop :=
  s.Installs i → (s.node.overlay kind).status ≠ .failed

theorem agrees_step (calls : Fin n → OverlayCall T) {s : OverlayRun n T} (h : s.Agrees kind) (i : Fin n) :
    (step kind calls s i).Agrees kind ↔ s.Safe kind i := by
  obtain ⟨hquiet, -, hnode | ⟨target, source, time, hto, hnode⟩⟩ | ⟨v, source, time, hinstalls, -, hnode⟩ :=
    step_node kind calls s i
  · refine iff_of_true ?_ fun hi => absurd hi hquiet
    unfold Agrees
    rw [hnode]
    exact h
  · refine iff_of_true ?_ fun hi => absurd hi hquiet
    have hne : target ≠ .absent ∧ target ≠ .ready := by rcases hto with rfl | rfl <;> decide
    unfold Agrees at h ⊢
    rw [hnode, OverlayNode.attempt_value, OverlayNode.status_attempt _ _ _ _ _ hne.1, ← h]
    split_ifs with hterm
    · exact Iff.rfl
    · exact iff_of_false hne.2 fun hready => hterm (.inl hready)
  · have hstatus : (s.node.overlay kind).status ≠ .ready := by
      intro hready
      have hsome := h.mp hready
      rw [hinstalls.1] at hsome
      cases hsome
    unfold Agrees Safe
    rw [hnode, OverlayNode.attempt_value, OverlayNode.status_attempt _ _ _ _ _ (by decide),
      OverlayNode.overlay_install, OverlayNode.install_value, forall_prop_of_true hinstalls]
    by_cases hfailed : (s.node.overlay kind).status = .failed
    · simp [hfailed]
    · simp [hfailed, hstatus]

theorem not_agrees_step (calls : Fin n → OverlayCall T) {s : OverlayRun n T} (h : ¬ s.Agrees kind) (i : Fin n) :
    s.Safe kind i ∧ ((step kind calls s i).Agrees kind ↔ s.Installs i) := by
  obtain ⟨hquiet, -, hnode | ⟨target, source, time, hto, hnode⟩⟩ | ⟨v, source, time, hinstalls, -, hnode⟩ :=
    step_node kind calls s i
  · refine ⟨fun hi => absurd hi hquiet, iff_of_false ?_ hquiet⟩
    unfold Agrees
    rw [hnode]
    exact h
  · refine ⟨fun hi => absurd hi hquiet, iff_of_false ?_ hquiet⟩
    have hne : target ≠ .absent ∧ target ≠ .ready := by rcases hto with rfl | rfl <;> decide
    unfold Agrees at h ⊢
    rw [hnode, OverlayNode.attempt_value, OverlayNode.status_attempt _ _ _ _ _ hne.1]
    split_ifs with hterm
    · exact h
    · have hready : (s.node.overlay kind).status ≠ .ready := fun hr => hterm (.inl hr)
      have hsome : s.node.value ≠ none := by simpa [hready] using h
      simp [hsome, hne.2]
  · have hready : (s.node.overlay kind).status = .ready := by simpa [Agrees, hinstalls.1] using h
    refine ⟨fun _ hf => ?_, iff_of_true ?_ hinstalls⟩
    · rw [hready] at hf
      cases hf
    · unfold Agrees
      rw [hnode, OverlayNode.attempt_value, OverlayNode.status_attempt _ _ _ _ _ (by decide),
        OverlayNode.overlay_install, OverlayNode.install_value, if_pos (.inl hready)]
      exact iff_of_true hready rfl

theorem no_installs_of_value {s : OverlayRun n T} {v : T} (hv : s.node.value = some v) (schedule : List (Fin n)) :
    Respects (step kind calls) (fun s i => ¬ s.Installs i) s schedule := by
  have halong : Along (step kind calls) (fun s => s.node.value = some v) s schedule :=
    along_of_step (fun s i hs _ => (value_step hs i).1) hv (respects_true s schedule)
  refine respects_of_along (fun s i hs hi => ?_) halong
  rw [hi.1] at hs
  cases hs

theorem agrees_run_iff (s : OverlayRun n T) (schedule : List (Fin n)) :
    (run kind calls s schedule).Agrees kind ↔
      Respects (step kind calls) (Safe kind) s schedule ∧
        (s.Agrees kind ∨ ¬ Respects (step kind calls) (fun s i => ¬ s.Installs i) s schedule) := by
  induction schedule generalizing s with
  | nil => simp [run, Respects]
  | cons i schedule ih =>
    change (run kind calls (step kind calls s i) schedule).Agrees kind ↔ _
    rw [ih]
    by_cases h : s.Agrees kind
    · have hiff := agrees_step calls h i
      by_cases hsafe : s.Safe kind i
      · simp [Respects, h, hsafe, hiff]
      · have hfin : ¬ (step kind calls s i).Agrees kind := fun ha => hsafe (hiff.mp ha)
        simp only [Respects, hsafe, false_and, iff_false]
        rintro ⟨-, ha | hagain⟩
        · exact hfin ha
        · refine hagain ?_
          obtain ⟨v, hv⟩ : ∃ v, (step kind calls s i).node.value = some v := by
            obtain ⟨hquiet, -⟩ | ⟨v, source, time, -, -, hnode⟩ := step_node kind calls s i
            · exact absurd (fun hi => absurd hi hquiet) hsafe
            · exact ⟨v, by rw [hnode, OverlayNode.attempt_value, OverlayNode.install_value]⟩
          exact no_installs_of_value hv schedule
    · obtain ⟨hsafe, hiff⟩ := not_agrees_step calls h i
      by_cases hi : s.Installs i
      · simp [Respects, h, hsafe, hiff, hi]
      · simp [Respects, h, hsafe, hiff, hi]

theorem overlay_agrees_iff (kind : OverlayKind) (calls : Fin n → OverlayCall T) (node : OverlayNode T)
    (schedule : List (Fin n)) :
    (run kind calls (initial node) schedule).OneValue ∧
      ((run kind calls (initial node) schedule).Agrees kind ↔
        Respects (step kind calls) (Safe kind) (initial node) schedule ∧
          ((initial node : OverlayRun n T).Agrees kind ∨
            ¬ Respects (step kind calls) (fun s i => ¬ s.Installs i) (initial node) schedule)) := by
  have hinitial : (initial node : OverlayRun n T).OneValue :=
    ⟨Nat.zero_le 1, (fun _ hv => nomatch hv), fun _ _ h => nomatch h⟩
  exact ⟨foldl_of_step (I := OneValue) (fun s i hs _ => oneValue_step hs i) hinitial (respects_true _ schedule),
    agrees_run_iff _ schedule⟩

def oneFails (i : Fin 2) : OverlayCall Bool :=
  ⟨[], fun _ => if i = 0 then .error [] else .ok true, 7, true⟩

theorem failed_beside_value :
    (run .llm oneFails (initial ⟨[], [], none⟩) [0, 0, 0, 0, 1, 1, 1, 1, 0, 1]).node =
        ⟨[], [⟨.llm, .failed, [], some 7⟩], some true⟩ ∧
      (run .llm oneFails (initial ⟨[], [], none⟩) [0, 0, 0, 0, 1, 1, 1, 1, 0, 1]).stage 0 = .done (.ok none) ∧
      (run .llm oneFails (initial ⟨[], [], none⟩) [0, 0, 0, 0, 1, 1, 1, 1, 0, 1]).stage 1 = .done (.ok (some true)) := by
  decide +kernel

end OverlayRun

end Fluent.Router.Ledger
