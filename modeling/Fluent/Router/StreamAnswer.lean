import Fluent.Library.Runs
import Fluent.Spacy.Hash

open Fluent.Library

namespace Fluent.Router

open Fluent.Spacy (Text)

namespace StreamAnswer

inductive Finalizer where
  | pending
  | stored
  | done
deriving DecidableEq

/-- Where the call of `wait` stands; `unregistered` has found no content and has no future yet. -/
inductive Waiter where
  | checking
  | unregistered
  | waiting (notified : Bool)
  | reading
  | returned (answer : Option Text)
deriving DecidableEq

structure State where
  content : Option Text
  finalizer : Finalizer
  waiter : Waiter
  expired : Bool
deriving DecidableEq

def new : State := ⟨none, .pending, .checking, false⟩

inductive Op where
  | finalize
  | wait
  | expire
deriving DecidableEq

def notifyWaiters : Waiter → Waiter
  | .waiting _ => .waiting true
  | waiter => waiter

def finalizeStep (content : Text) (s : State) : State :=
  match s.finalizer with
  | .pending => { s with content := some content, finalizer := .stored }
  | .stored => { s with waiter := notifyWaiters s.waiter, finalizer := .done }
  | .done => s

def waitStep (s : State) : State :=
  match s.waiter with
  | .checking =>
    match s.content with
    | some content => { s with waiter := .returned (some content) }
    | none => { s with waiter := .unregistered }
  | .unregistered => { s with waiter := .waiting false }
  -- a timeout polls its future before its clock
  | .waiting true => { s with waiter := .reading }
  | .waiting false => if s.expired then { s with waiter := .returned none } else s
  | .reading => { s with waiter := .returned s.content }
  | .returned _ => s

def expireStep (s : State) : State :=
  match s.waiter with
  | .waiting _ => { s with expired := true }
  | _ => s

def step (content : Text) (s : State) : Op → State
  | .finalize => finalizeStep content s
  | .wait => waitStep s
  | .expire => expireStep s

def InTime (s : State) (op : Op) : Prop := op = .expire → s.finalizer = .done

def Registered (s : State) (op : Op) : Prop :=
  op = .finalize → s.finalizer = .stored → s.waiter ≠ .unregistered

instance (s : State) (op : Op) : Decidable (InTime s op) := inferInstanceAs (Decidable (_ → _))

def Waiter.Answers (content : Text) : Waiter → Prop
  | .checking | .waiting true | .reading => True
  | .returned answer => answer = some content
  | .unregistered | .waiting false => False

def Kept (content : Text) (s : State) : Prop := s.finalizer = .done → s.waiter.Answers content

def Sound (content : Text) (s : State) : Prop :=
  match s.finalizer with
  | .pending => s.content = none ∧ s.expired = false ∧
      (s.waiter = .checking ∨ s.waiter = .unregistered ∨ s.waiter = .waiting false)
  | .stored => s.content = some content ∧ s.expired = false ∧
      (s.waiter = .checking ∨ s.waiter = .unregistered ∨ s.waiter = .waiting false ∨
        s.waiter = .returned (some content))
  | .done => s.content = some content

variable {content : Text} {s : State} {op : Op}

theorem sound_finalize (h : Sound content s) : Sound content (finalizeStep content s) := by
  obtain ⟨c, finalizer, waiter, expired⟩ := s
  cases finalizer with
  | pending =>
    obtain ⟨-, hexpired, hchecking | hunregistered | hwaiting⟩ := h
    · exact ⟨rfl, hexpired, Or.inl hchecking⟩
    · exact ⟨rfl, hexpired, Or.inr (Or.inl hunregistered)⟩
    · exact ⟨rfl, hexpired, Or.inr (Or.inr (Or.inl hwaiting))⟩
  | stored => exact h.1
  | done => exact h

theorem sound_wait (h : Sound content s) : Sound content (waitStep s) := by
  obtain ⟨c, finalizer, waiter, expired⟩ := s
  cases finalizer with
  | pending =>
    obtain ⟨rfl, rfl, rfl | rfl | rfl⟩ := h
    · exact ⟨rfl, rfl, by simp [waitStep]⟩
    · exact ⟨rfl, rfl, by simp [waitStep]⟩
    · exact ⟨rfl, rfl, by simp [waitStep]⟩
  | stored =>
    obtain ⟨rfl, rfl, rfl | rfl | rfl | rfl⟩ := h
    · exact ⟨rfl, rfl, by simp [waitStep]⟩
    · exact ⟨rfl, rfl, by simp [waitStep]⟩
    · exact ⟨rfl, rfl, by simp [waitStep]⟩
    · exact ⟨rfl, rfl, by simp [waitStep]⟩
  | done =>
    cases h
    cases waiter with
    | waiting notified =>
      cases notified with
      | true => rfl
      | false => cases expired <;> rfl
    | _ => rfl

theorem sound_step (h : Sound content s) (hop : InTime s op) : Sound content (step content s op) := by
  cases op with
  | finalize => exact sound_finalize h
  | wait => exact sound_wait h
  | expire =>
    have hdone := hop rfl
    obtain ⟨c, finalizer, waiter, expired⟩ := s
    cases hdone
    cases waiter <;> exact h

theorem kept_finalize (h : Sound content s) :
    Kept content (finalizeStep content s) ↔ Kept content s ∧ Registered s .finalize := by
  obtain ⟨c, finalizer, waiter, expired⟩ := s
  cases finalizer with
  | pending => simp [Kept, Registered, finalizeStep]
  | stored =>
    obtain ⟨rfl, rfl, rfl | rfl | rfl | rfl⟩ := h <;>
      simp [Kept, Registered, finalizeStep, notifyWaiters, Waiter.Answers]
  | done => simp [Kept, Registered, finalizeStep]

theorem answers_wait (h : Sound content s) (hdone : s.finalizer = .done) :
    (waitStep s).waiter.Answers content ↔ s.waiter.Answers content := by
  obtain ⟨c, finalizer, waiter, expired⟩ := s
  cases hdone
  cases h
  cases waiter with
  | waiting notified =>
    cases notified with
    | true => simp [waitStep, Waiter.Answers]
    | false => cases expired <;> simp [waitStep, Waiter.Answers]
  | _ => simp [waitStep, Waiter.Answers]

theorem finalizer_waitStep (s : State) : (waitStep s).finalizer = s.finalizer := by
  obtain ⟨c, finalizer, waiter, expired⟩ := s
  cases waiter with
  | checking => cases c <;> rfl
  | waiting notified =>
    cases notified with
    | true => rfl
    | false => cases expired <;> rfl
  | _ => rfl

theorem kept_step (h : Sound content s) :
    Kept content (step content s op) ↔ Kept content s ∧ Registered s op := by
  cases op with
  | finalize => exact kept_finalize h
  | wait =>
    have hregistered : Registered s .wait := by simp [Registered]
    simp only [step, Kept, finalizer_waitStep, hregistered, and_true]
    exact ⟨fun hk hdone => (answers_wait h hdone).mp (hk hdone),
      fun hk hdone => (answers_wait h hdone).mpr (hk hdone)⟩
  | expire =>
    obtain ⟨c, finalizer, waiter, expired⟩ := s
    cases waiter <;> simp [step, expireStep, Kept, Registered]

def Waiter.left : Waiter → ℕ
  | .waiting _ => 2
  | .checking | .reading | .unregistered => 1
  | .returned _ => 0

def Answering (content : Text) (s : State) : Prop :=
  s.content = some content ∧ s.finalizer = .done ∧ s.waiter.Answers content

theorem answering_step (h : Answering content s) (op : Op) :
    Answering content (step content s op) ∧
      (step content s op).waiter.left ≤ s.waiter.left - if op = .wait then 1 else 0 := by
  obtain ⟨c, finalizer, waiter, expired⟩ := s
  obtain ⟨rfl, rfl, ha⟩ := h
  cases op with
  | finalize => exact ⟨⟨rfl, rfl, ha⟩, by simp [step, finalizeStep]⟩
  | wait =>
    cases waiter with
    | waiting notified =>
      cases notified with
      | true => exact ⟨⟨rfl, rfl, trivial⟩, by simp [step, waitStep, Waiter.left]⟩
      | false => exact ha.elim
    | unregistered => exact ha.elim
    | checking => exact ⟨⟨rfl, rfl, rfl⟩, by simp [step, waitStep, Waiter.left]⟩
    | reading => exact ⟨⟨rfl, rfl, rfl⟩, by simp [step, waitStep, Waiter.left]⟩
    | returned answer => exact ⟨⟨rfl, rfl, ha⟩, by simp [step, waitStep, Waiter.left]⟩
  | expire => cases waiter <;> exact ⟨⟨rfl, rfl, ha⟩, by simp [step, expireStep, Waiter.left]⟩

theorem answering_run (h : Answering content s) {rest : List Op} (hrest : s.waiter.left ≤ rest.count .wait) :
    (rest.foldl (step content) s).waiter = .returned (some content) := by
  induction rest generalizing s with
  | nil =>
    obtain ⟨c, finalizer, waiter, expired⟩ := s
    obtain ⟨-, -, ha⟩ := h
    cases waiter with
    | returned answer =>
      cases ha
      rfl
    | _ => simp [Waiter.left] at hrest
  | cons op rest ih =>
    obtain ⟨hnext, hleft⟩ := answering_step h op
    refine ih hnext ?_
    rw [List.count_cons] at hrest
    cases op <;> simp at hrest hleft <;> omega

theorem Waiter.left_le (waiter : Waiter) : waiter.left ≤ 2 := by
  cases waiter <;> simp [Waiter.left]

theorem wait_answers_iff (content : Text) (ops : List Op) (htime : Respects (step content) InTime new ops)
    (hdone : (ops.foldl (step content) new).finalizer = .done) :
    (∀ rest : List Op, 2 ≤ rest.count .wait →
      ((ops ++ rest).foldl (step content) new).waiter = .returned (some content)) ↔
    Respects (step content) Registered new ops := by
  have hnew : Sound content new := ⟨rfl, rfl, Or.inl rfl⟩
  have hsound : Sound content (ops.foldl (step content) new) :=
    foldl_of_step (fun _ _ hs hop => sound_step hs hop) hnew htime
  have hcontent : (ops.foldl (step content) new).content = some content := by
    rw [Sound, hdone] at hsound
    exact hsound
  have hkept : Kept content (ops.foldl (step content) new) ↔ Respects (step content) Registered new ops := by
    rw [foldl_iff_respects (fun _ _ hs hop => sound_step hs hop) (fun _ _ hs _ => kept_step hs) hnew htime]
    exact and_iff_right fun hpending => by cases hpending
  rw [← hkept]
  constructor
  · intro hall _
    have htwo := hall [.wait, .wait] (by decide)
    rw [List.foldl_append] at htwo
    rw [← answers_wait hsound hdone,
      ← answers_wait (sound_wait hsound) ((finalizer_waitStep _).trans hdone)]
    change ((waitStep (waitStep (ops.foldl (step content) new))).waiter) = _ at htwo
    rw [htwo]
    rfl
  · intro hk rest hrest
    rw [List.foldl_append]
    exact answering_run ⟨hcontent, hdone, hk hdone⟩ (Nat.le_trans (Waiter.left_le _) hrest)

theorem notified_wait_answers :
    (∀ rest : List Op, 2 ≤ rest.count .wait →
      (([Op.wait, .finalize, .wait, .finalize] ++ rest).foldl (step "ok".toList) new).waiter =
        .returned (some "ok".toList)) ↔
    Respects (step "ok".toList) Registered new [.wait, .finalize, .wait, .finalize] :=
  wait_answers_iff _ _ (by decide) rfl

theorem wait_misses_finalize :
    Respects (step "ok".toList) InTime new [.wait, .finalize, .finalize, .wait, .wait, .expire, .wait] ∧
      [Op.wait, .finalize, .finalize, .wait, .wait, .expire, .wait].foldl (step "ok".toList) new =
        ⟨some "ok".toList, .done, .returned none, true⟩ :=
  ⟨by decide, rfl⟩

end StreamAnswer

end Fluent.Router
