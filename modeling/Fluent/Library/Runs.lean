import Mathlib.Logic.Basic

namespace Fluent.Library

variable {S Op : Type*} (step : S → Op → S)

def Respects (allowed : S → Op → Prop) : S → List Op → Prop
  | _, [] => True
  | s, op :: ops => allowed s op ∧ Respects allowed (step s op) ops

def Along (P : S → Prop) : S → List Op → Prop
  | s, [] => P s
  | s, op :: ops => P s ∧ Along P (step s op) ops

instance Respects.decidable (allowed : S → Op → Prop) [∀ s op, Decidable (allowed s op)] :
    ∀ s ops, Decidable (Respects step allowed s ops)
  | _, [] => isTrue trivial
  | s, op :: ops =>
    haveI := Respects.decidable allowed (step s op) ops
    inferInstanceAs (Decidable (allowed s op ∧ Respects step allowed (step s op) ops))

instance Along.decidable (P : S → Prop) [DecidablePred P] : ∀ s ops, Decidable (Along step P s ops)
  | s, [] => inferInstanceAs (Decidable (P s))
  | s, op :: ops =>
    haveI := Along.decidable P (step s op) ops
    inferInstanceAs (Decidable (P s ∧ Along step P (step s op) ops))

variable {step}

theorem Along.mono {P Q : S → Prop} (h : ∀ s, P s → Q s) {s : S} {ops : List Op}
    (ha : Along step P s ops) : Along step Q s ops := by
  induction ops generalizing s with
  | nil => exact h s ha
  | cons op ops ih => exact ⟨h s ha.1, ih ha.2⟩

theorem Along.start {P : S → Prop} {s : S} {ops : List Op} (h : Along step P s ops) : P s := by
  cases ops with
  | nil => exact h
  | cons op ops => exact h.1

theorem along_of_step {I : S → Prop} {allowed : S → Op → Prop}
    (hstep : ∀ s op, I s → allowed s op → I (step s op)) {s : S} {ops : List Op} (hs : I s)
    (h : Respects step allowed s ops) : Along step I s ops := by
  induction ops generalizing s with
  | nil => exact hs
  | cons op ops ih => exact ⟨hs, ih (hstep s op hs h.1) h.2⟩

theorem respects_of_along {I : S → Prop} {Q : S → Op → Prop} (hQ : ∀ s op, I s → Q s op) {s : S}
    {ops : List Op} (h : Along step I s ops) : Respects step Q s ops := by
  induction ops generalizing s with
  | nil => trivial
  | cons op ops ih => exact ⟨hQ s op h.1, ih h.2⟩

theorem respects_true (s : S) (ops : List Op) : Respects step (fun _ _ => True) s ops := by
  induction ops generalizing s with
  | nil => trivial
  | cons op ops ih => exact ⟨trivial, ih _⟩

theorem respects_of_forall {allowed : Op → Prop} {s : S} {ops : List Op} (h : ∀ op ∈ ops, allowed op) :
    Respects step (fun _ op => allowed op) s ops := by
  induction ops generalizing s with
  | nil => trivial
  | cons op ops ih => exact ⟨h op List.mem_cons_self, ih fun op' hop' => h op' (List.mem_cons_of_mem _ hop')⟩

theorem respects_append {allowed : S → Op → Prop} {s : S} (before after : List Op) :
    Respects step allowed s (before ++ after) ↔
      Respects step allowed s before ∧ Respects step allowed (before.foldl step s) after := by
  induction before generalizing s with
  | nil => exact ⟨fun h => ⟨trivial, h⟩, And.right⟩
  | cons op before ih => exact (and_congr Iff.rfl ih).trans and_assoc.symm

theorem respects_congr {I : S → Prop} {P Q : S → Op → Prop} (hstep : ∀ s op, I s → I (step s op))
    (hiff : ∀ s op, I s → (P s op ↔ Q s op)) {s : S} {ops : List Op} (hs : I s) :
    Respects step P s ops ↔ Respects step Q s ops := by
  induction ops generalizing s with
  | nil => exact Iff.rfl
  | cons op ops ih => exact and_congr (hiff s op hs) (ih (hstep s op hs))

theorem along_of_partial {step : S → Op → Option S} {I : S → Prop} {allowed : S → Op → Prop}
    (hstep : ∀ s op s', I s → allowed s op → step s op = some s' → I s') {s : S} {ops : List Op}
    (hs : I s) (h : Respects (fun s op => (step s op).getD s) allowed s ops) :
    Along (fun s op => (step s op).getD s) I s ops := by
  refine along_of_step (fun s op hs ha => ?_) hs h
  cases hop : step s op with
  | none => exact hs
  | some s' => exact hstep s op s' hs ha hop

theorem along_iff_respects {I P : S → Prop} {allowed safe : S → Op → Prop}
    (hstep : ∀ s op, I s → allowed s op → I (step s op))
    (hsafe : ∀ s op, I s → P s → allowed s op → (P (step s op) ↔ safe s op))
    {s : S} {ops : List Op} (hs : I s) (hp : P s) (h : Respects step allowed s ops) :
    Along step P s ops ↔ Respects step safe s ops := by
  induction ops generalizing s with
  | nil => exact ⟨fun _ => trivial, fun _ => hp⟩
  | cons op ops ih =>
    have hiff := hsafe s op hs hp h.1
    constructor
    · rintro ⟨-, ha⟩
      have hnext := ha.start
      exact ⟨hiff.mp hnext, (ih (hstep s op hs h.1) hnext h.2).mp ha⟩
    · rintro ⟨hop, hr⟩
      have hnext := hiff.mpr hop
      exact ⟨hp, (ih (hstep s op hs h.1) hnext h.2).mpr hr⟩

theorem along_iff_start_and_respects {I P : S → Prop} {allowed safe : S → Op → Prop}
    (hstep : ∀ s op, I s → allowed s op → I (step s op))
    (hsafe : ∀ s op, I s → P s → allowed s op → (P (step s op) ↔ safe s op))
    {s : S} {ops : List Op} (hs : I s) (h : Respects step allowed s ops) :
    Along step P s ops ↔ P s ∧ Respects step safe s ops :=
  ⟨fun ha => ⟨ha.start, (along_iff_respects hstep hsafe hs ha.start h).mp ha⟩,
    fun hr => (along_iff_respects hstep hsafe hs hr.1 h).mpr hr.2⟩

theorem foldl_iff_respects {I P : S → Prop} {allowed safe : S → Op → Prop}
    (hstep : ∀ s op, I s → allowed s op → I (step s op))
    (hsafe : ∀ s op, I s → allowed s op → (P (step s op) ↔ P s ∧ safe s op))
    {s : S} {ops : List Op} (hs : I s) (h : Respects step allowed s ops) :
    P (ops.foldl step s) ↔ P s ∧ Respects step safe s ops := by
  induction ops generalizing s with
  | nil => exact ⟨fun hp => ⟨hp, trivial⟩, And.left⟩
  | cons op ops ih =>
    rw [List.foldl_cons, ih (hstep s op hs h.1) h.2, hsafe s op hs h.1, and_assoc]
    exact Iff.rfl

theorem foldl_of_step {I : S → Prop} {allowed : S → Op → Prop}
    (hstep : ∀ s op, I s → allowed s op → I (step s op)) {s : S} {ops : List Op} (hs : I s)
    (h : Respects step allowed s ops) : I (ops.foldl step s) := by
  induction ops generalizing s with
  | nil => exact hs
  | cons op ops ih => exact ih (hstep s op hs h.1) h.2

end Fluent.Library
