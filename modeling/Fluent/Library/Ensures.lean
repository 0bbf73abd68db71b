import Mathlib.Order.Defs.Unbundled

namespace Fluent.Library

variable {σ ε α β : Type} {R : σ → σ → Prop} {J P : σ → Prop} {Q : α → σ → Prop}

/-- The end of a run from `s`, in a state that `R` relates to `s`: an answer where `Q` holds, or an error where `J` does. -/
inductive Ended (R : σ → σ → Prop) (J : σ → Prop) (Q : α → σ → Prop) (s : σ) : Except ε α × σ → Prop
  | ok {a : α} {s' : σ} (hmore : R s s') (h : Q a s') : Ended R J Q s (.ok a, s')
  | error {e : ε} {s' : σ} (hmore : R s s') (h : J s') : Ended R J Q s (.error e, s')

def Ensures (R : σ → σ → Prop) (J P : σ → Prop) (m : ExceptT ε (StateM σ) α) (Q : α → σ → Prop) : Prop :=
  ∀ s, P s → Ended R J Q s (m s)

variable {m : ExceptT ε (StateM σ) α}

theorem Ensures.bind [IsTrans σ R] (h : Ensures R J P m Q) {f : α → ExceptT ε (StateM σ) β} {Q' : β → σ → Prop}
    (hf : ∀ a, Ensures R J (Q a) (f a) Q') : Ensures R J P (m >>= f) Q' := by
  intro s hs
  have hm := h s hs
  change Ended R J Q' s (ExceptT.bindCont f (m s).1 (m s).2)
  generalize m s = r at hm
  cases hm with
  | error hmore hj => exact .error hmore hj
  | ok hmore ha =>
    have hrest := hf _ _ ha
    change Ended R J Q' s (f _ _)
    generalize f _ _ = r at hrest
    cases hrest with
    | error hmore' hj => exact .error (IsTrans.trans _ _ _ hmore hmore') hj
    | ok hmore' hb => exact .ok (IsTrans.trans _ _ _ hmore hmore') hb

theorem Ensures.pure [Std.Refl R] {a : α} (h : ∀ s, P s → Q a s) : Ensures R J P (Pure.pure a : ExceptT ε (StateM σ) α) Q :=
  fun s hs => .ok (Std.Refl.refl s) (h s hs)

theorem Ensures.imp {P' : σ → Prop} {Q' : α → σ → Prop} (h : Ensures R J P m Q) (hP : ∀ s, P' s → P s)
    (hQ : ∀ a s, Q a s → Q' a s) : Ensures R J P' m Q' := by
  intro s hs
  have hm := h s (hP s hs)
  generalize m s = r at hm
  cases hm with
  | error hmore hj => exact .error hmore hj
  | ok hmore ha => exact .ok hmore (hQ _ _ ha)

theorem Ensures.frame (h : Ensures R J P m Q) {F : σ → Prop} (hF : ∀ s s', R s s' → F s → F s') :
    Ensures R J (fun s => P s ∧ F s) m fun a s => Q a s ∧ F s := by
  rintro s ⟨hs, hframe⟩
  have hm := h s hs
  generalize m s = r at hm
  cases hm with
  | error hmore hj => exact .error hmore hj
  | ok hmore ha => exact .ok hmore ⟨ha, hF _ _ hmore hframe⟩

theorem Ensures.ite {c : Prop} [Decidable c] {m' : ExceptT ε (StateM σ) α} (h : c → Ensures R J P m Q)
    (h' : ¬c → Ensures R J P m' Q) : Ensures R J P (if c then m else m') Q := by
  split
  · next hc => exact h hc
  · next hc => exact h' hc

end Fluent.Library
