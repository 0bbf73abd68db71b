import Fluent.Library.Regex

namespace Fluent.Library

namespace Regex

variable {κ α : Type*} {I J : Reading κ α}

def classes : Regex κ → List κ
  | cls k => [k]
  | seq r t | alt r t => r.classes ++ t.classes
  | rep _ _ _ r => r.classes
  | empty | boundary | inside | start | stop => []

def nullable : Regex κ → Bool
  | empty | boundary | inside | start | stop => true
  | cls _ => false
  | seq r t => r.nullable && t.nullable
  | alt r t => r.nullable || t.nullable
  | rep _ lo _ r => lo == 0 || r.nullable

theorem Matches.nullable {r : Regex κ} {prev next : Option α} (h : Matches I r prev [] next) :
    r.nullable = true := by
  induction r generalizing prev next with
  | empty | boundary | inside | start | stop => rfl
  | cls k =>
    obtain ⟨c, hc, -⟩ := h
    cases hc
  | seq r t ihr iht =>
    obtain ⟨u, v, huv, hu, hv⟩ := h
    obtain ⟨rfl, rfl⟩ := List.append_eq_nil_iff.mp huv.symm
    rw [Regex.nullable, ihr hu, iht hv]
    rfl
  | alt r t ihr iht =>
    rw [Regex.nullable, Bool.or_eq_true]
    rcases h with h | h
    · exact Or.inl (ihr h)
    · exact Or.inr (iht h)
  | rep greedy lo more r ih =>
    obtain ⟨k, hlo, -, hiter⟩ := h
    rw [Regex.nullable, Bool.or_eq_true, beq_iff_eq]
    cases k with
    | zero => exact Or.inl (Nat.le_zero.mp hlo)
    | succ k =>
      obtain ⟨u, v, huv, hu, -⟩ := hiter
      obtain ⟨rfl, rfl⟩ := List.append_eq_nil_iff.mp huv.symm
      exact Or.inr (ih hu)

theorem Matches.ne_nil {r : Regex κ} (hr : r.nullable = false) {prev next : Option α} {w : List α}
    (h : Matches I r prev w next) : w ≠ [] := by
  rintro rfl
  rw [h.nullable] at hr
  cases hr

def Agree (I J : Reading κ α) (prev : Option α) (s : List α) : Prop :=
  ∀ c ∈ prev.toList ++ s, I.word c = J.word c ∧ ∀ k, I.holds k c = J.holds k c

theorem Agree.drop {prev : Option α} {s : List α} (h : Agree I J prev s) (n : ℕ) :
    Agree I J (after prev (s.take n)) (s.drop n) := by
  intro c hc
  apply h
  rcases List.mem_append.mp hc with hc | hc
  · rw [Option.mem_toList, after, Option.or_eq_some_iff] at hc
    rcases hc with hc | ⟨-, hc⟩
    · exact List.mem_append_right _ (List.mem_of_mem_take (List.mem_of_getLast? hc))
    · exact List.mem_append_left _ (by rw [hc]; exact List.mem_singleton_self c)
  · exact List.mem_append_right _ (List.mem_of_mem_drop hc)

theorem repEnds_congr {f g : Option α → List α → List ℕ}
    (hfg : ∀ prev s, Agree I J prev s → f prev s = g prev s) (greedy : Bool) {count : ℕ} :
    ∀ {lo : ℕ} {prev : Option α} {s : List α}, Agree I J prev s →
      repEnds f greedy count lo prev s = repEnds g greedy count lo prev s := by
  induction count with
  | zero => exact fun _ => rfl
  | succ count ih =>
    intro lo prev s h
    have hrest : ∀ lo n, repEnds f greedy count lo (after prev (s.take n)) (s.drop n) =
        repEnds g greedy count lo (after prev (s.take n)) (s.drop n) := fun lo n => ih (h.drop n)
    cases lo with
    | zero => simp only [repEnds, hfg prev s h, hrest]
    | succ lo => simp only [repEnds, hfg prev s h, hrest]

theorem ends_congr {r : Regex κ} {prev : Option α} {s : List α} (h : Agree I J prev s) :
    ends I r prev s = ends J r prev s := by
  induction r generalizing prev s with
  | empty | start | stop => rfl
  | cls k =>
    cases s with
    | nil => rfl
    | cons c s =>
      have hk := (h c (List.mem_append_right _ List.mem_cons_self)).2 k
      rw [ends, ends, List.head?_cons, Option.any_some, Option.any_some, hk]
  | seq r t ihr iht =>
    have hrest : ∀ n, ends I t (after prev (s.take n)) (s.drop n) = ends J t (after prev (s.take n)) (s.drop n) :=
      fun n => iht (h.drop n)
    simp only [ends, ihr h, hrest]
  | alt r t ihr iht => rw [ends, ends, ihr h, iht h]
  | rep greedy lo more r ih => exact repEnds_congr (fun _ _ hagree => ih hagree) greedy h
  | boundary | inside =>
    have hword : ∀ o : Option α, (∀ c ∈ o, c ∈ prev.toList ++ s) → o.any I.word = o.any J.word := by
      intro o ho
      cases o with
      | none => rfl
      | some c => exact (h c (ho c rfl)).1
    have hprev := hword prev fun c hc => List.mem_append_left _ (Option.mem_toList.mpr hc)
    have hnext := hword s.head? fun c hc => List.mem_append_right _ (List.mem_of_head? hc)
    rw [ends, ends, isBoundary, isBoundary, hprev, hnext]

theorem hasMatch_congr {r : Regex κ} {prev : Option α} {s : List α} (h : Agree I J prev s) :
    hasMatch I r prev s = hasMatch J r prev s := by
  induction s generalizing prev with
  | nil => rw [hasMatch, hasMatch, ends_congr h]
  | cons c s ih =>
    have hrest : hasMatch I r (some c) s = hasMatch J r (some c) s := ih (h.drop 1)
    rw [hasMatch, hasMatch, ends_congr h, hrest]

def bounded (r : Regex κ) : Regex κ := seq boundary (seq r boundary)

end Regex

end Fluent.Library
