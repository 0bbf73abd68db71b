import Mathlib.Data.List.Basic
import Mathlib.Data.List.Infix

namespace Fluent.Library

inductive Regex (κ : Type*) where
  | empty
  | cls (k : κ)
  | seq (r t : Regex κ)
  | alt (r t : Regex κ)
  | rep (greedy : Bool) (lo : ℕ) (more : Option ℕ) (r : Regex κ)
  | boundary
  | inside
  | start
  | stop
deriving DecidableEq

namespace Regex

variable {κ α : Type*}

structure Reading (κ α : Type*) where
  holds : κ → α → Bool
  word : α → Bool

def after (prev : Option α) (w : List α) : Option α := w.getLast?.or prev

theorem after_append (prev : Option α) (u v : List α) : after prev (u ++ v) = after (after prev u) v := by
  unfold after
  rw [List.getLast?_append, Option.or_assoc]

def repEnds (f : Option α → List α → List ℕ) (greedy : Bool) : ℕ → ℕ → Option α → List α → List ℕ
  | 0, _, _, _ => [0]
  | count + 1, 0, prev, s =>
    let more := ((f prev s).filter (0 < ·)).flatMap fun n =>
      (repEnds f greedy count 0 (after prev (s.take n)) (s.drop n)).map (n + ·)
    if greedy then more ++ [0] else 0 :: more
  | count + 1, lo + 1, prev, s =>
    (f prev s).flatMap fun n => (repEnds f greedy count lo (after prev (s.take n)) (s.drop n)).map (n + ·)

section Ends

variable (I : Reading κ α)

def isBoundary (prev next : Option α) : Bool := prev.any I.word != next.any I.word

/-- The lengths of the matches at the start of `s`, in the order in which a backtracking search finds
them. -/
def ends : Regex κ → Option α → List α → List ℕ
  | empty, _, _ => [0]
  | cls k, _, s => if s.head?.any (I.holds k) then [1] else []
  | seq r t, prev, s =>
    (ends r prev s).flatMap fun n => (ends t (after prev (s.take n)) (s.drop n)).map (n + ·)
  | alt r t, prev, s => ends r prev s ++ ends t prev s
  | rep greedy lo more r, prev, s => repEnds (ends r) greedy (lo + more.getD s.length) lo prev s
  | boundary, prev, s => if isBoundary I prev s.head? then [0] else []
  | inside, prev, s => if isBoundary I prev s.head? then [] else [0]
  | start, prev, _ => if prev.isNone then [0] else []
  | stop, _, s => if s.isEmpty then [0] else []

end Ends

def Iter (M : Option α → List α → Option α → Prop) : ℕ → Option α → List α → Option α → Prop
  | 0, _, w, _ => w = []
  | k + 1, prev, w, next => ∃ u v, w = u ++ v ∧ M prev u (v.head?.or next) ∧ Iter M k (after prev u) v next

def Matches (I : Reading κ α) : Regex κ → Option α → List α → Option α → Prop
  | empty, _, w, _ => w = []
  | cls k, _, w, _ => ∃ c, w = [c] ∧ I.holds k c = true
  | seq r t, prev, w, next =>
    ∃ u v, w = u ++ v ∧ Matches I r prev u (v.head?.or next) ∧ Matches I t (after prev u) v next
  | alt r t, prev, w, next => Matches I r prev w next ∨ Matches I t prev w next
  | rep _ lo more r, prev, w, next =>
    ∃ k, lo ≤ k ∧ (∀ m ∈ more, k ≤ lo + m) ∧ Iter (Matches I r) k prev w next
  | boundary, prev, w, next => w = [] ∧ isBoundary I prev next = true
  | inside, prev, w, next => w = [] ∧ isBoundary I prev next = false
  | start, prev, w, _ => w = [] ∧ prev = none
  | stop, _, w, next => w = [] ∧ next = none

section RepEnds

variable {f : Option α → List α → List ℕ} {M : Option α → List α → Option α → Prop}

theorem repEnds_sound
    (hf : ∀ prev s n, n ∈ f prev s → ∃ w s', s = w ++ s' ∧ w.length = n ∧ M prev w s'.head?) {greedy : Bool} :
    ∀ {count lo : ℕ} {prev : Option α} {s : List α} {n : ℕ}, lo ≤ count → n ∈ repEnds f greedy count lo prev s →
      ∃ w s' k, s = w ++ s' ∧ w.length = n ∧ lo ≤ k ∧ k ≤ count ∧ Iter M k prev w s'.head? := by
  have hstep : ∀ {lo lo' count : ℕ} {prev : Option α} {s : List α} {n n' : ℕ}, lo ≤ lo' + 1 → n ∈ f prev s →
      (∃ w s' k, s.drop n = w ++ s' ∧ w.length = n' ∧ lo' ≤ k ∧ k ≤ count ∧
        Iter M k (after prev (s.take n)) w s'.head?) →
      ∃ w s' k, s = w ++ s' ∧ w.length = n + n' ∧ lo ≤ k ∧ k ≤ count + 1 ∧ Iter M k prev w s'.head? := by
    rintro lo lo' count prev s n n' hlo hn ⟨w, s', k, hs, rfl, hlk, hk, hiter⟩
    obtain ⟨u, rest, rfl, rfl, hu⟩ := hf _ _ _ hn
    rw [List.drop_left] at hs
    rw [List.take_left] at hiter
    subst hs
    refine ⟨u ++ w, s', k + 1, (List.append_assoc ..).symm, List.length_append, by omega, by omega, u, w, rfl,
      ?_, hiter⟩
    rw [← List.head?_append]
    exact hu
  intro count
  induction count with
  | zero =>
    intro lo prev s n hlo hn
    obtain rfl := List.mem_singleton.mp hn
    exact ⟨[], s, 0, rfl, rfl, hlo, le_refl 0, rfl⟩
  | succ count ih =>
    intro lo prev s n hlo hn
    cases lo with
    | zero =>
      have hcases : n ∈ ((f prev s).filter (0 < ·)).flatMap (fun n =>
          (repEnds f greedy count 0 (after prev (s.take n)) (s.drop n)).map (n + ·)) ∨ n = 0 := by
        cases greedy
        · simpa [repEnds, or_comm] using hn
        · simpa [repEnds] using hn
      rcases hcases with hn | rfl
      · obtain ⟨m, hm, hn⟩ := List.mem_flatMap.mp hn
        obtain ⟨n', hn', rfl⟩ := List.mem_map.mp hn
        exact hstep (by omega) (List.mem_filter.mp hm).1 (ih (Nat.zero_le _) hn')
      · exact ⟨[], s, 0, rfl, rfl, le_refl 0, Nat.zero_le _, rfl⟩
    | succ lo =>
      obtain ⟨m, hm, hn⟩ := List.mem_flatMap.mp hn
      obtain ⟨n', hn', rfl⟩ := List.mem_map.mp hn
      exact hstep (le_refl _) hm (ih (by omega) hn')

theorem zero_mem_repEnds (greedy : Bool) (count : ℕ) (prev : Option α) (s : List α) :
    0 ∈ repEnds f greedy count 0 prev s := by
  cases count with
  | zero => exact List.mem_singleton_self 0
  | succ count =>
    cases greedy
    · exact List.mem_cons_self
    · exact List.mem_append_right _ (List.mem_singleton_self 0)

theorem mem_repEnds_more {greedy : Bool} {count : ℕ} {prev : Option α} {u s : List α} {n : ℕ}
    (hu : u.length ∈ f prev (u ++ s)) (hpos : u ≠ [])
    (hn : n ∈ repEnds f greedy count 0 (after prev u) s) :
    u.length + n ∈ repEnds f greedy (count + 1) 0 prev (u ++ s) := by
  have hmore : u.length + n ∈ ((f prev (u ++ s)).filter (0 < ·)).flatMap (fun n =>
      (repEnds f greedy count 0 (after prev ((u ++ s).take n)) ((u ++ s).drop n)).map (n + ·)) := by
    apply List.mem_flatMap.mpr
    refine ⟨u.length, List.mem_filter.mpr ⟨hu, by simpa using List.length_pos_iff.mpr hpos⟩, ?_⟩
    rw [List.take_left, List.drop_left]
    exact List.mem_map_of_mem hn
  cases greedy
  · exact List.mem_cons_of_mem _ hmore
  · exact List.mem_append_left _ hmore

theorem mem_repEnds_first {greedy : Bool} {count lo : ℕ} {prev : Option α} {u s : List α} {n : ℕ}
    (hu : u.length ∈ f prev (u ++ s)) (hn : n ∈ repEnds f greedy count lo (after prev u) s) :
    u.length + n ∈ repEnds f greedy (count + 1) (lo + 1) prev (u ++ s) := by
  apply List.mem_flatMap.mpr
  refine ⟨u.length, hu, ?_⟩
  rw [List.take_left, List.drop_left]
  exact List.mem_map_of_mem hn

theorem repEnds_complete
    (hf : ∀ prev w s, M prev w s.head? → w.length ∈ f prev (w ++ s)) {greedy : Bool} {s : List α} :
    ∀ {k count lo : ℕ} {prev : Option α} {w : List α}, lo ≤ k → (lo + w.length ≤ count ∨ k ≤ count) →
      Iter M k prev w s.head? → w.length ∈ repEnds f greedy count lo prev (w ++ s) := by
  intro k
  induction k with
  | zero =>
    intro count lo prev w hlo _ hiter
    obtain rfl : w = [] := hiter
    obtain rfl : lo = 0 := by omega
    exact zero_mem_repEnds ..
  | succ k ih =>
    intro count lo prev w hlo hcount hiter
    obtain ⟨u, v, rfl, hu, hv⟩ := hiter
    rw [← List.head?_append] at hu
    rw [List.length_append] at hcount ⊢
    rw [List.append_assoc]
    cases lo with
    | zero =>
      by_cases hnil : u = []
      · subst hnil
        rw [List.length_nil, Nat.zero_add, List.nil_append]
        apply ih (Nat.zero_le _) _ hv
        rcases hcount with hcount | hcount
        · exact Or.inl (by simpa using hcount)
        · exact Or.inr (by omega)
      · have hpos := List.length_pos_iff.mpr hnil
        obtain ⟨count, rfl⟩ : ∃ c, count = c + 1 := ⟨count - 1, by omega⟩
        exact mem_repEnds_more (hf _ _ _ hu) hnil (ih (Nat.zero_le _) (by omega) hv)
    | succ lo =>
      obtain ⟨count, rfl⟩ : ∃ c, count = c + 1 := ⟨count - 1, by omega⟩
      exact mem_repEnds_first (hf _ _ _ hu) (ih (by omega) (by omega) hv)

end RepEnds

variable {I : Reading κ α}

theorem ends_sound {r : Regex κ} {prev : Option α} {s : List α} {n : ℕ} (h : n ∈ ends I r prev s) :
    ∃ w s', s = w ++ s' ∧ w.length = n ∧ Matches I r prev w s'.head? := by
  induction r generalizing prev s n with
  | empty =>
    obtain rfl := List.mem_singleton.mp h
    exact ⟨[], s, rfl, rfl, rfl⟩
  | cls k =>
    rw [ends] at h
    split at h
    · next hk =>
      obtain rfl := List.mem_singleton.mp h
      cases s with
      | nil => simp at hk
      | cons c s => exact ⟨[c], s, rfl, rfl, c, rfl, hk⟩
    · simp at h
  | seq r t ihr iht =>
    obtain ⟨m, hm, hn⟩ := List.mem_flatMap.mp h
    obtain ⟨n', hn', rfl⟩ := List.mem_map.mp hn
    obtain ⟨u, rest, rfl, rfl, hu⟩ := ihr hm
    rw [List.take_left, List.drop_left] at hn'
    obtain ⟨v, s', rfl, rfl, hv⟩ := iht hn'
    refine ⟨u ++ v, s', (List.append_assoc ..).symm, List.length_append, u, v, rfl, ?_, hv⟩
    rw [← List.head?_append]
    exact hu
  | alt r t ihr iht =>
    rcases List.mem_append.mp h with h | h
    · obtain ⟨w, s', hs, hw, hm⟩ := ihr h
      exact ⟨w, s', hs, hw, Or.inl hm⟩
    · obtain ⟨w, s', hs, hw, hm⟩ := iht h
      exact ⟨w, s', hs, hw, Or.inr hm⟩
  | rep greedy lo more r ih =>
    obtain ⟨w, s', k, hs, hw, hlo, hk, hiter⟩ := repEnds_sound (f := ends I r) (M := Matches I r)
      (fun _ _ _ => ih) (Nat.le_add_right _ _) h
    refine ⟨w, s', hs, hw, k, hlo, ?_, hiter⟩
    rintro m rfl
    exact hk
  | boundary =>
    rw [ends] at h
    split at h
    · next hb =>
      obtain rfl := List.mem_singleton.mp h
      exact ⟨[], s, rfl, rfl, rfl, hb⟩
    · simp at h
  | inside =>
    rw [ends] at h
    split at h
    · simp at h
    · next hb =>
      obtain rfl := List.mem_singleton.mp h
      exact ⟨[], s, rfl, rfl, rfl, Bool.eq_false_iff.mpr hb⟩
  | start =>
    rw [ends] at h
    split at h
    · next hb =>
      obtain rfl := List.mem_singleton.mp h
      exact ⟨[], s, rfl, rfl, rfl, Option.isNone_iff_eq_none.mp hb⟩
    · simp at h
  | stop =>
    rw [ends] at h
    split at h
    · next hb =>
      obtain rfl := List.mem_singleton.mp h
      rw [List.isEmpty_iff] at hb
      subst hb
      exact ⟨[], [], rfl, rfl, rfl, rfl⟩
    · simp at h

theorem ends_complete {r : Regex κ} {prev : Option α} {w s : List α} (h : Matches I r prev w s.head?) :
    w.length ∈ ends I r prev (w ++ s) := by
  induction r generalizing prev w s with
  | empty =>
    obtain rfl : w = [] := h
    exact List.mem_singleton_self 0
  | cls k =>
    obtain ⟨c, rfl, hk⟩ := h
    simp [ends, hk]
  | seq r t ihr iht =>
    obtain ⟨u, v, rfl, hu, hv⟩ := h
    rw [← List.head?_append] at hu
    rw [List.append_assoc]
    apply List.mem_flatMap.mpr
    refine ⟨u.length, ihr hu, ?_⟩
    rw [List.take_left, List.drop_left, List.length_append]
    exact List.mem_map_of_mem (iht hv)
  | alt r t ihr iht =>
    rcases h with h | h
    · exact List.mem_append_left _ (ihr h)
    · exact List.mem_append_right _ (iht h)
  | rep greedy lo more r ih =>
    obtain ⟨k, hlo, hmore, hiter⟩ := h
    apply repEnds_complete (f := ends I r) (M := Matches I r) (fun _ _ _ => ih) hlo _ hiter
    cases more with
    | none =>
      left
      simp
    | some m => exact Or.inr (hmore m rfl)
  | boundary | inside =>
    obtain ⟨rfl, hb⟩ := h
    simp [ends, hb]
  | start =>
    obtain ⟨rfl, rfl⟩ := h
    exact List.mem_singleton_self 0
  | stop =>
    obtain ⟨rfl, hb⟩ := h
    rw [List.head?_eq_none_iff] at hb
    subst hb
    exact List.mem_singleton_self 0

theorem ends_eq_nil {r : Regex κ} {prev : Option α} {s : List α} :
    ends I r prev s = [] ↔ ∀ w s', s = w ++ s' → ¬Matches I r prev w s'.head? := by
  constructor
  · rintro h w s' rfl hm
    have hmem := ends_complete hm
    rw [h] at hmem
    cases hmem
  · intro h
    rw [List.eq_nil_iff_forall_not_mem]
    intro n hn
    obtain ⟨w, s', hs, -, hm⟩ := ends_sound hn
    exact h w s' hs hm

def hasMatch (I : Reading κ α) (r : Regex κ) : Option α → List α → Bool
  | prev, [] => !(ends I r prev []).isEmpty
  | prev, c :: s => !(ends I r prev (c :: s)).isEmpty || hasMatch I r (some c) s

theorem hasMatch_iff {r : Regex κ} {prev : Option α} {s : List α} :
    hasMatch I r prev s = true ↔ ∃ a w b, s = a ++ (w ++ b) ∧ Matches I r (after prev a) w b.head? := by
  have hhere : ∀ (prev : Option α) (s : List α), (!(ends I r prev s).isEmpty) = true ↔
      ∃ w b, s = w ++ b ∧ Matches I r prev w b.head? := by
    intro prev s
    rw [Bool.not_eq_true', ← Bool.not_eq_true, List.isEmpty_iff, ends_eq_nil]
    push Not
    rfl
  induction s generalizing prev with
  | nil =>
    rw [hasMatch, hhere]
    constructor
    · rintro ⟨w, b, hs, hm⟩
      exact ⟨[], w, b, hs, hm⟩
    · rintro ⟨a, w, b, hs, hm⟩
      obtain ⟨rfl, -⟩ := List.append_eq_nil_iff.mp hs.symm
      exact ⟨w, b, hs, hm⟩
  | cons c s ih =>
    rw [hasMatch, Bool.or_eq_true, hhere]
    constructor
    · rintro (⟨w, b, hs, hm⟩ | h)
      · exact ⟨[], w, b, hs, hm⟩
      · obtain ⟨a, w, b, rfl, hm⟩ := ih.mp h
        refine ⟨c :: a, w, b, rfl, ?_⟩
        rw [← List.singleton_append, after_append]
        exact hm
    · rintro ⟨a, w, b, hs, hm⟩
      cases a with
      | nil => exact Or.inl ⟨w, b, hs, hm⟩
      | cons d a =>
        obtain ⟨rfl, rfl⟩ := List.cons.inj hs
        rw [← List.singleton_append, after_append] at hm
        exact Or.inr (ih.mpr ⟨a, w, b, rfl, hm⟩)

end Regex

end Fluent.Library
