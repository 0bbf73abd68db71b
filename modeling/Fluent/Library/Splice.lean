import Fluent.Library.Utf8
import Mathlib.Data.List.Sort

namespace Fluent.Library

variable {τ : Type*}

def replaceRange (s : List Char) (start stop : ℕ) (new : List Char) : Option (List Char) :=
  if start ≤ stop then do
    let before ← sliceTo s start
    let rest ← sliceFrom s stop
    some (before ++ new ++ rest)
  else none

theorem replaceRange_append (a w b new : List Char) :
    replaceRange (a ++ (w ++ b)) (utf8Len a) (utf8Len a + utf8Len w) new = some (a ++ (new ++ b)) := by
  have hrest : sliceFrom (a ++ (w ++ b)) (utf8Len a + utf8Len w) = some b := by
    rw [← utf8Len_append, ← List.append_assoc]
    exact sliceFrom_append _ _
  simp [replaceRange, sliceTo_append, hrest]

section Edits

variable (start stop : τ → ℕ) (new : τ → List Char)

def replaceEach (edits : List τ) (s : List Char) : Option (List Char) :=
  edits.foldlM (fun s m => replaceRange s (start m) (stop m) (new m)) s

def rightmostFirst (edits : List τ) : List τ := edits.mergeSort fun a b => start b ≤ start a

inductive Covers : ℕ → List τ → List Char → List Char → Prop where
  | done (pos : ℕ) (s : List Char) : Covers pos [] s s
  | keep {pos : ℕ} {edits : List τ} {s out : List Char} (c : Char) (h : Covers (pos + c.utf8Size) edits s out) :
      Covers pos edits (c :: s) (c :: out)
  | edit {pos : ℕ} {edits : List τ} {s out : List Char} (m : τ) (w : List Char) (hw : w ≠ []) (hstart : start m = pos)
      (hstop : stop m = pos + utf8Len w) (h : Covers (pos + utf8Len w) edits s out) :
      Covers pos (m :: edits) (w ++ s) (new m ++ out)

variable {start stop new} {pos : ℕ} {edits : List τ} {s out : List Char}

theorem Covers.keepAll (w : List Char) (h : Covers start stop new (pos + utf8Len w) edits s out) :
    Covers start stop new pos edits (w ++ s) (w ++ out) := by
  induction w generalizing pos with
  | nil => exact h
  | cons c w ih =>
    refine .keep c (ih ?_)
    rw [utf8Len_cons, ← Nat.add_assoc] at h
    exact h

theorem Covers.replaceEach_reverse (h : Covers start stop new pos edits s out) (p : List Char) (hp : utf8Len p = pos) :
    replaceEach start stop new edits.reverse (p ++ s) = some (p ++ out) := by
  induction h generalizing p with
  | done pos s => rfl
  | keep c h ih =>
    have := ih (p ++ [c]) (by rw [utf8Len_append, hp]; rfl)
    simpa using this
  | edit m w hw hstart hstop h ih =>
    have hrest := ih (p ++ w) (by rw [utf8Len_append, hp])
    rw [List.append_assoc, List.append_assoc] at hrest
    unfold replaceEach at hrest ⊢
    rw [List.reverse_cons, List.foldlM_append, hrest]
    change replaceRange _ (start m) (stop m) (new m) >>= some = _
    rw [hstart, hstop, ← hp, replaceRange_append]
    rfl

theorem Covers.le_start (h : Covers start stop new pos edits s out) : ∀ m ∈ edits, pos ≤ start m := by
  induction h with
  | done pos s => simp
  | keep c h ih => exact fun m hm => (Nat.le_add_right _ _).trans (ih m hm)
  | edit m w hw hstart hstop h ih =>
    intro m' hm'
    rcases List.mem_cons.mp hm' with rfl | hm'
    · exact hstart.ge
    · exact (Nat.le_add_right _ _).trans (ih m' hm')

theorem Covers.pairwise (h : Covers start stop new pos edits s out) : edits.Pairwise fun a b => start a < start b := by
  induction h with
  | done pos s => exact .nil
  | keep c h ih => exact ih
  | edit m w hw hstart hstop h ih =>
    refine .cons (fun m' hm' => ?_) ih
    have hle := h.le_start m' hm'
    have hpos := utf8Len_pos hw
    omega

theorem rightmostFirst_perm (start : τ → ℕ) (edits : List τ) : (rightmostFirst start edits).Perm edits := List.mergeSort_perm _ _

theorem rightmostFirst_sorted (edits : List τ) : (rightmostFirst start edits).Pairwise fun a b => start b ≤ start a := by
  have hbool : (rightmostFirst start edits).Pairwise fun a b => decide (start b ≤ start a) = true :=
    List.pairwise_mergeSort (fun a b c => by simpa using fun hab hbc => hbc.trans hab)
      (fun a b => by simpa using Nat.le_total _ _) edits
  exact hbool.imp of_decide_eq_true

theorem rightmostFirst_of_pairwise (h : edits.Pairwise fun a b => start a < start b) :
    rightmostFirst start edits = edits.reverse := by
  have hnodup : (edits.map start).Nodup := List.pairwise_map.mpr (h.imp Nat.ne_of_lt)
  have hreverse : edits.reverse.Pairwise fun a b => start b ≤ start a :=
    List.pairwise_reverse.mpr (h.imp Nat.le_of_lt)
  have hperm := rightmostFirst_perm start edits
  apply List.Perm.eq_of_pairwise _ (rightmostFirst_sorted edits) hreverse (hperm.trans edits.reverse_perm.symm)
  intro a b ha hb hab hba
  exact List.inj_on_of_nodup_map hnodup (hperm.mem_iff.mp ha) (List.mem_reverse.mp hb) (Nat.le_antisymm hba hab)

theorem Covers.replaceEach (h : Covers start stop new pos edits s out) (p : List Char) (hp : utf8Len p = pos) :
    replaceEach start stop new (rightmostFirst start edits) (p ++ s) = some (p ++ out) := by
  rw [rightmostFirst_of_pairwise h.pairwise]
  exact h.replaceEach_reverse p hp

end Edits

def slice (s : List Char) (start stop : ℕ) : Option (List Char) := (sliceTo s stop).bind fun t => sliceFrom t start

theorem sliceTo_eq_some {s p : List Char} {n : ℕ} : sliceTo s n = some p ↔ p <+: s ∧ utf8Len p = n := by
  constructor
  · induction s generalizing p n with
    | nil =>
      intro h
      cases n with
      | zero =>
        obtain rfl := Option.some.inj h
        exact ⟨List.nil_prefix, rfl⟩
      | succ n => cases h
    | cons c s ih =>
      intro h
      cases n with
      | zero =>
        obtain rfl := Option.some.inj h
        exact ⟨List.nil_prefix, rfl⟩
      | succ n =>
        rw [sliceTo] at h
        split at h
        · obtain ⟨q, hq, rfl⟩ := Option.map_eq_some_iff.mp h
          obtain ⟨hpref, hlen⟩ := ih hq
          refine ⟨List.cons_prefix_cons.mpr ⟨rfl, hpref⟩, ?_⟩
          rw [utf8Len_cons, hlen]
          omega
        · cases h
  · rintro ⟨⟨q, rfl⟩, rfl⟩
    exact sliceTo_append p q

theorem sliceFrom_eq_some {s q : List Char} {n : ℕ} : sliceFrom s n = some q ↔ ∃ p, s = p ++ q ∧ utf8Len p = n := by
  constructor
  · induction s generalizing n with
    | nil =>
      intro h
      cases n with
      | zero => exact ⟨[], Option.some.inj h, rfl⟩
      | succ n => cases h
    | cons c s ih =>
      intro h
      cases n with
      | zero => exact ⟨[], Option.some.inj h, rfl⟩
      | succ n =>
        rw [sliceFrom] at h
        split at h
        · obtain ⟨p, rfl, hlen⟩ := ih h
          refine ⟨c :: p, rfl, ?_⟩
          rw [utf8Len_cons, hlen]
          omega
        · cases h
  · rintro ⟨p, rfl, rfl⟩
    exact sliceFrom_append p q

theorem slice_eq_some {s w : List Char} {start stop : ℕ} :
    slice s start stop = some w ↔ ∃ a b, s = a ++ (w ++ b) ∧ utf8Len a = start ∧ utf8Len a + utf8Len w = stop := by
  rw [slice, Option.bind_eq_some_iff]
  constructor
  · rintro ⟨t, ht, hw⟩
    obtain ⟨⟨b, rfl⟩, rfl⟩ := sliceTo_eq_some.mp ht
    obtain ⟨a, rfl, rfl⟩ := sliceFrom_eq_some.mp hw
    exact ⟨a, b, List.append_assoc .., rfl, (utf8Len_append a w).symm⟩
  · rintro ⟨a, b, rfl, rfl, rfl⟩
    refine ⟨a ++ w, sliceTo_eq_some.mpr ⟨?_, utf8Len_append a w⟩, sliceFrom_append a w⟩
    rw [← List.append_assoc]
    exact List.prefix_append _ _

theorem sliceTo_append_left {p : List Char} {n : ℕ} (hn : n ≤ utf8Len p) (x : List Char) :
    sliceTo (p ++ x) n = sliceTo p n := by
  induction p generalizing n with
  | nil =>
    obtain rfl : n = 0 := Nat.le_zero.mp hn
    cases x with
    | nil => rfl
    | cons c x => rfl
  | cons c p ih =>
    cases n with
    | zero => rfl
    | succ n =>
      rw [utf8Len_cons] at hn
      rw [List.cons_append, sliceTo, sliceTo, ih (by omega)]

theorem slice_append_left {p : List Char} {start stop : ℕ} (hstop : stop ≤ utf8Len p) (x y : List Char) :
    slice (p ++ x) start stop = slice (p ++ y) start stop := by
  rw [slice, slice, sliceTo_append_left hstop, sliceTo_append_left hstop]

section Own

variable (start stop : τ → ℕ) (old new : τ → List Char)

def replaceOwn (edits : List τ) (s : List Char) : Option (List Char) :=
  edits.foldlM (fun s m =>
    if slice s (start m) (stop m) = some (old m) then replaceRange s (start m) (stop m) (new m) else none) s

def EditsApart (a b : τ) : Prop :=
  stop a ≤ start b ∧ start a < start b ∨ stop b ≤ start a ∧ start b < start a

instance (a b : τ) : Decidable (EditsApart start stop a b) := inferInstanceAs (Decidable (_ ∨ _))

variable {start stop old new} {edits : List τ} {s out : List Char}

theorem replaceEach_of_replaceOwn (h : replaceOwn start stop old new edits s = some out) :
    replaceEach start stop new edits s = some out := by
  induction edits generalizing s with
  | nil => exact h
  | cons m edits ih =>
    unfold replaceOwn at h
    rw [List.foldlM_cons] at h
    obtain ⟨s', hs', h⟩ := Option.bind_eq_some_iff.mp h
    split at hs'
    · unfold replaceEach
      rw [List.foldlM_cons, hs']
      exact ih h
    · cases hs'

theorem isSome_replaceOwn (hsorted : edits.Pairwise fun a b => stop b ≤ start a) :
    (replaceOwn start stop old new edits s).isSome ↔ ∀ m ∈ edits, slice s (start m) (stop m) = some (old m) := by
  induction edits generalizing s with
  | nil => exact iff_of_true rfl fun m hm => absurd hm List.not_mem_nil
  | cons m edits ih =>
    rw [List.pairwise_cons] at hsorted
    unfold replaceOwn
    rw [List.foldlM_cons, List.forall_mem_cons]
    by_cases hm : slice s (start m) (stop m) = some (old m)
    · obtain ⟨a, b, rfl, ha, hw⟩ := slice_eq_some.mp hm
      have hreplace : replaceRange (a ++ (old m ++ b)) (start m) (stop m) (new m) = some (a ++ (new m ++ b)) := by
        rw [← ha, ← hw]
        exact replaceRange_append a (old m) b (new m)
      rw [if_pos hm, hreplace, and_iff_right hm]
      have hrest : ∀ m' ∈ edits, slice (a ++ (new m ++ b)) (start m') (stop m') =
          slice (a ++ (old m ++ b)) (start m') (stop m') :=
        fun m' hm' => slice_append_left ((hsorted.1 m' hm').trans_eq ha.symm) _ _
      refine (ih hsorted.2).trans ⟨fun h m' hm' => ?_, fun h m' hm' => ?_⟩
      · rw [← hrest m' hm']
        exact h m' hm'
      · rw [hrest m' hm']
        exact h m' hm'
    · rw [if_neg hm]
      exact iff_of_false Bool.false_ne_true fun h => hm h.1

theorem rightmostFirst_apart (hapart : edits.Pairwise (EditsApart start stop)) :
    (rightmostFirst start edits).Pairwise fun a b => stop b ≤ start a := by
  have hsymm : ∀ {a b : τ}, EditsApart start stop a b → EditsApart start stop b a := fun h => h.symm
  have hperm := rightmostFirst_perm start edits
  refine ((hperm.pairwise_iff hsymm).mpr hapart).imp₂ (fun a b hab hle => ?_) (rightmostFirst_sorted edits)
  rcases hab with ⟨-, hlt⟩ | ⟨hstop, -⟩
  · omega
  · exact hstop

theorem isSome_replaceOwn_rightmostFirst (hapart : edits.Pairwise (EditsApart start stop)) :
    (replaceOwn start stop old new (rightmostFirst start edits) s).isSome ↔
      ∀ m ∈ edits, slice s (start m) (stop m) = some (old m) := by
  have hperm := rightmostFirst_perm start edits
  rw [isSome_replaceOwn (rightmostFirst_apart hapart)]
  exact ⟨fun h m hm => h m (hperm.mem_iff.mpr hm), fun h m hm => h m (hperm.mem_iff.mp hm)⟩

end Own

end Fluent.Library
