import Fluent.Library.RegexShape

namespace Fluent.Library

variable {κ α : Type*}

inductive Piece (α : Type*) where
  | keep (c : α)
  | hit (w : List α)
deriving DecidableEq

namespace Piece

def text : Piece α → List α
  | keep c => [c]
  | hit w => w

def render (mark : List α) : Piece α → List α
  | keep c => [c]
  | hit _ => mark

end Piece

def textOf (ps : List (Piece α)) : List α := ps.flatMap Piece.text

def renderAll (mark : List α) (ps : List (Piece α)) : List α := ps.flatMap (Piece.render mark)

theorem textOf_cons (p : Piece α) (ps : List (Piece α)) : textOf (p :: ps) = p.text ++ textOf ps :=
  List.flatMap_cons

theorem textOf_append (ps qs : List (Piece α)) : textOf (ps ++ qs) = textOf ps ++ textOf qs :=
  List.flatMap_append

theorem renderAll_keep_cons (mark : List α) (c : α) (ps : List (Piece α)) :
    renderAll mark (.keep c :: ps) = c :: renderAll mark ps := rfl

theorem renderAll_hit_cons (mark m : List α) (ps : List (Piece α)) :
    renderAll mark (.hit m :: ps) = mark ++ renderAll mark ps := rfl

theorem renderAll_append (mark : List α) (ps qs : List (Piece α)) :
    renderAll mark (ps ++ qs) = renderAll mark ps ++ renderAll mark qs := List.flatMap_append

theorem textOf_keep (w : List α) : textOf (w.map Piece.keep) = w := by
  induction w with
  | nil => rfl
  | cons c w ih => rw [List.map_cons, textOf_cons, ih, Piece.text, List.singleton_append]

theorem renderAll_keep (mark w : List α) : renderAll mark (w.map Piece.keep) = w := by
  induction w with
  | nil => rfl
  | cons c w ih => rw [List.map_cons, renderAll_keep_cons, ih]

namespace Regex

/-- The matches of `r` in `s` from left to right, each from where the one before ended. A match of the
empty text does not count where another one ended. -/
def pieces (I : Reading κ α) (r : Regex κ) (ended : Bool) (prev : Option α) : List α → List (Piece α)
  | [] => if (ends I r prev []).isEmpty || ended then [] else [.hit []]
  | c :: s =>
    match (ends I r prev (c :: s)).head? with
    | some (n + 1) => .hit (c :: s.take n) :: pieces I r true (after prev (c :: s.take n)) (s.drop n)
    | some 0 => (if ended then [] else [.hit []]) ++ .keep c :: pieces I r false (some c) s
    | none => .keep c :: pieces I r false (some c) s
termination_by s => s.length

def replaceAll (I : Reading κ α) (r : Regex κ) (mark s : List α) : List α :=
  renderAll mark (pieces I r false none s)

variable {I : Reading κ α} {r : Regex κ}

theorem textOf_pieces (ended : Bool) (prev : Option α) (s : List α) : textOf (pieces I r ended prev s) = s := by
  fun_induction pieces I r ended prev s with
  | case1 ended prev h => rfl
  | case2 ended prev h => rfl
  | case3 ended prev c s n h ih =>
    rw [textOf_cons, ih, Piece.text, List.cons_append, List.take_append_drop]
  | case4 ended prev c s h ih =>
    rw [textOf_append, textOf_cons, ih]
    cases ended
    · rfl
    · rfl
  | case5 ended prev c s h ih =>
    rw [textOf_cons, ih]
    rfl

def Good (I : Reading κ α) (r : Regex κ) (prev : Option α) : Piece α → List α → Prop
  | .keep c, rest => ends I r prev (c :: rest) = []
  | .hit w, rest => (ends I r prev (w ++ rest)).head? = some w.length

def Fits (I : Reading κ α) (r : Regex κ) : Option α → List (Piece α) → Prop
  | _, [] => True
  | prev, p :: ps => Good I r prev p (textOf ps) ∧ Fits I r (after prev p.text) ps

theorem Fits.of_append {prev : Option α} {ps qs : List (Piece α)} (h : Fits I r prev (ps ++ qs)) :
    Fits I r (after prev (textOf ps)) qs := by
  induction ps generalizing prev with
  | nil => exact h
  | cons p ps ih =>
    rw [textOf_cons, after_append]
    exact ih h.2

theorem Fits.hit {prev : Option α} {ps qs : List (Piece α)} {w : List α}
    (h : Fits I r prev (ps ++ .hit w :: qs)) : Matches I r (after prev (textOf ps)) w (textOf qs).head? := by
  have hhead : (ends I r (after prev (textOf ps)) (w ++ textOf qs)).head? = some w.length := h.of_append.1
  obtain ⟨w', s', hs, hw, hm⟩ := ends_sound (List.mem_of_head? hhead)
  obtain ⟨rfl, rfl⟩ := List.append_inj hs hw.symm
  exact hm

theorem Fits.not_matches {prev : Option α} {ps qs : List (Piece α)} {w : List α} (hw : w ≠ [])
    (h : Fits I r prev (ps ++ (w.map Piece.keep ++ qs))) :
    ¬Matches I r (after prev (textOf ps)) w (textOf qs).head? := by
  obtain ⟨c, w, rfl⟩ := List.exists_cons_of_ne_nil hw
  have hend : ends I r (after prev (textOf ps)) (c :: textOf (w.map Piece.keep ++ qs)) = [] := h.of_append.1
  rw [textOf_append, textOf_keep] at hend
  exact ends_eq_nil.mp hend (c :: w) (textOf qs) rfl

theorem pieces_fits (hr : r.nullable = false) (ended : Bool) (prev : Option α) (s : List α) :
    Fits I r prev (pieces I r ended prev s) := by
  have hpos : ∀ (prev : Option α) (s : List α), 0 ∉ ends I r prev s := by
    intro prev s h
    obtain ⟨w, s', -, hw, hm⟩ := ends_sound h
    exact hm.ne_nil hr (List.length_eq_zero_iff.mp hw)
  fun_induction pieces I r ended prev s with
  | case1 ended prev h => trivial
  | case2 ended prev h =>
    rw [Bool.or_eq_true, not_or, List.isEmpty_iff] at h
    obtain ⟨n, hn⟩ := List.exists_mem_of_ne_nil _ h.1
    obtain ⟨w, s', hs, -, hm⟩ := ends_sound hn
    exact absurd (List.append_eq_nil_iff.mp hs.symm).1 (hm.ne_nil hr)
  | case3 ended prev c s n h ih =>
    refine ⟨?_, ih⟩
    rw [textOf_pieces]
    have hle : n ≤ s.length := by
      obtain ⟨w, s', hs, hw, -⟩ := ends_sound (List.mem_of_head? h)
      have hlen := congrArg List.length hs
      rw [List.length_append, hw, List.length_cons] at hlen
      omega
    change (ends I r prev (c :: (s.take n ++ s.drop n))).head? = some (s.take n).length.succ
    rw [List.take_append_drop, List.length_take_of_le hle]
    exact h
  | case4 ended prev c s h ih => exact absurd (List.mem_of_head? h) (hpos _ _)
  | case5 ended prev c s h ih =>
    refine ⟨?_, ih⟩
    rw [textOf_pieces]
    exact List.head?_eq_none_iff.mp h

theorem pieces_eq_keep {prev : Option α} {s : List α} (h : hasMatch I r prev s = false) (ended : Bool) :
    pieces I r ended prev s = s.map Piece.keep := by
  induction s generalizing prev ended with
  | nil =>
    rw [hasMatch, Bool.not_eq_false'] at h
    rw [pieces, h, Bool.true_or, if_pos rfl]
    rfl
  | cons c s ih =>
    rw [hasMatch, Bool.or_eq_false_iff, Bool.not_eq_false', List.isEmpty_iff] at h
    rw [pieces, h.1, List.head?_nil, ih h.2]
    rfl

end Regex

structure Pattern (κ : Type*) where
  core : Regex κ
  isBounded : Bool

def Pattern.regex (p : Pattern κ) : Regex κ := if p.isBounded then Regex.bounded p.core else p.core

end Fluent.Library
