import Fluent.Library.RegexReplace

namespace Fluent.Library

variable {κ α : Type*}

namespace Regex

def floating : Regex κ → Bool
  | seq r t | alt r t => r.floating && t.floating
  | rep _ _ _ r => r.floating
  | start | stop => false
  | _ => true

structure Avoids (I : Reading κ α) (o : α) (r : Regex κ) : Prop where
  floating : r.floating = true
  classes : ∀ k ∈ r.classes, I.holds k o = false

end Regex

def hitsOf (ps : List (Piece α)) : List (List α) :=
  ps.filterMap fun
    | .keep _ => none
    | .hit w => some w

theorem mem_hitsOf {ps : List (Piece α)} {w : List α} : w ∈ hitsOf ps ↔ .hit w ∈ ps := by
  unfold hitsOf
  rw [List.mem_filterMap]
  constructor
  · rintro ⟨p, hp, hw⟩
    cases p with
    | keep c => cases hw
    | hit v => exact Option.some.inj hw ▸ hp
  · exact fun h => ⟨.hit w, h, rfl⟩

theorem hitsOf_keep (w : List α) : hitsOf (w.map Piece.keep) = [] := by
  induction w with
  | nil => rfl
  | cons c w ih => exact ih

theorem eq_keep_of_hitsOf {ps : List (Piece α)} (h : hitsOf ps = []) : ps = (textOf ps).map .keep := by
  induction ps with
  | nil => rfl
  | cons p ps ih =>
    cases p with
    | keep c => exact congrArg _ (ih h)
    | hit w => cases h

def stretches : List (Piece α) → List α × List (List α)
  | [] => ([], [])
  | .keep c :: ps => (c :: (stretches ps).1, (stretches ps).2)
  | .hit _ :: ps => ([], (stretches ps).1 :: (stretches ps).2)

def joined (mark : List α) (xs : List α × List (List α)) : List α := xs.1 ++ xs.2.flatMap (mark ++ ·)

theorem renderAll_eq_joined (mark : List α) (ps : List (Piece α)) : renderAll mark ps = joined mark (stretches ps) := by
  induction ps with
  | nil => rfl
  | cons p ps ih =>
    cases p with
    | keep c => rw [renderAll_keep_cons, ih, stretches, joined, joined, List.cons_append]
    | hit m => rw [renderAll_hit_cons, ih, stretches, joined, joined, List.flatMap_cons, List.nil_append,
        List.append_assoc]

namespace Regex

variable {I : Reading κ α} {r : Regex κ} {o c : α} {inner : List α}

theorem ne_nil_of_mem_hits (hnull : r.nullable = false) {ended : Bool} {prev : Option α} {s w : List α}
    (hw : w ∈ hitsOf (pieces I r ended prev s)) : w ≠ [] := by
  obtain ⟨p, hp, hpw⟩ := List.mem_filterMap.mp hw
  cases p with
  | keep d => cases hpw
  | hit m =>
    obtain rfl := Option.some.inj hpw
    obtain ⟨pre, post, hps⟩ := List.append_of_mem hp
    have hfits : Fits I r prev (pieces I r ended prev s) := pieces_fits hnull _ _ _
    rw [hps] at hfits
    exact hfits.hit.ne_nil hnull

theorem hits_eq_nil_iff (hnull : r.nullable = false) (ended : Bool) (prev : Option α) (s : List α) :
    hitsOf (pieces I r ended prev s) = [] ↔ hasMatch I r prev s = false := by
  constructor
  · intro h
    rw [← Bool.not_eq_true, hasMatch_iff]
    rintro ⟨a, w, b, rfl, hm⟩
    have hfits : Fits I r prev (pieces I r ended prev (a ++ (w ++ b))) := pieces_fits hnull _ _ _
    rw [eq_keep_of_hitsOf h, textOf_pieces, List.map_append, List.map_append] at hfits
    apply hfits.not_matches (hm.ne_nil hnull)
    rw [textOf_keep, textOf_keep]
    exact hm
  · intro h
    rw [pieces_eq_keep h, hitsOf_keep]

end Regex

end Fluent.Library
