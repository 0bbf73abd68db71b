import Fluent.Library.JsonText
import Fluent.Library.Settle
import Fluent.Wvr.Boundary

namespace Fluent.Wvr

open Fluent.Library Fluent.Library.JsonText
open Fluent.Spacy (Text isWhitespace)

variable (opts : BoundaryOptions)

theorem singleQuoted_rest_length (ks : Option Text) (out : Text) (members : List (Text × Text)) (escaped : Bool)
    (t : Text) : (singleQuoted opts ks out members escaped t).rest.length ≤ t.length := by
  induction t generalizing out escaped with
  | nil => exact le_rfl
  | cons c t ih =>
    simp only [singleQuoted, apply_ite SingleQuoted.rest]
    split_ifs <;> first | exact Nat.le_succ _ | exact (ih _ _).trans (Nat.le_succ _)

theorem singleQuoteStep_rest_length (s : WalkState) (t : Text) :
    (singleQuoteStep opts s t).rest.length ≤ t.length := by
  simp only [singleQuoteStep]
  split_ifs <;> exact singleQuoted_rest_length ..

theorem skipBlock_length (t : Text) : (skipBlock t).length ≤ t.length := by
  induction t with
  | nil => exact le_rfl
  | cons c t ih =>
    cases t with
    | nil => exact Nat.zero_le _
    | cons d t =>
      rw [skipBlock]
      split_ifs
      · simp only [List.length_cons]
        omega
      · exact ih.trans (Nat.le_succ _)

theorem commentStep_length (t : Text) : (commentStep t).length ≤ t.length := by
  unfold commentStep
  split
  · exact (List.dropWhile_suffix _).length_le.trans (Nat.le_succ _)
  · exact (skipBlock_length _).trans (Nat.le_succ _)
  · exact le_rfl

theorem isIdentChar_of_isIdentStart {c : Char} (hc : isIdentStart c = true) : isIdentChar c = true := by
  simp only [isIdentStart, isIdentChar, Char.isAlphanum, Bool.or_eq_true] at hc ⊢
  tauto

theorem identStep_rest_length (s : WalkState) {c : Char} (hc : isIdentStart c = true) (t : Text) :
    (identStep opts s (c :: t)).rest.length ≤ t.length := by
  have hle : ((c :: t).dropWhile isIdentChar).length ≤ t.length := by
    rw [List.dropWhile_cons_of_pos (isIdentChar_of_isIdentStart hc)]
    exact (List.dropWhile_suffix _).length_le
  rw [identStep]
  split
  · exact (List.dropWhile_suffix _).length_le.trans hle
  · exact hle

theorem outsideStep_rest_length (s : WalkState) (c : Char) (t : Text) :
    (outsideStep opts s c t).rest.length ≤ t.length := by
  simp only [outsideStep, apply_ite WalkState.rest, ite_self]
  split_ifs
  · exact le_rfl
  · exact singleQuoteStep_rest_length opts s t
  · exact commentStep_length t
  · exact le_rfl
  · exact (List.dropWhile_suffix _).length_le
  · exact le_rfl
  · exact identStep_rest_length opts s ‹_› t
  all_goals exact le_rfl

theorem shrinks_walkStep : Shrinks (walkStep opts) fun s => s.rest.length where
  stays s h := by rw [walkStep, List.eq_nil_of_length_eq_zero h]
  shrinks s h := by
    obtain ⟨c, t, hrest⟩ := List.exists_cons_of_length_pos (Nat.pos_of_ne_zero h)
    simp only [walkStep, hrest, List.length_cons]
    split_ifs
    · exact Nat.lt_succ_self _
    · exact Nat.lt_succ_of_le (outsideStep_rest_length opts s c t)

def finish (s : WalkState) : WalkState := settle (walkStep opts) (fun s => s.rest.length) s

theorem walk_eq (raw : Text) : walk opts raw = ((finish opts (.start raw)).out, (finish opts (.start raw)).members) := rfl

theorem finish_walkStep (s : WalkState) : finish opts (walkStep opts s) = finish opts s :=
  (shrinks_walkStep opts).settle_step s

def outside (rest out : Text) (members : List (Text × Text)) (depth : ℕ) : WalkState :=
  ⟨rest, out, members, false, false, depth, none⟩

def inside (rest out : Text) (members : List (Text × Text)) (depth : ℕ) (key : Option (Text × Text)) : WalkState :=
  ⟨rest, out, members, true, false, depth, key⟩

section Tokens

variable (t out : Text) (members : List (Text × Text)) (depth : ℕ)

theorem finish_outside (c : Char) : finish opts (outside (c :: t) out members depth) =
    finish opts (outsideStep opts (outside (c :: t) out members depth) c t) :=
  (finish_walkStep opts _).symm

theorem finish_inside (c : Char) (key : Option (Text × Text)) :
    finish opts (inside (c :: t) out members depth key) =
      finish opts (stringStep opts (inside (c :: t) out members depth key) c t) :=
  (finish_walkStep opts _).symm

def Copied (c : Char) : Prop :=
  c ∉ ['"', '\'', '/', ',', '-', '=', ';', '{', '[', '}', ']'] ∧ isIdentStart c = false

instance (c : Char) : Decidable (Copied c) := inferInstanceAs (Decidable (_ ∧ _))

theorem finish_copied {c : Char} (hc : Copied c) : finish opts (outside (c :: t) out members depth) =
    finish opts (outside t (out ++ [c]) members depth) := by
  obtain ⟨hmem, hident⟩ := hc
  simp only [List.mem_cons, List.not_mem_nil, or_false, not_or] at hmem
  rw [finish_outside]
  simp [outsideStep, outside, hmem, hident]

theorem finish_all_copied {a : Text} (ha : ∀ c ∈ a, Copied c) (t out : Text) :
    finish opts (outside (a ++ t) out members depth) = finish opts (outside t (out ++ a) members depth) := by
  induction a generalizing out with
  | nil => rw [List.nil_append, List.append_nil]
  | cons c a ih =>
    obtain ⟨hc, ha⟩ := List.forall_mem_cons.mp ha
    rw [List.cons_append, finish_copied opts _ _ _ _ hc, ih ha, List.append_assoc, List.singleton_append]

theorem finish_opening (b : Bracket) : finish opts (outside (b.opening :: t) out members depth) =
    finish opts (outside t (out ++ [b.opening]) members (depth + 1)) := by
  rw [finish_outside]
  cases b <;> rfl

theorem finish_closing (b : Bracket) : finish opts (outside (b.closing :: t) out members (depth + 1)) =
    finish opts (outside t (out ++ [b.closing]) members depth) := by
  rw [finish_outside]
  cases b <;> rfl

theorem finish_comma (ht : Opens t) : finish opts (outside (',' :: t) out members depth) =
    finish opts (outside t (out ++ [',']) members depth) := by
  obtain ⟨ws, c, rest, rfl, hc⟩ := ht
  have hwhite : ∀ w : Space, isWhitespace w.char = true := by intro w; cases w <;> decide
  have hstart : ∀ c ∈ valueStarts, isWhitespace c = false ∧ c ≠ '}' ∧ c ≠ ']' := by decide
  obtain ⟨hc, hcurly, hsquare⟩ := hstart c hc
  have hnext : ((spaces ws ++ c :: rest).dropWhile isWhitespace).head? = some c := by
    rw [List.dropWhile_append_of_pos, List.dropWhile_cons_of_neg (by simp [hc]), List.head?_cons]
    intro a ha
    obtain ⟨w, -, rfl⟩ := List.mem_map.mp ha
    exact hwhite w
  rw [finish_outside]
  simp [outsideStep, outside, hnext, hcurly, hsquare]

theorem finish_raw {c : Char} (hquote : c ≠ '"') (hback : c ≠ '\\') (key : Option (Text × Text)) :
    finish opts (inside (c :: t) out members depth key) =
      finish opts (inside t (out ++ (escapedChar c).getD [c]) members depth (key.map fun k => (k.1, c :: t))) := by
  rw [finish_inside]
  simp [stringStep, inside, hquote, hback]

theorem finish_escape (c : Char) : finish opts (inside ('\\' :: c :: t) out members depth none) =
    finish opts (inside t (out ++ ['\\', c]) members depth none) := by
  have hout : out ++ ['\\', c] = out ++ ['\\'] ++ [c] := by simp
  rw [finish_inside, ← finish_walkStep, hout]
  rfl

theorem finish_close : finish opts (inside ('"' :: t) out members depth none) =
    finish opts (outside t (out ++ ['"']) members depth) := by
  rw [finish_inside]
  rfl

def healedItem : Item → Text
  | .raw c => (escapedChar c.val).getD [c.val]
  | i => i.render

def healedItems (s : List Item) : Text := s.flatMap healedItem

theorem escapedChar_hex : ∀ h : Hex, escapedChar h.char = none
  | ⟨value, upper⟩ => by
    revert value upper
    decide

theorem finish_hex (h : Hex) : finish opts (inside (h.char :: t) out members depth none) =
    finish opts (inside t (out ++ [h.char]) members depth none) := by
  rw [finish_raw opts _ _ _ _ h.char_plain.1 h.char_plain.2, escapedChar_hex]
  rfl

theorem finish_item (i : Item) : finish opts (inside (i.render ++ t) out members depth none) =
    finish opts (inside t (out ++ healedItem i) members depth none) := by
  cases i with
  | raw c => exact finish_raw opts _ _ _ _ c.2.2.1 c.2.2.2 none
  | short e => exact finish_escape opts _ _ _ _ _
  | unicode a b c d =>
    simp only [Item.render, healedItem, List.cons_append, List.nil_append]
    rw [finish_escape, finish_hex, finish_hex, finish_hex, finish_hex]
    simp

theorem finish_items (s : List Item) (t out : Text) :
    finish opts (inside (renderItems s ++ t) out members depth none) =
      finish opts (inside t (out ++ healedItems s) members depth none) := by
  induction s generalizing out with
  | nil => simp [renderItems, healedItems]
  | cons i s ih =>
    rw [renderItems, List.flatMap_cons, List.append_assoc, finish_item, ← renderItems, ih, List.append_assoc]
    rfl

theorem finish_quoted (hkey : maybeKey opts (outside t out members depth) = false) (s : List Item) :
    finish opts (outside (quoted (renderItems s) ++ t) out members depth) =
      finish opts (outside t (out ++ quoted (healedItems s)) members depth) := by
  have hopen : finish opts (outside (quoted (renderItems s) ++ t) out members depth) =
      finish opts (inside (renderItems s ++ '"' :: t) (out ++ ['"']) members depth none) := by
    have hkey' : maybeKey opts (outside (quoted (renderItems s) ++ t) out members depth) = false := hkey
    simp only [quoted, List.cons_append, List.append_assoc, List.nil_append] at hkey' ⊢
    rw [finish_outside, outsideStep, if_pos rfl, hkey']
    rfl
  rw [hopen, finish_items, finish_close]
  simp [quoted]

theorem finish_ident {c : Char} (hc : isIdentStart c = true) : finish opts (outside (c :: t) out members depth) =
    finish opts (identStep opts (outside (c :: t) out members depth) (c :: t)) := by
  have hspecial : ∀ x ∈ ['"', '\'', '/', ',', '-'], isIdentStart x = false := by decide
  have hmem : c ∉ ['"', '\'', '/', ',', '-'] := by
    intro h
    exact Bool.false_ne_true ((hspecial c h).symm.trans hc)
  simp only [List.mem_cons, List.not_mem_nil, or_false, not_or] at hmem
  rw [finish_outside]
  simp [outsideStep, hmem, hc]

def Stops (t : Text) : Prop := (∀ c ∈ t.head?, isIdentChar c = false) ∧ afterSeparator t = none

theorem finish_word (hopts : opts.allowBareLiterals = true) (ht : Stops t) {c : Char} {w : Text}
    (hc : isIdentStart c = true) (hw : ∀ x ∈ w, isIdentChar x = true) :
    finish opts (outside (c :: w ++ t) out members depth) =
      finish opts (outside t (out ++ literalText (c :: w)) members depth) := by
  have hall : ∀ x ∈ c :: w, isIdentChar x = true :=
    List.forall_mem_cons.mpr ⟨isIdentChar_of_isIdentStart hc, hw⟩
  obtain ⟨hhead, hsep⟩ := ht
  have htake : t.takeWhile isIdentChar = [] := by
    cases t with
    | nil => rfl
    | cons x t => exact List.takeWhile_cons_of_neg (by simp [hhead x rfl])
  have hdrop : t.dropWhile isIdentChar = t := by
    cases t with
    | nil => rfl
    | cons x t => exact List.dropWhile_cons_of_neg (by simp [hhead x rfl])
  rw [List.cons_append, finish_ident opts _ _ _ _ hc, ← List.cons_append]
  simp only [identStep, List.takeWhile_append_of_pos hall, List.dropWhile_append_of_pos hall, htake, hdrop, hsep,
    List.append_nil, hopts, if_true]
  rfl

theorem stops_of_ends {t : Text} (ht : Ends t) : Stops t := by
  obtain ⟨ws, rest, rfl, hrest⟩ := ht
  have hident : ∀ w : Space, isIdentChar w.char = false := by intro w; cases w <;> decide
  have hwhite : ∀ w : Space, isWhitespace w.char = true := by intro w; cases w <;> decide
  have hsep : afterSeparator rest = none := by
    cases rest with
    | nil => rfl
    | cons c rest => obtain rfl | rfl | rfl := hrest c rfl <;> rfl
  induction ws with
  | nil =>
    refine ⟨fun c hc => ?_, hsep⟩
    obtain rfl | rfl | rfl := hrest c hc <;> decide
  | cons w ws ih =>
    refine ⟨fun c hc => ?_, ?_⟩
    · obtain rfl := Option.some.inj hc
      exact hident w
    · rw [afterSeparator, spaces_cons, List.cons_append, List.dropWhile_cons_of_pos (hwhite w)]
      exact ih.2

theorem finish_bool (hopts : opts.allowBareLiterals = true) (ht : Ends t) (b : Bool) :
    finish opts (outside (boolText b ++ t) out members depth) =
      finish opts (outside t (out ++ boolText b) members depth) := by
  cases b with
  | true => exact finish_word opts _ _ _ _ hopts (stops_of_ends ht) (by decide) (by decide)
  | false => exact finish_word opts _ _ _ _ hopts (stops_of_ends ht) (by decide) (by decide)

theorem finish_null (hopts : opts.allowBareLiterals = true) (ht : Ends t) :
    finish opts (outside (nullText ++ t) out members depth) = finish opts (outside t (out ++ nullText) members depth) :=
  finish_word opts _ _ _ _ hopts (stops_of_ends ht) (by decide) (by decide)

theorem copied_digits {c : Char} {ds : List (Fin 10)} (hc : c ∈ digits ds) : Copied c := by
  have hdigit : ∀ d : Fin 10, Copied (digit d) := by decide
  obtain ⟨d, -, rfl⟩ := List.mem_map.mp hc
  exact hdigit d

theorem copied_unsigned (n : Number) : ∀ c ∈ n.unsigned, Copied c := by
  refine List.forall_mem_append.mpr ⟨?_, ?_⟩
  · obtain ⟨d, ds, h⟩ := n.whole.render_eq_cons
    rw [h]
    exact fun c hc => @copied_digits c (d :: ds) hc
  · split
    · exact fun c hc => (List.not_mem_nil hc).elim
    · exact List.forall_mem_cons.mpr ⟨by decide, fun c hc => copied_digits hc⟩

theorem finish_minus (d : Fin 10) : finish opts (outside ('-' :: digit d :: t) out members depth) =
    finish opts (outside (digit d :: t) (out ++ ['-']) members depth) := by
  have hword : ∀ d : Fin 10, isWordChar (digit d) = true ∧ digit d ≠ 'I' ∧ digit d ≠ 'N' := by decide
  obtain ⟨hd, hI, hN⟩ := hword d
  rw [finish_outside]
  simp [outsideStep, outside, List.takeWhile_cons_of_pos hd, hI, hN]

theorem finish_mantissa (n : Number) : finish opts (outside (n.mantissa ++ t) out members depth) =
    finish opts (outside t (out ++ n.mantissa) members depth) := by
  rw [Number.mantissa]
  split_ifs
  · obtain ⟨d, ds, h⟩ := n.unsigned_eq_cons
    have hunsigned := finish_all_copied opts members depth (copied_unsigned n) t (out ++ ['-'])
    rw [h] at hunsigned ⊢
    rw [List.cons_append, List.cons_append, finish_minus, ← List.cons_append, hunsigned, List.append_assoc]
    rfl
  · exact finish_all_copied opts members depth (copied_unsigned n) t out

def healedExponent (e : Exponent) : Text :=
  match e.negative with
  | none => quoted (e.letter :: e.magnitude)
  | some negative => quoted [e.letter] ++ signChar negative :: e.magnitude

theorem trim_eq_self {w : Text} (hw : ∀ c ∈ w, isWhitespace c = false) : w.trim = w := by
  have hdrop : ∀ w : Text, (∀ c ∈ w, isWhitespace c = false) → w.dropWhile isWhitespace = w := by
    intro w hw
    cases w with
    | nil => rfl
    | cons c w => exact List.dropWhile_cons_of_neg (by simp [hw c List.mem_cons_self])
  rw [Text.trim, hdrop w hw, hdrop w.reverse fun c hc => hw c (List.mem_reverse.mp hc), List.reverse_reverse]

theorem literalText_letter (e : Exponent) (ds : List (Fin 10)) :
    literalText (e.letter :: digits ds) = quoted (e.letter :: digits ds) := by
  have hwhite : ∀ c ∈ e.letter :: digits ds, isWhitespace c = false := by
    have hdigit : ∀ d : Fin 10, isWhitespace (digit d) = false := by decide
    refine List.forall_mem_cons.mpr ⟨by rw [Exponent.letter]; split <;> decide, fun c hc => ?_⟩
    obtain ⟨d, -, rfl⟩ := List.mem_map.mp hc
    exact hdigit d
  have hkind : literalKind (e.letter :: digits ds) = .text := by
    rw [literalKind, trim_eq_self hwhite, Exponent.letter]
    split <;> simp [isNullLiteral]
  rw [literalText, hkind]
  rfl

theorem finish_digits (ds : List (Fin 10)) (t out : Text) :
    finish opts (outside (digits ds ++ t) out members depth) =
      finish opts (outside t (out ++ digits ds) members depth) :=
  finish_all_copied opts members depth (fun _ hc => copied_digits hc) t out

theorem finish_signed (negative : Bool) (e : Exponent) (t out : Text) :
    finish opts (outside (signChar negative :: e.magnitude ++ t) out members depth) =
      finish opts (outside t (out ++ signChar negative :: e.magnitude) members depth) := by
  have hdigits := finish_digits opts members depth (e.first :: e.more) t (out ++ [signChar negative])
  rw [List.append_assoc, List.singleton_append] at hdigits
  cases negative with
  | false => exact (finish_copied opts _ _ _ _ (by decide)).trans hdigits
  | true => exact (finish_minus opts _ _ _ _ e.first).trans hdigits

theorem finish_exponent (hopts : opts.allowBareLiterals = true) (ht : Ends t) (e : Exponent) :
    finish opts (outside (e.render ++ t) out members depth) =
      finish opts (outside t (out ++ healedExponent e) members depth) := by
  have hletter : isIdentStart e.letter = true := by
    rw [Exponent.letter]
    split <;> decide
  have hdigits : ∀ c ∈ e.magnitude, isIdentChar c = true := by
    have hdigit : ∀ d : Fin 10, isIdentChar (digit d) = true := by decide
    intro c hc
    obtain ⟨d, -, rfl⟩ := List.mem_map.mp hc
    exact hdigit d
  cases hneg : e.negative with
  | none =>
    simp only [Exponent.render, healedExponent, hneg]
    rw [finish_word opts t out members depth hopts (stops_of_ends ht) hletter hdigits, Exponent.magnitude,
      literalText_letter]
  | some negative =>
    have hsign : Stops (signChar negative :: e.magnitude ++ t) := by
      cases negative <;> exact ⟨fun c hc => by obtain rfl := Option.some.inj hc; decide, rfl⟩
    have hword := finish_word opts _ out members depth hopts hsign hletter (w := []) (by simp)
    have hquoted : literalText [e.letter] = quoted [e.letter] := literalText_letter e []
    rw [finish_signed, hquoted] at hword
    simp only [Exponent.render, healedExponent, hneg]
    rw [← List.append_assoc]
    exact hword

def healedNumber (n : Number) : Text :=
  n.mantissa ++
    match n.exponent with
    | none => []
    | some e => healedExponent e

theorem finish_number (hopts : opts.allowBareLiterals = true) (ht : Ends t) (n : Number) :
    finish opts (outside (n.render ++ t) out members depth) =
      finish opts (outside t (out ++ healedNumber n) members depth) := by
  rw [Number.render, healedNumber, Number.power, List.append_assoc, finish_mantissa]
  cases n.exponent with
  | none => rw [List.append_nil, List.nil_append]
  | some e => rw [finish_exponent opts _ _ _ _ hopts ht, List.append_assoc]

def healedScalar : Scalar → Text
  | .number n => healedNumber n
  | .string s => quoted (healedItems s)
  | s => s.render

theorem finish_scalar (hopts : opts.allowBareLiterals = true) (ht : Ends t)
    (hkey : maybeKey opts (outside t out members depth) = false) (s : Scalar) :
    finish opts (outside (s.render ++ t) out members depth) =
      finish opts (outside t (out ++ healedScalar s) members depth) := by
  cases s with
  | null => exact finish_null opts _ _ _ _ hopts ht
  | bool b => exact finish_bool opts _ _ _ _ hopts ht b
  | number n => exact finish_number opts _ _ _ _ hopts ht n
  | string s => exact finish_quoted opts _ _ _ _ hkey s

theorem copied_space (w : Space) : Copied w.char := by
  cases w <;> decide

theorem finish_spaces (ws : List Space) (t out : Text) : finish opts (outside (spaces ws ++ t) out members depth) =
    finish opts (outside t (out ++ spaces ws) members depth) := by
  refine finish_all_copied opts members depth (fun c hc => ?_) t out
  obtain ⟨w, -, rfl⟩ := List.mem_map.mp hc
  exact copied_space w

end Tokens

end Fluent.Wvr
