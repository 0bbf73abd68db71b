import Fluent.Library.JsonTree
import Fluent.Wvr.BoundaryTokens

namespace Fluent.Wvr

open Fluent.Library Fluent.Library.JsonText
open Fluent.Spacy (Text)

theorem reading_finish : Reading healedScalar healedItems fun a a' t => ∀ out members depth,
    finish .lenient (outside (a ++ t) out members depth) = finish .lenient (outside t (out ++ a') members depth) where
  nil t out members depth := by rw [List.nil_append, List.append_nil]
  append ha hb out members depth := by rw [List.append_assoc, ha, hb, List.append_assoc]
  space w t out members depth := finish_copied _ _ _ _ _ (copied_space w)
  scalar s _ ht out members depth := finish_scalar _ _ _ _ _ rfl ht rfl s
  key k t out members depth := finish_quoted _ _ _ _ _ rfl k
  colon t out members depth := finish_copied _ _ _ _ _ (by decide)
  comma ht out members depth := finish_comma _ _ _ _ _ ht
  bracket b a a' t ha out members depth := by
    rw [List.cons_append, List.append_assoc, List.singleton_append, finish_opening, ha, finish_closing]
    simp

theorem dropWhile_document (d : Document) (hd : d.value.isContainer = true) :
    d.render.dropWhile (fun c => c ≠ '{' ∧ c ≠ '[') = d.value.render ++ spaces d.after := by
  obtain ⟨b, inner, hrender⟩ := d.value.exists_brackets hd
  rw [Document.render, List.dropWhile_append_of_pos, hrender]
  · exact List.dropWhile_cons_of_neg (by cases b <;> decide)
  · intro c hc
    obtain ⟨w, -, rfl⟩ := List.mem_map.mp hc
    cases w <;> decide

theorem repairBoundary_document (d : Document) (hd : d.value.isContainer = true) :
    (repairBoundary d.render .lenient).text = d.value.renderWith healedScalar healedItems ++ spaces d.after := by
  obtain ⟨b, inner, hrender⟩ := d.value.exists_brackets hd
  have hread := reading_finish.document d.value d.after [] [] 0
  have hdrop := dropWhile_document d hd
  rw [hrender, List.cons_append] at hdrop hread
  rw [List.append_nil, List.nil_append] at hread
  simp only [repairBoundary, hdrop, walk_eq]
  exact congrArg WalkState.out hread

def healItem : Item → Item
  | .raw c =>
    if isControl c.val then
      .unicode (.lower (c.val.toNat / 4096)) (.lower (c.val.toNat / 256)) (.lower (c.val.toNat / 16))
        (.lower c.val.toNat)
    else .raw c
  | i => i

def healScalar : Scalar → Scalar
  | .string s => .string (s.map healItem)
  | s => s

theorem escapedChar_raw (c : RawChar) :
    escapedChar c.val = if isControl c.val then some ('\\' :: 'u' :: hex4 c.val.toNat) else none := by
  have hge := c.2.1
  have hne : ∀ x : Char, x.toNat < 0x20 → c.val ≠ x := fun x hx h => by rw [h] at hge; omega
  rw [escapedChar, if_neg (hne _ (by decide)), if_neg (hne _ (by decide)), if_neg (hne _ (by decide)),
    if_neg (by omega), if_neg (by omega)]

theorem healItem_render (i : Item) : (healItem i).render = healedItem i := by
  cases i with
  | raw c =>
    rw [healItem, healedItem, escapedChar_raw]
    split_ifs <;> rfl
  | short e => rfl
  | unicode a b c d => rfl

theorem healItem_units (i : Item) : (healItem i).units = i.units := by
  cases i with
  | raw c =>
    rw [healItem]
    split_ifs with hc
    · have hlt : c.val.toNat < 0xa0 := by
        simp only [isControl, Bool.or_eq_true, Bool.and_eq_true, decide_eq_true_eq] at hc
        omega
      simp only [Item.units, Hex.lower, Fin.val_ofNat, utf16]
      rw [if_pos (by omega)]
      congr 1
      omega
    · rfl
  | short e => rfl
  | unicode a b c d => rfl

theorem healedItems_eq (s : List Item) : healedItems s = renderItems (s.map healItem) := by
  rw [healedItems, renderItems, List.flatMap_map]
  simp only [healItem_render]

theorem unitsOf_heal (s : List Item) : unitsOf (s.map healItem) = unitsOf s := by
  rw [unitsOf, List.flatMap_map]
  simp only [healItem_units, unitsOf]

theorem healScalar_meaning (s : Scalar) : (healScalar s).meaning = s.meaning := by
  cases s with
  | string s => simp only [healScalar, Scalar.meaning, unitsOf_heal]
  | null => rfl
  | bool b => rfl
  | number n => rfl

theorem healedScalar_eq {s : Scalar} (hs : ∀ n, s = .number n → n.exponent = none) :
    healedScalar s = (healScalar s).render := by
  cases s with
  | string s => simp only [healedScalar, healScalar, Scalar.render, healedItems_eq]
  | number n =>
    simp only [healedScalar, healScalar, Scalar.render, healedNumber, Number.render, Number.power, hs n rfl]
  | null => rfl
  | bool b => rfl

def NoExponent (ss : List Scalar) : Prop := ∀ n, Scalar.number n ∈ ss → n.exponent = none

def healValue (v : Value) : Value := v.map healScalar (List.map healItem)

theorem render_healValue {v : Value} (hv : NoExponent v.scalars) :
    (healValue v).render = v.renderWith healedScalar healedItems := by
  refine v.render_map healedItems_eq fun s hs => healedScalar_eq ?_
  rintro n rfl
  exact hv n hs

theorem tree_healValue (v : Value) : (healValue v).tree = v.tree := v.tree_map healScalar_meaning unitsOf_heal

/-! A document with an exponent: a quote follows a digit in the repaired text. -/

theorem clash_number {n : Number} (hn : n.exponent ≠ none) (word : Bool) :
    (healedNumber n).foldl Spot.step (.outside word) = .clash := by
  obtain ⟨e, he⟩ := Option.ne_none_iff_exists'.mp hn
  obtain ⟨a, d, ha⟩ := n.mantissa_eq_concat
  have hsub := n.mantissa_subset
  rw [ha] at hsub
  obtain ⟨t, ht⟩ : ∃ t, healedExponent e = '"' :: t := by
    rw [healedExponent]
    split <;> exact ⟨_, rfl⟩
  simp only [healedNumber, he, ha, ht]
  rw [List.foldl_append, foldl_number word hsub]
  exact foldl_clash t

theorem foldl_label {b : Bracket} (l : Label b) :
    (labelText healedItems b l).foldl Spot.step (.outside false) = .outside false := by
  cases b with
  | square => rfl
  | curly =>
    have hcolon : Spot.step (.outside false) ':' = .outside false := rfl
    rw [labelText, healedItems_eq, List.foldl_append, foldl_quoted, List.foldl_append, foldl_spaces, List.foldl_cons,
      hcolon, foldl_spaces]

mutual

theorem clash_value : ∀ v : Value, ¬NoExponent v.scalars →
    (v.renderWith healedScalar healedItems).foldl Spot.step (.outside false) = .clash
  | .scalar s, h => by
    have hs : ∃ n, s = .number n ∧ n.exponent ≠ none := by
      simp only [Value.scalars, NoExponent, not_forall] at h
      obtain ⟨n, hn, hexp⟩ := h
      exact ⟨n, (List.mem_singleton.mp hn).symm, hexp⟩
    obtain ⟨n, rfl, hn⟩ := hs
    rw [Value.renderWith]
    exact clash_number hn false
  | .empty b ws, h => by
    rw [Value.scalars] at h
    exact absurd (fun n hn => (List.not_mem_nil hn).elim) h
  | .filled b es, h => by
    have hopen : Spot.step (.outside false) b.opening = .outside false := by cases b <;> rfl
    rw [Value.renderWith, List.foldl_cons, List.foldl_append, hopen, clash_entries es (by rwa [Value.scalars] at h),
      foldl_clash]

theorem clash_entries : ∀ {b : Bracket} (es : Entries b), ¬NoExponent es.scalars →
    (es.renderWith healedScalar healedItems).foldl Spot.step (.outside false) = .clash
  | b, .last before l v after, h => by
    rw [Entries.renderWith, List.foldl_append, foldl_spaces, List.foldl_append, foldl_label, List.foldl_append,
      clash_value v (by rwa [Entries.scalars] at h), foldl_clash]
  | b, .cons before l v after es, h => by
    rw [Entries.renderWith, List.foldl_append, foldl_spaces, List.foldl_append, foldl_label, List.foldl_append]
    by_cases hv : NoExponent v.scalars
    · have hes : ¬NoExponent es.scalars := by
        intro hes
        refine h fun n hn => ?_
        rw [Entries.scalars, List.mem_append] at hn
        exact hn.elim (hv n) (hes n)
      obtain ⟨word, hword⟩ := (healValue v).foldl_render
      rw [← render_healValue hv, hword, foldl_spaces_comma, clash_entries es hes]
    · rw [clash_value v hv, foldl_clash]

end

/-- A strict parser of JSON: it accepts texts of the grammar only, and what it reads depends on the meaning. -/
structure StrictParser (J : Type) where
  fromStr : Text → Option J
  interpret : Tree → Option J
  reads : ∀ d : Document, fromStr d.render = interpret d.value.tree
  accepts : ∀ t, (fromStr t).isSome = true → ∃ d : Document, d.render = t

def zeroPower : Document :=
  ⟨[], .filled .square (.last [] () (.scalar (.number ⟨false, .zero, none, some ⟨false, none, Fin.last 9, []⟩⟩)) []), []⟩

theorem exponent_becomes_string : zeroPower.render = "[0e9]".toList ∧
    (repairBoundary "[0e9]".toList .lenient).text = "[0\"e9\"]".toList ∧
    ¬∃ d : Document, d.render = "[0\"e9\"]".toList := by
  refine ⟨by decide +kernel, by decide +kernel, ?_⟩
  rintro ⟨d, hd⟩
  refine d.no_clash ?_
  rw [hd]
  decide +kernel

theorem repair_keeps_value_iff {J : Type} (serde : StrictParser J) (d : Document) (hd : d.value.isContainer = true)
    {v : J} (hv : serde.fromStr d.render = some v) :
    serde.fromStr (repairBoundary d.render .lenient).text = some v ↔ NoExponent d.value.scalars := by
  rw [repairBoundary_document d hd]
  constructor
  · intro h
    by_contra hexp
    obtain ⟨d', hd'⟩ := serde.accepts _ (Option.isSome_iff_exists.mpr ⟨v, h⟩)
    refine d'.no_clash ?_
    rw [hd', List.foldl_append, clash_value d.value hexp, foldl_clash]
  · intro hexp
    have hhealed := serde.reads ⟨[], healValue d.value, d.after⟩
    rw [tree_healValue, ← serde.reads d, hv, Document.render, render_healValue hexp] at hhealed
    exact hhealed

def rootBracket (t : Text) : Option Bracket :=
  match t.dropWhile fun c => c ∈ [' ', '\t', '\n', '\r'] with
  | '{' :: _ => some .curly
  | '[' :: _ => some .square
  | _ => none

def rootOf : Tree → Option Bracket
  | .scalar _ => none
  | .container b _ => some b

theorem rootBracket_render (d : Document) : rootBracket d.render = rootOf d.value.tree := by
  have hspace : ∀ c ∈ spaces d.before, decide (c ∈ [' ', '\t', '\n', '\r']) = true := by
    intro c hc
    obtain ⟨w, -, rfl⟩ := List.mem_map.mp hc
    cases w <;> decide
  rw [rootBracket, Document.render, List.dropWhile_append_of_pos hspace]
  cases hvalue : d.value with
  | scalar s =>
    obtain ⟨c, t, h, hc⟩ := s.render_eq_cons
    have hstart : ∀ c ∈ scalarStarts, c ∉ [' ', '\t', '\n', '\r'] ∧ c ≠ '{' ∧ c ≠ '[' := by decide
    obtain ⟨hspace, hcurly, hsquare⟩ := hstart c hc
    rw [Value.render, Value.renderWith, h, List.cons_append, List.dropWhile_cons_of_neg (by simpa using hspace),
      Value.tree, rootOf]
    split
    · next heq => exact absurd (List.cons.inj heq).1 hcurly
    · next heq => exact absurd (List.cons.inj heq).1 hsquare
    · rfl
  | empty b ws =>
    rw [Value.render, Value.renderWith, Value.tree, List.cons_append]
    cases b <;> rfl
  | filled b es =>
    rw [Value.render, Value.renderWith, Value.tree, List.cons_append]
    cases b <;> rfl

open Classical in
noncomputable def rootParser : StrictParser Bracket where
  fromStr t := if ∃ d : Document, d.render = t then rootBracket t else none
  interpret := rootOf
  reads d := by rw [if_pos ⟨d, rfl⟩, rootBracket_render]
  accepts t ht := by
    by_contra h
    rw [if_neg h] at ht
    contradiction

theorem delete_isRaw : 0x20 ≤ '\x7f'.toNat ∧ '\x7f' ≠ '"' ∧ '\x7f' ≠ '\\' := by decide

def plainArray : Document :=
  ⟨[.space], .filled .square (.cons [] () (.scalar (.string [.raw ⟨'\x7f', delete_isRaw⟩])) []
    (.last [.space] () (.scalar (.number ⟨true, .zero, some (Fin.last 9, []), none⟩)) [])), []⟩

theorem plainArray_kept : rootParser.fromStr (repairBoundary plainArray.render .lenient).text = some .square :=
  (repair_keeps_value_iff rootParser plainArray rfl
    ((rootParser.reads plainArray).trans (by simp [plainArray, Value.tree, rootParser, rootOf]))).mpr
    (by simp [NoExponent, plainArray, Value.scalars, Entries.scalars])

end Fluent.Wvr
