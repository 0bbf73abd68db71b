import Mathlib.Data.Fin.Basic
import Mathlib.Data.List.Basic
import Fluent.Library.Utf8

namespace Fluent.Library.JsonText

/-! The concrete syntax of JSON: a tree for every text of the grammar, with its spaces and spellings. -/

inductive Space where
  | space
  | tab
  | newline
  | ret
deriving DecidableEq

def Space.char : Space → Char
  | space => ' '
  | tab => '\t'
  | newline => '\n'
  | ret => '\r'

def spaces (ws : List Space) : List Char := ws.map Space.char

def digit (d : Fin 10) : Char := Char.ofNat (48 + d)

def digits (ds : List (Fin 10)) : List Char := ds.map digit

inductive Whole where
  | zero
  | positive (first : Fin 9) (more : List (Fin 10))
deriving DecidableEq

structure Exponent where
  upper : Bool
  negative : Option Bool
  first : Fin 10
  more : List (Fin 10)
deriving DecidableEq

structure Number where
  negative : Bool
  whole : Whole
  fraction : Option (Fin 10 × List (Fin 10))
  exponent : Option Exponent
deriving DecidableEq

def Whole.render : Whole → List Char
  | zero => ['0']
  | positive first more => digit first.succ :: digits more

def signChar (negative : Bool) : Char := if negative then '-' else '+'

namespace Exponent

def letter (e : Exponent) : Char := if e.upper then 'E' else 'e'

def magnitude (e : Exponent) : List Char := digits (e.first :: e.more)

def render (e : Exponent) : List Char :=
  match e.negative with
  | none => e.letter :: e.magnitude
  | some negative => e.letter :: signChar negative :: e.magnitude

end Exponent

namespace Number

def unsigned (n : Number) : List Char :=
  n.whole.render ++
    match n.fraction with
    | none => []
    | some (first, more) => '.' :: digits (first :: more)

def mantissa (n : Number) : List Char := if n.negative then '-' :: n.unsigned else n.unsigned

def power (n : Number) : List Char :=
  match n.exponent with
  | none => []
  | some e => e.render

def render (n : Number) : List Char := n.mantissa ++ n.power

end Number

abbrev RawChar := { c : Char // 0x20 ≤ c.toNat ∧ c ≠ '"' ∧ c ≠ '\\' }

inductive Short where
  | quote
  | backslash
  | slash
  | backspace
  | formFeed
  | newline
  | ret
  | tab
deriving DecidableEq

namespace Short

def letter : Short → Char
  | quote => '"'
  | backslash => '\\'
  | slash => '/'
  | backspace => 'b'
  | formFeed => 'f'
  | newline => 'n'
  | ret => 'r'
  | tab => 't'

def unit : Short → ℕ
  | quote => 0x22
  | backslash => 0x5c
  | slash => 0x2f
  | backspace => 8
  | formFeed => 12
  | newline => 10
  | ret => 13
  | tab => 9

end Short

structure Hex where
  value : Fin 16
  upper : Bool
deriving DecidableEq

def Hex.char (h : Hex) : Char :=
  Char.ofNat (if h.value.val < 10 then 48 + h.value else if h.upper then 55 + h.value else 87 + h.value)

def Hex.lower (n : ℕ) : Hex := ⟨Fin.ofNat 16 n, false⟩

inductive Item where
  | raw (c : RawChar)
  | short (e : Short)
  | unicode (a b c d : Hex)
deriving DecidableEq

def utf16 (c : Char) : List ℕ :=
  if c.toNat < 0x10000 then [c.toNat]
  else [0xd800 + (c.toNat - 0x10000) / 0x400, 0xdc00 + (c.toNat - 0x10000) % 0x400]

namespace Item

def render : Item → List Char
  | raw c => [c.val]
  | short e => ['\\', e.letter]
  | unicode a b c d => ['\\', 'u', a.char, b.char, c.char, d.char]

def units : Item → List ℕ
  | raw c => utf16 c.val
  | short e => [e.unit]
  | unicode a b c d => [((a.value * 16 + b.value) * 16 + c.value) * 16 + d.value]

end Item

def renderItems (s : List Item) : List Char := s.flatMap Item.render

def unitsOf (s : List Item) : List ℕ := s.flatMap Item.units

def quoted (s : List Char) : List Char := '"' :: (s ++ ['"'])

inductive Scalar where
  | null
  | bool (b : Bool)
  | number (n : Number)
  | string (s : List Item)
deriving DecidableEq

def boolText (b : Bool) : List Char := if b then ['t', 'r', 'u', 'e'] else ['f', 'a', 'l', 's', 'e']

def nullText : List Char := ['n', 'u', 'l', 'l']

def Scalar.render : Scalar → List Char
  | null => nullText
  | bool b => boolText b
  | number n => n.render
  | string s => quoted (renderItems s)

inductive Bracket where
  | square
  | curly
deriving DecidableEq

namespace Bracket

def opening : Bracket → Char
  | square => '['
  | curly => '{'

def closing : Bracket → Char
  | square => ']'
  | curly => '}'

end Bracket

structure Key where
  name : List Item
  before : List Space
  after : List Space
deriving DecidableEq

abbrev Label : Bracket → Type
  | .square => Unit
  | .curly => Key

mutual

inductive Value where
  | scalar (s : Scalar)
  | empty (b : Bracket) (ws : List Space)
  | filled (b : Bracket) (es : Entries b)

inductive Entries : Bracket → Type where
  | last {b : Bracket} (before : List Space) (l : Label b) (v : Value) (after : List Space) : Entries b
  | cons {b : Bracket} (before : List Space) (l : Label b) (v : Value) (after : List Space) (es : Entries b) :
      Entries b

end

structure Document where
  before : List Space
  value : Value
  after : List Space

section Rendering

variable (leaf : Scalar → List Char) (key : List Item → List Char)

def labelText : (b : Bracket) → Label b → List Char
  | .square, _ => []
  | .curly, l => quoted (key l.name) ++ (spaces l.before ++ (':' :: spaces l.after))

mutual

def Value.renderWith : Value → List Char
  | .scalar s => leaf s
  | .empty b ws => b.opening :: (spaces ws ++ [b.closing])
  | .filled b es => b.opening :: (es.renderWith ++ [b.closing])

def Entries.renderWith : {b : Bracket} → Entries b → List Char
  | b, .last before l v after => spaces before ++ (labelText key b l ++ (v.renderWith ++ spaces after))
  | b, .cons before l v after es =>
    spaces before ++ (labelText key b l ++ (v.renderWith ++ (spaces after ++ (',' :: es.renderWith))))

end

end Rendering

def Value.render (v : Value) : List Char := v.renderWith Scalar.render renderItems

def Document.render (d : Document) : List Char := spaces d.before ++ (d.value.render ++ spaces d.after)

def Value.isContainer : Value → Bool
  | .scalar _ => false
  | _ => true

def entriesOf {b : Bracket} (e : Label b × Value) : List (Label b × Value) → Entries b
  | [] => .last [] e.1 e.2 []
  | e' :: es => .cons [] e.1 e.2 [] (entriesOf e' es)

def containerOf (b : Bracket) : List (Label b × Value) → Value
  | [] => .empty b []
  | e :: es => .filled b (entriesOf e es)

theorem containerOf_isContainer (b : Bracket) (es : List (Label b × Value)) :
    (containerOf b es).isContainer = true := by
  cases es <;> rfl

theorem Hex.char_plain : ∀ h : Hex, h.char ≠ '"' ∧ h.char ≠ '\\'
  | ⟨value, upper⟩ => by
    revert value upper
    decide

def numberChars : List Char := ['0', '1', '2', '3', '4', '5', '6', '7', '8', '9', '-', '.', '+', 'e', 'E']

theorem digit_mem_numberChars : ∀ d : Fin 10, digit d ∈ numberChars := by decide

theorem digits_subset (ds : List (Fin 10)) : digits ds ⊆ numberChars := by
  intro c hc
  obtain ⟨d, -, rfl⟩ := List.mem_map.mp hc
  exact digit_mem_numberChars d

theorem Whole.render_subset (w : Whole) : w.render ⊆ numberChars := by
  cases w with
  | zero => decide
  | positive first more => exact digits_subset (first.succ :: more)

theorem Exponent.render_subset (e : Exponent) : e.render ⊆ numberChars := by
  have hletter : e.letter ∈ numberChars := by
    rw [Exponent.letter]
    split <;> decide
  have hsign : ∀ negative, signChar negative ∈ numberChars := by decide
  rw [Exponent.render]
  split
  · exact List.cons_subset.mpr ⟨hletter, digits_subset _⟩
  · exact List.cons_subset.mpr ⟨hletter, List.cons_subset.mpr ⟨hsign _, digits_subset _⟩⟩

theorem Number.unsigned_subset (n : Number) : n.unsigned ⊆ numberChars := by
  refine List.append_subset.mpr ⟨n.whole.render_subset, ?_⟩
  split
  · exact List.nil_subset _
  · exact List.cons_subset.mpr ⟨by decide, digits_subset _⟩

theorem Number.mantissa_subset (n : Number) : n.mantissa ⊆ numberChars := by
  rw [Number.mantissa]
  split
  · exact List.cons_subset.mpr ⟨by decide, n.unsigned_subset⟩
  · exact n.unsigned_subset

theorem Number.render_subset (n : Number) : n.render ⊆ numberChars := by
  refine List.append_subset.mpr ⟨n.mantissa_subset, ?_⟩
  rw [Number.power]
  split
  · exact List.nil_subset _
  · exact Exponent.render_subset _

def scalarStarts : List Char := ['"', '-', '0', '1', '2', '3', '4', '5', '6', '7', '8', '9', 't', 'f', 'n']

def valueStarts : List Char := '[' :: '{' :: scalarStarts

def Ends (t : List Char) : Prop :=
  ∃ ws rest, t = spaces ws ++ rest ∧ ∀ c ∈ rest.head?, c = ',' ∨ c = ']' ∨ c = '}'

def Opens (t : List Char) : Prop := ∃ ws c rest, t = spaces ws ++ c :: rest ∧ c ∈ valueStarts

@[simp] theorem spaces_nil : spaces [] = [] := rfl

@[simp] theorem spaces_cons (w : Space) (ws : List Space) : spaces (w :: ws) = w.char :: spaces ws := rfl

theorem spaces_append (ws ws' : List Space) : spaces (ws ++ ws') = spaces ws ++ spaces ws' := List.map_append

theorem ends_spaces {t : List Char} (ws : List Space) (h : Ends t) : Ends (spaces ws ++ t) := by
  obtain ⟨ws', rest, rfl, hrest⟩ := h
  exact ⟨ws ++ ws', rest, by rw [spaces_append, List.append_assoc], hrest⟩

theorem ends_nil : Ends [] := ⟨[], [], rfl, by simp⟩

theorem ends_comma (t : List Char) : Ends (',' :: t) := ⟨[], _, rfl, by simp⟩

theorem ends_closing (b : Bracket) (t : List Char) : Ends (b.closing :: t) :=
  ⟨[], _, rfl, by cases b <;> simp [Bracket.closing]⟩

theorem opens_spaces {t : List Char} (ws : List Space) (h : Opens t) : Opens (spaces ws ++ t) := by
  obtain ⟨ws', c, rest, rfl, hc⟩ := h
  exact ⟨ws ++ ws', c, rest, by rw [spaces_append, List.append_assoc], hc⟩

theorem not_ends_of_start {c : Char} (hc : c ∈ valueStarts) (t : List Char) : ¬Ends (c :: t) := by
  rintro ⟨ws, rest, h, hrest⟩
  cases ws with
  | nil =>
    rw [spaces_nil, List.nil_append] at h
    subst h
    have hends : ∀ x ∈ valueStarts, ¬(x = ',' ∨ x = ']' ∨ x = '}') := by decide
    exact hends c hc (hrest c rfl)
  | cons w ws =>
    obtain ⟨rfl, -⟩ := List.cons.inj h
    cases w <;> exact absurd hc (by decide)

theorem opens_of_start {c : Char} (hc : c ∈ valueStarts) (t : List Char) : Opens (c :: t) := ⟨[], c, t, rfl, hc⟩

theorem digit_mem_scalarStarts : ∀ d : Fin 10, digit d ∈ scalarStarts := by decide

theorem Whole.render_eq_cons (w : Whole) : ∃ d ds, w.render = digit d :: digits ds := by
  cases w with
  | zero => exact ⟨0, [], rfl⟩
  | positive first more => exact ⟨_, more, rfl⟩

theorem Number.unsigned_eq_cons (n : Number) : ∃ d t, n.unsigned = digit d :: t := by
  obtain ⟨d, ds, h⟩ := n.whole.render_eq_cons
  exact ⟨d, _, by rw [Number.unsigned, h]; rfl⟩

theorem Number.render_eq_cons (n : Number) : ∃ c t, n.render = c :: t ∧ c ∈ scalarStarts := by
  obtain ⟨d, t, h⟩ := n.unsigned_eq_cons
  rw [Number.render, Number.mantissa, h]
  split_ifs
  · exact ⟨'-', _, rfl, by decide⟩
  · exact ⟨digit d, _, rfl, digit_mem_scalarStarts d⟩

theorem digits_eq_concat (first : Fin 10) (more : List (Fin 10)) :
    ∃ a d, digits (first :: more) = a ++ [digit d] := by
  obtain ⟨ds, d, h⟩ := (List.eq_nil_or_concat (first :: more)).resolve_left (List.cons_ne_nil _ _)
  exact ⟨digits ds, d, by rw [h, List.concat_eq_append, digits, List.map_append]; rfl⟩

theorem Number.mantissa_eq_concat (n : Number) : ∃ a d, n.mantissa = a ++ [digit d] := by
  have hunsigned : ∃ a d, n.unsigned = a ++ [digit d] := by
    obtain ⟨d, ds, hwhole⟩ := n.whole.render_eq_cons
    rw [Number.unsigned, hwhole]
    cases n.fraction with
    | none =>
      obtain ⟨a, d', h⟩ := digits_eq_concat d ds
      exact ⟨a, d', by rw [List.append_nil]; exact h⟩
    | some fraction =>
      obtain ⟨a, d', h⟩ := digits_eq_concat fraction.1 fraction.2
      exact ⟨digit d :: digits ds ++ '.' :: a, d', by simp [h]⟩
  obtain ⟨a, d, h⟩ := hunsigned
  rw [Number.mantissa, h]
  split_ifs
  · exact ⟨'-' :: a, d, rfl⟩
  · exact ⟨a, d, rfl⟩

theorem Number.render_eq_concat (n : Number) : ∃ a d, n.render = a ++ [digit d] := by
  rw [Number.render, Number.power]
  cases n.exponent with
  | none =>
    rw [List.append_nil]
    exact n.mantissa_eq_concat
  | some e =>
    obtain ⟨a, d, h⟩ := digits_eq_concat e.first e.more
    simp only [Exponent.render, Exponent.magnitude, h]
    cases e.negative with
    | none => exact ⟨n.mantissa ++ e.letter :: a, d, by simp⟩
    | some negative => exact ⟨n.mantissa ++ e.letter :: signChar negative :: a, d, by simp⟩

theorem Scalar.render_eq_cons (s : Scalar) : ∃ c t, s.render = c :: t ∧ c ∈ scalarStarts := by
  cases s with
  | null => exact ⟨'n', _, rfl, by decide⟩
  | bool b => cases b <;> exact ⟨_, _, rfl, by decide⟩
  | number n => exact n.render_eq_cons
  | string s => exact ⟨'"', _, rfl, by decide⟩

theorem Value.render_eq_cons (v : Value) : ∃ c t, v.render = c :: t ∧ c ∈ valueStarts := by
  cases v with
  | scalar s =>
    obtain ⟨c, t, h, hc⟩ := s.render_eq_cons
    exact ⟨c, t, by rwa [Value.render, Value.renderWith], List.mem_cons_of_mem _ (List.mem_cons_of_mem _ hc)⟩
  | empty b ws => exact ⟨b.opening, _, by rw [Value.render, Value.renderWith], by cases b <;> decide⟩
  | filled b es => exact ⟨b.opening, _, by rw [Value.render, Value.renderWith], by cases b <;> decide⟩

theorem Value.exists_brackets {v : Value} (hv : v.isContainer = true) :
    ∃ (b : Bracket) (inner : List Char), v.render = b.opening :: (inner ++ [b.closing]) := by
  cases v with
  | scalar s => contradiction
  | empty b ws => exact ⟨b, _, by rw [Value.render, Value.renderWith]⟩
  | filled b es => exact ⟨b, _, by rw [Value.render, Value.renderWith]⟩

theorem opens_value (v : Value) (t : List Char) : Opens (v.render ++ t) := by
  obtain ⟨c, t', h, hc⟩ := v.render_eq_cons
  rw [h]
  exact opens_of_start hc _

theorem opens_entry {b : Bracket} (l : Label b) (v : Value) (t : List Char) :
    Opens (labelText renderItems b l ++ (v.render ++ t)) := by
  cases b with
  | square => exact opens_value v t
  | curly => exact opens_of_start (by decide) _

theorem opens_entries {b : Bracket} (es : Entries b) (t : List Char) :
    Opens (es.renderWith Scalar.render renderItems ++ t) := by
  cases es with
  | last before l v after =>
    simp only [Entries.renderWith, List.append_assoc]
    exact opens_spaces before (opens_entry l v _)
  | cons before l v after es =>
    simp only [Entries.renderWith, List.append_assoc]
    exact opens_spaces before (opens_entry l v _)

structure Reading (leaf : Scalar → List Char) (key : List Item → List Char)
    (R : List Char → List Char → List Char → Prop) : Prop where
  nil (t : List Char) : R [] [] t
  append {a a' b b' t : List Char} : R a a' (b ++ t) → R b b' t → R (a ++ b) (a' ++ b') t
  space (w : Space) (t : List Char) : R [w.char] [w.char] t
  scalar (s : Scalar) {t : List Char} : Ends t → R s.render (leaf s) t
  key (k : List Item) (t : List Char) : R (quoted (renderItems k)) (quoted (key k)) t
  colon (t : List Char) : R [':'] [':'] t
  comma {t : List Char} : Opens t → R [','] [','] t
  bracket (b : Bracket) {a a' t : List Char} : R a a' (b.closing :: t) →
    R (b.opening :: (a ++ [b.closing])) (b.opening :: (a' ++ [b.closing])) t

namespace Reading

variable {leaf : Scalar → List Char} {key : List Item → List Char} {R : List Char → List Char → List Char → Prop}

theorem spaces (h : Reading leaf key R) (ws : List Space) (t : List Char) :
    R (JsonText.spaces ws) (JsonText.spaces ws) t := by
  induction ws with
  | nil => exact h.nil t
  | cons w ws ih => exact h.append (h.space w _) ih

theorem label (h : Reading leaf key R) (b : Bracket) (l : Label b) (t : List Char) :
    R (labelText renderItems b l) (labelText key b l) t := by
  cases b with
  | square => exact h.nil t
  | curly =>
    exact h.append (h.key l.name _) (h.append (h.spaces l.before _) (h.append (h.colon _) (h.spaces l.after t)))

mutual

theorem value (h : Reading leaf key R) : ∀ (v : Value) (t : List Char), Ends t → R v.render (v.renderWith leaf key) t
  | .scalar s, t, ht => by
    rw [Value.render, Value.renderWith, Value.renderWith]
    exact h.scalar s ht
  | .empty b ws, t, _ => by
    rw [Value.render, Value.renderWith, Value.renderWith]
    exact h.bracket b (h.spaces ws _)
  | .filled b es, t, _ => by
    rw [Value.render, Value.renderWith, Value.renderWith]
    exact h.bracket b (h.entries es t)

theorem entries (h : Reading leaf key R) : ∀ {b : Bracket} (es : Entries b) (t : List Char),
    R (es.renderWith Scalar.render renderItems) (es.renderWith leaf key) (b.closing :: t)
  | b, .last before l v after, t => by
    rw [Entries.renderWith, Entries.renderWith]
    have hv := h.value v _ (ends_spaces after (ends_closing b t))
    exact h.append (h.spaces before _) (h.append (h.label b l _) (h.append hv (h.spaces after _)))
  | b, .cons before l v after es, t => by
    rw [Entries.renderWith, Entries.renderWith]
    have htail := h.append (h.comma (opens_entries es (b.closing :: t))) (h.entries es t)
    have hv := h.value v _ (ends_spaces after (ends_comma (es.renderWith Scalar.render renderItems ++ b.closing :: t)))
    rw [← List.cons_append, ← List.append_assoc] at hv
    exact h.append (h.spaces before _) (h.append (h.label b l _) (h.append hv (h.append (h.spaces after _) htail)))

end

theorem document (h : Reading leaf key R) (v : Value) (ws : List Space) :
    R (v.render ++ JsonText.spaces ws) (v.renderWith leaf key ++ JsonText.spaces ws) [] :=
  h.append (h.value v _ (ends_spaces ws ends_nil)) (h.spaces ws [])

end Reading

end Fluent.Library.JsonText
