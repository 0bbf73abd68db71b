import Fluent.Library.JsonText

namespace Fluent.Library.JsonText

mutual

def Value.scalars : Value → List Scalar
  | .scalar s => [s]
  | .empty _ _ => []
  | .filled _ es => es.scalars

def Entries.scalars : {b : Bracket} → Entries b → List Scalar
  | _, .last _ _ v _ => v.scalars
  | _, .cons _ _ v _ es => v.scalars ++ es.scalars

end

section Map

variable (f : Scalar → Scalar) (g : List Item → List Item)

def mapLabel : (b : Bracket) → Label b → Label b
  | .square, l => l
  | .curly, l => ⟨g l.name, l.before, l.after⟩

mutual

def Value.map : Value → Value
  | .scalar s => .scalar (f s)
  | .empty b ws => .empty b ws
  | .filled b es => .filled b es.map

def Entries.map : {b : Bracket} → Entries b → Entries b
  | b, .last before l v after => .last before (mapLabel g b l) v.map after
  | b, .cons before l v after es => .cons before (mapLabel g b l) v.map after es.map

end

variable {f g} {leaf : Scalar → List Char} {key : List Item → List Char}

theorem labelText_map (hkey : ∀ k, key k = renderItems (g k)) (b : Bracket) (l : Label b) :
    labelText renderItems b (mapLabel g b l) = labelText key b l := by
  cases b with
  | square => rfl
  | curly => simp only [labelText, mapLabel, hkey]

mutual

theorem Value.render_map (hkey : ∀ k, key k = renderItems (g k)) :
    ∀ v : Value, (∀ s ∈ v.scalars, leaf s = (f s).render) → (v.map f g).render = v.renderWith leaf key
  | .scalar s, hleaf => by
    rw [Value.map, Value.render, Value.renderWith, Value.renderWith, hleaf s (by rw [Value.scalars]; simp)]
  | .empty b ws, _ => by rw [Value.map, Value.render, Value.renderWith, Value.renderWith]
  | .filled b es, hleaf => by
    rw [Value.map, Value.render, Value.renderWith, Value.renderWith,
      es.render_map hkey fun s hs => hleaf s (by rwa [Value.scalars])]

theorem Entries.render_map (hkey : ∀ k, key k = renderItems (g k)) :
    ∀ {b : Bracket} (es : Entries b), (∀ s ∈ es.scalars, leaf s = (f s).render) →
      (es.map f g).renderWith Scalar.render renderItems = es.renderWith leaf key
  | b, .last before l v after, hleaf => by
    have hv := v.render_map hkey fun s hs => hleaf s (by rwa [Entries.scalars])
    rw [Entries.map, Entries.renderWith, Entries.renderWith, labelText_map hkey, ← hv, Value.render]
  | b, .cons before l v after es, hleaf => by
    have hv := v.render_map hkey fun s hs => hleaf s (by rw [Entries.scalars]; exact List.mem_append_left _ hs)
    have hes := es.render_map hkey fun s hs => hleaf s (by rw [Entries.scalars]; exact List.mem_append_right _ hs)
    rw [Entries.map, Entries.renderWith, Entries.renderWith, labelText_map hkey, hes, ← hv, Value.render]

end

end Map

/-! What a text stands for: the spaces and the spelling of strings are gone, that of numbers is kept. -/

inductive Meaning where
  | null
  | bool (b : Bool)
  | number (n : Number)
  | string (units : List ℕ)
deriving DecidableEq

inductive Tree where
  | scalar (m : Meaning)
  | container (b : Bracket) (entries : List (List ℕ × Tree))

def Scalar.meaning : Scalar → Meaning
  | null => .null
  | bool b => .bool b
  | number n => .number n
  | string s => .string (unitsOf s)

def labelUnits : (b : Bracket) → Label b → List ℕ
  | .square, _ => []
  | .curly, l => unitsOf l.name

mutual

def Value.tree : Value → Tree
  | .scalar s => .scalar s.meaning
  | .empty b _ => .container b []
  | .filled b es => .container b es.trees

def Entries.trees : {b : Bracket} → Entries b → List (List ℕ × Tree)
  | b, .last _ l v _ => [(labelUnits b l, v.tree)]
  | b, .cons _ l v _ es => (labelUnits b l, v.tree) :: es.trees

end

section MapTree

variable {f : Scalar → Scalar} {g : List Item → List Item}

theorem labelUnits_map (hg : ∀ k, unitsOf (g k) = unitsOf k) (b : Bracket) (l : Label b) :
    labelUnits b (mapLabel g b l) = labelUnits b l := by
  cases b with
  | square => rfl
  | curly => exact hg l.name

mutual

theorem Value.tree_map (hf : ∀ s, (f s).meaning = s.meaning) (hg : ∀ k, unitsOf (g k) = unitsOf k) :
    ∀ v : Value, (v.map f g).tree = v.tree
  | .scalar s => by rw [Value.map, Value.tree, Value.tree, hf]
  | .empty b ws => by rw [Value.map]
  | .filled b es => by rw [Value.map, Value.tree, Value.tree, es.trees_map hf hg]

theorem Entries.trees_map (hf : ∀ s, (f s).meaning = s.meaning) (hg : ∀ k, unitsOf (g k) = unitsOf k) :
    ∀ {b : Bracket} (es : Entries b), (es.map f g).trees = es.trees
  | b, .last before l v after => by
    rw [Entries.map, Entries.trees, Entries.trees, v.tree_map hf hg, labelUnits_map hg]
  | b, .cons before l v after es => by
    rw [Entries.map, Entries.trees, Entries.trees, v.tree_map hf hg, es.trees_map hf hg, labelUnits_map hg]

end

end MapTree

inductive Spot where
  | outside (word : Bool)
  | string (escaped : Bool)
  | clash
deriving DecidableEq

def Spot.step : Spot → Char → Spot
  | .clash, _ => .clash
  | .string true, _ => .string false
  | .string false, c => if c = '\\' then .string true else if c = '"' then .outside false else .string false
  | .outside word, c => if c = '"' then (if word then .clash else .string false) else .outside c.isAlphanum

theorem foldl_clash (t : List Char) : t.foldl Spot.step .clash = .clash := by
  induction t with
  | nil => rfl
  | cons c t ih => exact ih

theorem foldl_unquoted (word : Bool) {a : List Char} {c : Char} (ha : '"' ∉ a ++ [c]) :
    (a ++ [c]).foldl Spot.step (.outside word) = .outside c.isAlphanum := by
  induction a generalizing word with
  | nil =>
    have hc : ¬c = '"' := fun h => ha (by simp [h])
    simp [Spot.step, hc]
  | cons x a ih =>
    rw [List.cons_append, List.mem_cons, not_or] at ha
    rw [List.cons_append, List.foldl_cons, Spot.step, if_neg (Ne.symm ha.1)]
    exact ih _ ha.2

theorem foldl_item (i : Item) : i.render.foldl Spot.step (.string false) = .string false := by
  cases i with
  | raw c => simp [Item.render, Spot.step, c.2.2.1, c.2.2.2]
  | short e => rfl
  | unicode a b c d => simp [Item.render, Spot.step, a.char_plain, b.char_plain, c.char_plain, d.char_plain]

theorem foldl_items (s : List Item) : (renderItems s).foldl Spot.step (.string false) = .string false := by
  induction s with
  | nil => rfl
  | cons i s ih => rw [renderItems, List.flatMap_cons, List.foldl_append, foldl_item, ← renderItems, ih]

theorem foldl_quoted (s : List Item) :
    (quoted (renderItems s)).foldl Spot.step (.outside false) = .outside false := by
  have hopen : Spot.step (.outside false) '"' = .string false := rfl
  rw [quoted, List.foldl_cons, List.foldl_append, hopen, foldl_items]
  rfl

theorem foldl_spaces (ws : List Space) : (spaces ws).foldl Spot.step (.outside false) = .outside false := by
  induction ws with
  | nil => rfl
  | cons w ws ih => cases w <;> exact ih

theorem foldl_spaces_comma (ws : List Space) (word : Bool) (t : List Char) :
    (spaces ws ++ ',' :: t).foldl Spot.step (.outside word) = t.foldl Spot.step (.outside false) := by
  induction ws generalizing word with
  | nil => rfl
  | cons w ws ih => cases w <;> exact ih _

theorem foldl_number (word : Bool) {a : List Char} {d : Fin 10} (ha : a ++ [digit d] ⊆ numberChars) :
    (a ++ [digit d]).foldl Spot.step (.outside word) = .outside true := by
  have hquote : '"' ∉ numberChars := by decide
  have hdigit : ∀ d : Fin 10, (digit d).isAlphanum = true := by decide
  rw [foldl_unquoted word fun h => hquote (ha h), hdigit]

theorem foldl_scalar (s : Scalar) : ∃ word, s.render.foldl Spot.step (.outside false) = .outside word := by
  cases s with
  | null => exact ⟨_, rfl⟩
  | bool b => cases b <;> exact ⟨_, rfl⟩
  | number n =>
    obtain ⟨a, d, h⟩ := n.render_eq_concat
    have hsub := n.render_subset
    rw [Scalar.render]
    rw [h] at hsub ⊢
    exact ⟨true, foldl_number false hsub⟩
  | string s => exact ⟨false, foldl_quoted s⟩

theorem reading_spot : Reading Scalar.render renderItems fun a _ t => ∀ word, (word = true → Ends (a ++ t)) →
    ∃ word', a.foldl Spot.step (.outside word) = .outside word' ∧ (word' = true → Ends t) where
  nil t word hword := ⟨word, rfl, hword⟩
  append {a _ b _ t} ha hb word hword := by
    rw [List.append_assoc] at hword
    obtain ⟨word', hfold, hword'⟩ := ha word hword
    rw [List.foldl_append, hfold]
    exact hb word' hword'
  space w t word _ := by
    refine ⟨false, ?_, nofun⟩
    cases w <;> rfl
  scalar s t ht word hword := by
    have hfalse : word = false := by
      obtain ⟨c, a, h, hc⟩ := s.render_eq_cons
      rw [h] at hword
      have hvalue := List.mem_cons_of_mem '[' (List.mem_cons_of_mem '{' hc)
      exact Bool.eq_false_iff.mpr fun hw => not_ends_of_start hvalue _ (hword hw)
    obtain ⟨word', h⟩ := foldl_scalar s
    exact ⟨word', by rw [hfalse, h], fun _ => ht⟩
  key k t word hword := by
    have hfalse : word = false := Bool.eq_false_iff.mpr fun hw => not_ends_of_start (by decide) _ (hword hw)
    exact ⟨false, by rw [hfalse, foldl_quoted], nofun⟩
  colon t word _ := ⟨false, rfl, nofun⟩
  comma _ word _ := ⟨false, rfl, nofun⟩
  bracket b a _ t ha word _ := by
    obtain ⟨word', hfold, -⟩ := ha false nofun
    refine ⟨false, ?_, nofun⟩
    have hopen : Spot.step (.outside word) b.opening = .outside false := by cases b <;> rfl
    rw [List.foldl_cons, List.foldl_append, hopen, hfold]
    cases b <;> rfl

theorem Value.foldl_render (v : Value) : ∃ word, v.render.foldl Spot.step (.outside false) = .outside word := by
  obtain ⟨word, h, -⟩ := reading_spot.value v [] ends_nil false nofun
  exact ⟨word, h⟩

theorem Document.no_clash (d : Document) : d.render.foldl Spot.step (.outside false) ≠ .clash := by
  obtain ⟨word, h, -⟩ := reading_spot.document d.value d.after false nofun
  rw [Document.render, List.foldl_append, foldl_spaces, h]
  exact nofun

end Fluent.Library.JsonText
