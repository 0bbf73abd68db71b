import Fluent.Llm.ParseJson

namespace Fluent.Llm

open Fluent.Library Fluent.Library.JsonText
open Fluent.Spacy (Text isWhitespace)
open Fluent.Router.Charts (Json)
open Fluent.Wvr (between_append)

/-! The depth scan passes over a text of the grammar. -/

theorem afterBalanced_item (depth : ℕ) (i : Item) (t : Text) :
    afterBalanced depth true false (i.render ++ t) = afterBalanced depth true false t := by
  cases i with
  | raw c => simp [Item.render, afterBalanced, c.2.2.1, c.2.2.2]
  | short e => simp [Item.render, afterBalanced]
  | unicode a b c d =>
    simp [Item.render, afterBalanced, a.char_plain, b.char_plain, c.char_plain, d.char_plain]

theorem afterBalanced_items (depth : ℕ) (s : List Item) (t : Text) :
    afterBalanced depth true false (renderItems s ++ t) = afterBalanced depth true false t := by
  induction s with
  | nil => rfl
  | cons i s ih => rw [renderItems, List.flatMap_cons, List.append_assoc, afterBalanced_item, ← renderItems, ih]

theorem afterBalanced_quoted (depth : ℕ) (s : List Item) (t : Text) :
    afterBalanced depth false false (quoted (renderItems s) ++ t) = afterBalanced depth false false t := by
  have hs := afterBalanced_items depth s ('"' :: t)
  simp only [quoted, List.cons_append, List.append_assoc, List.nil_append]
  rw [afterBalanced, if_neg (by decide), if_pos rfl, hs, afterBalanced, if_pos rfl, if_neg (by decide),
    if_neg (by decide), if_pos rfl]

def Passed (c : Char) : Prop := c ∉ ['"', '{', '[', '}', ']']

instance (c : Char) : Decidable (Passed c) := inferInstanceAs (Decidable (c ∉ _))

theorem afterBalanced_passed (depth : ℕ) {a : Text} (h : ∀ c ∈ a, Passed c) (t : Text) :
    afterBalanced depth false false (a ++ t) = afterBalanced depth false false t := by
  induction a with
  | nil => rfl
  | cons c a ih =>
    obtain ⟨hc, ha⟩ := List.forall_mem_cons.mp h
    simp only [Passed, List.mem_cons, List.not_mem_nil, or_false, not_or] at hc
    obtain ⟨hquote, hcurly, hsquare, hcurly', hsquare'⟩ := hc
    rw [List.cons_append, afterBalanced, if_neg (by decide), if_neg hquote, if_neg (not_or.mpr ⟨hcurly, hsquare⟩),
      if_neg (not_or.mpr ⟨hcurly', hsquare'⟩), ih ha]

theorem afterBalanced_scalar (depth : ℕ) (s : Scalar) (t : Text) :
    afterBalanced depth false false (s.render ++ t) = afterBalanced depth false false t := by
  cases s with
  | null => exact afterBalanced_passed depth (by decide) t
  | bool b => exact afterBalanced_passed depth (by cases b <;> decide) t
  | number n =>
    have hpassed : ∀ c ∈ numberChars, Passed c := by decide
    exact afterBalanced_passed depth (fun c hc => hpassed c (n.render_subset hc)) t
  | string s => exact afterBalanced_quoted depth s t

theorem afterBalanced_opening (depth : ℕ) (b : Bracket) (t : Text) :
    afterBalanced depth false false (b.opening :: t) = afterBalanced (depth + 1) false false t := by
  cases b <;> rfl

theorem afterBalanced_closing (depth : ℕ) (b : Bracket) (t : Text) :
    afterBalanced (depth + 1) false false (b.closing :: t) =
      if depth = 0 then some t else afterBalanced depth false false t := by
  cases b <;> rfl

theorem reading_afterBalanced : Reading Scalar.render renderItems fun a _ t =>
    ∀ depth, afterBalanced (depth + 1) false false (a ++ t) = afterBalanced (depth + 1) false false t where
  nil _ _ := rfl
  append {a _ b _ t} ha hb depth := by rw [List.append_assoc, ha, hb]
  space w t depth := afterBalanced_passed _ (by cases w <;> decide) t
  scalar s _ _ depth := afterBalanced_scalar _ s _
  key k t depth := afterBalanced_quoted _ k t
  colon t depth := afterBalanced_passed _ (by decide) t
  comma _ depth := afterBalanced_passed _ (by decide) _
  bracket b a _ t ha depth := by
    rw [List.cons_append, List.append_assoc, List.singleton_append, afterBalanced_opening, ha, afterBalanced_closing,
      if_neg depth.succ_ne_zero]

theorem afterBalanced_container {v : Value} (hv : v.isContainer = true) (t : Text) :
    afterBalanced 0 false false (v.render ++ t) = some t := by
  cases v with
  | scalar s => contradiction
  | empty b ws =>
    have hspaces := reading_afterBalanced.spaces ws (b.closing :: t) 0
    rw [Value.render, Value.renderWith, List.cons_append, List.append_assoc, List.singleton_append,
      afterBalanced_opening, hspaces, afterBalanced_closing, if_pos rfl]
  | filled b es =>
    have hentries := reading_afterBalanced.entries es t 0
    rw [Value.render, Value.renderWith, List.cons_append, List.append_assoc, List.singleton_append,
      afterBalanced_opening, hentries, afterBalanced_closing, if_pos rfl]

def KeepsFrom (a : Char) (cut : Text → Text) : Prop := ∀ p r, ∃ p', p' <:+ p ∧ cut (p ++ a :: r) = p' ++ a :: r

theorem keepsFrom_dropWhile {a : Char} {f : Char → Bool} (ha : f a = false) : KeepsFrom a (List.dropWhile f) := by
  intro p r
  induction p with
  | nil => exact ⟨[], List.suffix_rfl, List.dropWhile_cons_of_neg (by simp [ha])⟩
  | cons c p ih =>
    cases hc : f c with
    | false => exact ⟨c :: p, List.suffix_rfl, List.dropWhile_cons_of_neg (by simp [hc])⟩
    | true =>
      obtain ⟨p', hp', h⟩ := ih
      exact ⟨p', hp'.trans (List.suffix_cons c p), (List.dropWhile_cons_of_pos hc).trans h⟩

theorem drop_pattern {a : Char} {pat p r : Text} (ha : a ∉ pat) (h : pat <+: p ++ a :: r) :
    (p ++ a :: r).drop pat.length = p.drop pat.length ++ a :: r := by
  have hlen : pat.length ≤ p.length := by
    by_contra hlt
    obtain ⟨t, ht⟩ := h
    have hget : (pat ++ t)[p.length]? = some a := by rw [ht, List.getElem?_append_right le_rfl]; simp
    rw [List.getElem?_append_left (by omega)] at hget
    exact ha (List.mem_of_getElem? hget)
  exact List.drop_append_of_le_length hlen

theorem stripPrefix_keepsFrom {a : Char} {pat : Text} (ha : a ∉ pat) {p r t : Text}
    (h : stripPrefix pat (p ++ a :: r) = some t) : ∃ p', p' <:+ p ∧ t = p' ++ a :: r := by
  rw [stripPrefix] at h
  split_ifs at h with hpat
  rw [drop_pattern ha hpat] at h
  exact ⟨_, List.drop_suffix _ p, (Option.some.inj h).symm⟩

theorem keepsFrom_stripPrefixes {a : Char} {pat pat' : Text} (ha : a ∉ pat) (ha' : a ∉ pat') :
    KeepsFrom a fun t => ((stripPrefix pat t).or (stripPrefix pat' t)).getD t := by
  intro p r
  cases h : stripPrefix pat (p ++ a :: r) with
  | some t => simpa [h] using stripPrefix_keepsFrom ha h
  | none =>
    cases h' : stripPrefix pat' (p ++ a :: r) with
    | some t => simpa [h, h'] using stripPrefix_keepsFrom ha' h'
    | none => exact ⟨p, List.suffix_rfl, by simp [h, h']⟩

theorem keepsFrom_trimStartMatches {a : Char} {pat : Text} (ha : a ∉ pat) (n : ℕ) :
    KeepsFrom a (trimStartMatches pat n) := by
  induction n with
  | zero => exact fun p r => ⟨p, List.suffix_rfl, rfl⟩
  | succ n ih =>
    intro p r
    rw [trimStartMatches]
    split_ifs with hpat
    · rw [drop_pattern ha hpat]
      obtain ⟨p', hp', h⟩ := ih (p.drop pat.length) r
      exact ⟨p', hp'.trans (List.drop_suffix _ p), h⟩
    · exact ⟨p, List.suffix_rfl, rfl⟩

section Around

def Around (b : Bracket) (inner t : Text) : Prop :=
  ∃ p q, (∀ c ∈ p, c ≠ '{' ∧ c ≠ '[') ∧ t = p ++ b.opening :: (inner ++ b.closing :: q)

variable {b : Bracket} {inner t : Text} {cut : Text → Text}

theorem Around.front (hcut : KeepsFrom b.opening cut) (h : Around b inner t) : Around b inner (cut t) := by
  obtain ⟨p, q, hp, rfl⟩ := h
  obtain ⟨p', hp', hcut⟩ := hcut p (inner ++ b.closing :: q)
  exact ⟨p', q, fun c hc => hp c (hp'.subset hc), hcut⟩

theorem Around.back (hcut : KeepsFrom b.closing cut) (h : Around b inner t) :
    Around b inner (cut t.reverse).reverse := by
  obtain ⟨p, q, hp, rfl⟩ := h
  obtain ⟨q', -, hcut⟩ := hcut q.reverse (inner.reverse ++ b.opening :: p.reverse)
  refine ⟨p, q'.reverse, hp, ?_⟩
  simp only [List.reverse_append, List.reverse_cons, List.append_assoc, List.cons_append,
    List.nil_append]
  rw [hcut]
  simp

theorem Around.trim (h : Around b inner t) : Around b inner (Text.trim t) :=
  (h.front (keepsFrom_dropWhile (by cases b <;> decide))).back (keepsFrom_dropWhile (by cases b <;> decide))

theorem Around.stripJsonFence (h : Around b inner t) : Around b inner (stripJsonFence t) := by
  have hopen := h.trim.front (keepsFrom_stripPrefixes (show b.opening ∉ jsonFence by cases b <;> decide)
    (show b.opening ∉ fence by cases b <;> decide))
  exact (hopen.back (keepsFrom_trimStartMatches (by cases b <;> decide) _)).trim

end Around

theorem extractFrom_skip {J : Type} (fromStr : Text → Option J) {p : Text} (hp : ∀ c ∈ p, c ≠ '{' ∧ c ≠ '[')
    (t : Text) : extractFrom fromStr 0 (p ++ t) = extractFrom fromStr 0 t := by
  induction p with
  | nil => rfl
  | cons c p ih =>
    obtain ⟨hc, hp⟩ := List.forall_mem_cons.mp hp
    rw [List.cons_append, extractFrom, if_neg (not_or.mpr hc), ih hp]

theorem extract_around {J : Type} {fromStr : Text → Option J} {v : Value} {b : Bracket} {inner t : Text} {j : J}
    (hv : v.isContainer = true) (hrender : v.render = b.opening :: (inner ++ [b.closing]))
    (hj : fromStr v.render = some j) (h : Around b inner t) : extractFirstJsonValue fromStr t = some j := by
  obtain ⟨p, q, hp, rfl⟩ := h
  have htail : b.opening :: (inner ++ b.closing :: q) = v.render ++ q := by rw [hrender]; simp
  have hafter := afterBalanced_container hv q
  have hbetween := between_append v.render q
  rw [← htail] at hafter hbetween
  have hopening : b.opening = '{' ∨ b.opening = '[' := by cases b <;> decide
  rw [extractFirstJsonValue, extractFrom_skip fromStr hp, extractFrom, if_pos hopening, hafter]
  simp only [hbetween, hj]

theorem concrete_isContainer {N : Type} (number : N → Number) {v : Json N} (hv : IsContainer v) :
    (concrete number v).isContainer = true := by
  cases v with
  | array items => rw [concrete, containerOf_isContainer]
  | object fields => rw [concrete, containerOf_isContainer]
  | null => exact hv.elim
  | bool b => exact hv.elim
  | number n => exact hv.elim
  | string s => exact hv.elim

theorem printed_value_found {N : Type} (number : N → Number) (fromStr : Text → Option (Json N)) {v : Json N}
    (hv : IsContainer v) (hround : fromStr (print number v) = some v) {p : Text}
    (hp : ∀ c ∈ p, c ≠ '{' ∧ c ≠ '[') (q : Text) :
    extractFirstJsonValue fromStr (p ++ print number v ++ q) = some v ∧
      (fromStr (stripJsonFence (p ++ print number v ++ q)) = none →
        parseJsonResponse ⟨fromStr, print number⟩ (p ++ print number v ++ q) = .ok v) := by
  have hcontainer := concrete_isContainer number hv
  obtain ⟨b, inner, hrender⟩ := Value.exists_brackets hcontainer
  have haround : Around b inner (p ++ print number v ++ q) := by
    refine ⟨p, q, hp, ?_⟩
    rw [print, hrender]
    simp
  refine ⟨extract_around hcontainer hrender hround haround, fun hnone => ?_⟩
  have hextract := extract_around hcontainer hrender hround haround.stripJsonFence
  simp only [parseJsonResponse, hnone, hextract]

def answer : Json Number := .object [("act".toList, .array [.string "a\x7d".toList, .number ⟨true, .zero, none, none⟩])]

def readAnswer (t : Text) : Option (Json Number) := if t = print id answer then some answer else none

theorem fenced_answer_found :
    extractFirstJsonValue readAnswer ("```json\nSure: ".toList ++ print id answer ++ "\n```".toList) = some answer ∧
      parseJsonResponse ⟨readAnswer, print id⟩ ("```json\nSure: ".toList ++ print id answer ++ "\n```".toList) =
        .ok answer :=
  have h := printed_value_found id readAnswer (v := answer) trivial (if_pos rfl) (p := "```json\nSure: ".toList)
    (by decide) "\n```".toList
  ⟨h.1, h.2 (if_neg (by decide +kernel))⟩

end Fluent.Llm
