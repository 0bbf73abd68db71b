import Fluent.Rdf.NodeTrace

namespace Fluent.Rdf

open Fluent.Library

theorem anonymousId_injective {m n : ℕ} (h : anonymousId m = anonymousId n) : m = n := by
  have hdigits := utf8_injective (List.cons.inj h).2
  change (Nat.repr m).toList = (Nat.repr n).toList at hdigits
  rw [Nat.toList_repr, Nat.toList_repr] at hdigits
  have hvalue := congrArg (Nat.ofDigitChars 10 · 0) hdigits
  rwa [Nat.ofDigitChars_ten_toDigits, Nat.ofDigitChars_ten_toDigits] at hvalue

def SameLabel (tok tok' : Token) : Prop := tok.kind = .blankNode ∧ tok'.kind = .blankNode ∧ tok.label = tok'.label

def Apart (nodes : List (Token × Bytes)) : Prop := nodes.Pairwise fun a b => a.2 = b.2 → SameLabel a.1 b.1

/-- No label is `b1`, `b2`, … up to the number of the opening brackets. -/
def NoClash (toks : List Token) : Prop :=
  ∀ tok ∈ toks, tok.kind = .blankNode → ∀ count, 1 ≤ count → count ≤ toks.countP Token.isOpen →
    tok.label ≠ anonymousId count

namespace Parser

variable {src : Bytes} {k : ℕ} {p : Parser}

theorem Sound.open_id (h : Sound src k p) {node : Token × Bytes} (hnode : node ∈ p.nodes) (hopen : node.1.isOpen) :
    ∃ c < p.blankCounter, node.2 = anonymousId (c + 1) := by
  have hmem : node.2 ∈ (p.nodes.filter fun node => node.1.isOpen).map Prod.snd :=
    List.mem_map_of_mem (List.mem_filter.mpr ⟨hnode, hopen⟩)
  rw [h.counted] at hmem
  obtain ⟨c, hc, hid⟩ := List.mem_map.mp hmem
  exact ⟨c, List.mem_range.mp hc, hid.symm⟩

theorem Sound.opens_differ (h : Sound src k p) :
    p.nodes.Pairwise fun a b => a.1.isOpen → b.1.isOpen → a.2 ≠ b.2 := by
  have hnodup : ((p.nodes.filter fun node => node.1.isOpen).map Prod.snd).Nodup := by
    rw [h.counted]
    exact List.nodup_range.map fun m n hmn => Nat.succ.inj (anonymousId_injective hmn)
  exact List.pairwise_filter.mp (List.pairwise_map.mp hnodup)

theorem Sound.label_ne (h : Sound src k p) (hclash : NoClash (Lexer.tokens src k)) {a b : Token × Bytes}
    (ha : a ∈ p.nodes) (hlabel : a.1.kind = .blankNode ∧ a.2 = a.1.label) (hb : b ∈ p.nodes) (hopen : b.1.isOpen) :
    a.2 ≠ b.2 := by
  obtain ⟨c, hc, hid⟩ := h.open_id hb hopen
  rw [hid, hlabel.2]
  exact hclash a.1 (h.named a ha).1 hlabel.1 (c + 1) (Nat.le_add_left _ _) (hc.trans_le h.bounded)

theorem Sound.apart (h : Sound src k p) (hclash : NoClash (Lexer.tokens src k)) : Apart p.nodes := by
  refine h.opens_differ.imp_of_mem fun {a b} ha hb hab hid => ?_
  have hisOpen {node : Token × Bytes} (hkind : node.1.kind = .blankNodeOpen) : node.1.isOpen := by
    simp [Token.isOpen, hkind]
  rcases (h.named a ha).2 with hla | hoa
  · rcases (h.named b hb).2 with hlb | hob
    · exact ⟨hla.1, hlb.1, by rw [← hla.2, ← hlb.2, hid]⟩
    · exact absurd hid (h.label_ne hclash ha hla hb (hisOpen hob))
  · rcases (h.named b hb).2 with hlb | hob
    · exact absurd hid.symm (h.label_ne hclash hb hlb ha (hisOpen hoa))
    · exact absurd hid (hab (hisOpen hoa) (hisOpen hob))

theorem reading_new (src : Bytes) (strict : Prop) : Reading src strict (new src) :=
  ⟨0, ⟨rfl, nofun⟩, ⟨nofun, rfl, Nat.zero_le _, nofun⟩, fun _ => ⟨nofun, rfl⟩⟩

theorem after_succ (fuel : ℕ) (src : Bytes) (n : ℕ) : after fuel src (n + 1) = (next fuel (after fuel src n)).2 :=
  Function.iterate_succ_apply' _ n _

variable {fuel : ℕ}

theorem reading_after (fuel : ℕ) (src : Bytes) (n : ℕ) : Reading src False (after fuel src n) := by
  induction n with
  | zero => exact reading_new src False
  | succ n ih =>
    rw [after_succ]
    have hnext := ensures_nextTriple fuel _ ih
    unfold next
    generalize nextTriple fuel (after fuel src n) = r at hnext
    cases hnext with
    | ok _ h => exact h.1
    | error _ h => exact h

theorem grows_after (fuel : ℕ) (src : Bytes) {m n : ℕ} (h : m ≤ n) : Grows (after fuel src m) (after fuel src n) := by
  induction h with
  | refl => exact List.prefix_rfl
  | @step i _ ih =>
    rw [after_succ]
    refine ih.trans ?_
    have hnext := ensures_nextTriple fuel _ (reading_after fuel src i)
    unfold next
    generalize nextTriple fuel (after fuel src i) = r at hnext
    cases hnext with
    | ok hmore _ => exact hmore
    | error hmore _ => exact hmore

def ReadToEnd (fuel : ℕ) (src : Bytes) (n : ℕ) : Prop :=
  (∀ i < n, ∃ t, (next fuel (after fuel src i)).1 = .item (.ok t)) ∧ (next fuel (after fuel src n)).1 = .done

theorem Call.of_eq_item {r : Except Fault (Option Triple)} {t : Triple} (h : Call.of r = .item (.ok t)) :
    r = .ok (some t) := by
  unfold Call.of at h
  split at h <;> simp_all

theorem givesTriple {strict : Prop} {t : Option Triple} (hp : Reading src strict p) (h : (nextTriple fuel p).1 = .ok t) :
    GivesTriple src strict t (nextTriple fuel p).2 := by
  have hnext := ensures_nextTriple fuel p hp
  generalize nextTriple fuel p = r at hnext h
  cases hnext with
  | ok _ ha => exact Except.ok.inj h ▸ ha
  | error _ _ => exact nomatch h

theorem ReadToEnd.reading {n : ℕ} (h : ReadToEnd fuel src n) : ∀ i ≤ n, Reading src True (after fuel src i) := by
  intro i hi
  induction i with
  | zero => exact reading_new src True
  | succ i ih =>
    obtain ⟨t, ht⟩ := h.1 i hi
    rw [after_succ]
    exact (givesTriple (ih (Nat.le_of_succ_le hi)) (Call.of_eq_item ht)).1

def terms (t : Triple) : List Term := [t.subject, t.predicate, t.object]

def Yields (fuel : ℕ) (src : Bytes) (n : ℕ) (t : Triple) : Prop :=
  ∃ i < n, (next fuel (after fuel src i)).1 = .item (.ok t)

theorem Yields.known {n : ℕ} {t : Triple} (h : Yields fuel src n t) {term : Term} (hterm : term ∈ terms t) :
    (after fuel src n).Known term := by
  obtain ⟨i, hi, ht⟩ := h
  have hgives := givesTriple (reading_after fuel src i) (Call.of_eq_item ht)
  have hknown := (hgives.2.1 t rfl).grows (by have := grows_after fuel src hi; rwa [after_succ] at this)
  simp only [terms, List.mem_cons, List.not_mem_nil, or_false] at hterm
  rcases hterm with rfl | rfl | rfl
  · exact hknown.1
  · exact hknown.2.1
  · exact hknown.2.2

end Parser

end Fluent.Rdf
