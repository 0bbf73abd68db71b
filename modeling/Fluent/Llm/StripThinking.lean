import Fluent.Llm.StripTags

open Fluent.Library

namespace Fluent.Llm

open Fluent.Spacy (Text)

def thinkingPairs : List (Text × Text) := thinkPairs ++ [("[THINK]".toList, "[/THINK]".toList)]

def plainStart : Text := " thinking".toList

def plainEnd : Text := " response".toList

def afterPlainBlock (rest : Text) : Option Text := do
  let stop ← findSubseq rest plainEnd
  let after := rest.drop (stop + plainEnd.length)
  if after.head?.all (· = '\n') then some after.tail else none

theorem length_afterPlainBlock {rest after : Text} (h : afterPlainBlock rest = some after) :
    after.length ≤ rest.length := by
  obtain ⟨stop, -, h⟩ := Option.bind_eq_some_iff.mp h
  dsimp only at h
  split at h
  · obtain rfl := Option.some.inj h
    simp only [List.length_tail, List.length_drop]
    omega
  · cases h

def stripPlainThinking (text : Text) : Text :=
  match _h : findSubseq text plainStart with
  | some start =>
    match _h' : afterPlainBlock (text.drop (start + plainStart.length)) with
    | some after => text.take start ++ stripPlainThinking after
    | none => []
  | none => text
termination_by text.length
decreasing_by
  have hafter := length_afterPlainBlock _h'
  obtain ⟨hat, hle, -⟩ := find_spec (_h : find plainStart text = some start)
  have hlen := hat.length_le hle
  have hpos : 0 < plainStart.length := by decide
  rw [List.length_drop] at hafter
  omega

def stripThinkingBlocks (text : Text) : Text :=
  let tagged := stripTagPairs thinkingPairs text
  if tagged ≠ text then tagged else stripPlainThinking text

def firstTag (text : Text) : Option (ℕ × Text × Text) := earliest Prod.fst thinkingPairs text

abbrev BlockReader := Text → Option (ℕ × Option Text)

def tagBlock : BlockReader := fun text =>
  (firstTag text).map fun (start, p) =>
    let rest := text.drop (start + p.1.length)
    (start, (find p.2 rest).map fun stop => rest.drop (stop + p.2.length))

def plainBlock : BlockReader := fun text =>
  (find plainStart text).map fun start => (start, afterPlainBlock (text.drop (start + plainStart.length)))

/-- Block after block, what stands before it is kept; what stands behind it is cut only if the block is not closed. -/
inductive CutsOnlyAfter (block : BlockReader) : Text → Text → Prop
  | unmarked {text : Text} : block text = none → CutsOnlyAfter block text text
  | closed {text after out : Text} {start : ℕ} : block text = some (start, some after) → CutsOnlyAfter block after out →
      CutsOnlyAfter block text (text.take start ++ out)
  | unclosed {text out : Text} {start : ℕ} : block text = some (start, none) → text.take start <+: out →
      CutsOnlyAfter block text out

def KeepsBefore (text : Text) : Prop :=
  CutsOnlyAfter (if (firstTag text).isSome then tagBlock else plainBlock) text (stripThinkingBlocks text)

theorem thinkingPairs_filter : (thinkingPairs.filter fun p => p.1 ≠ []) = thinkingPairs := by decide

theorem marks_ne_nil : ∀ p ∈ thinkingPairs, 0 < p.1.length ∧ p.2 ≠ [] := by decide

section Tags

variable {text : Text}

theorem stripTagPairs_of_no_tag (h : firstTag text = none) : stripTagPairs thinkingPairs text = text := by
  rw [stripTagPairs]
  split
  · next h' =>
    rw [thinkingPairs_filter] at h'
    cases h.symm.trans h'
  · rfl

theorem stripTagPairs_of_tag {start : ℕ} {p : Text × Text} (h : firstTag text = some (start, p)) :
    stripTagPairs thinkingPairs text = text.take start ++ ((find p.2 (text.drop (start + p.1.length))).elim []
      fun stop => stripTagPairs thinkingPairs ((text.drop (start + p.1.length)).drop (stop + p.2.length))) := by
  have hfind : ∀ body, findSubseq body p.2 = find p.2 body := fun body =>
    if_neg (marks_ne_nil p (earliest_spec h).1).2
  rw [stripTagPairs]
  split
  · next start' startMark endMark h' =>
    rw [thinkingPairs_filter] at h'
    obtain ⟨rfl, rfl⟩ := Prod.mk.inj (Option.some.inj (h.symm.trans h'))
    simp only [hfind]
    cases find endMark (text.drop (start + startMark.length)) with
    | none => rfl
    | some stop => rfl
  · next h' =>
    rw [thinkingPairs_filter] at h'
    cases h.symm.trans h'

theorem drop_lt_of_tag {start : ℕ} {p : Text × Text} (h : firstTag text = some (start, p)) (n : ℕ) :
    start < text.length ∧ ((text.drop (start + p.1.length)).drop n).length + start < text.length := by
  obtain ⟨hmem, hat, hle, -⟩ := earliest_spec h
  have hlen := hat.length_le hle
  have hpos := (marks_ne_nil p hmem).1
  simp only [List.length_drop]
  omega

theorem cutsOnlyAfter_tags (text : Text) : CutsOnlyAfter tagBlock text (stripTagPairs thinkingPairs text) := by
  induction hn : text.length using Nat.strong_induction_on generalizing text with
  | _ n ih =>
    cases h : firstTag text with
    | none =>
      rw [stripTagPairs_of_no_tag h]
      exact .unmarked (by rw [tagBlock, h]; rfl)
    | some r =>
      obtain ⟨start, p⟩ := r
      have hblock : tagBlock text = some (start, (find p.2 (text.drop (start + p.1.length))).map
          fun stop => (text.drop (start + p.1.length)).drop (stop + p.2.length)) := by
        rw [tagBlock, h]
        rfl
      rw [stripTagPairs_of_tag h]
      cases hstop : find p.2 (text.drop (start + p.1.length)) with
      | none =>
        rw [hstop] at hblock
        exact .unclosed hblock (List.prefix_append _ _)
      | some stop =>
        rw [hstop] at hblock
        have hlt := (drop_lt_of_tag h (stop + p.2.length)).2
        exact .closed hblock (ih _ (hn ▸ Nat.lt_of_le_of_lt (Nat.le_add_right _ start) hlt) _ rfl)

theorem length_stripTagPairs (text : Text) : (stripTagPairs thinkingPairs text).length ≤ text.length := by
  induction hn : text.length using Nat.strong_induction_on generalizing text with
  | _ n ih =>
    cases h : firstTag text with
    | none =>
      rw [stripTagPairs_of_no_tag h]
      exact hn.le
    | some r =>
      obtain ⟨start, p⟩ := r
      rw [stripTagPairs_of_tag h, List.length_append, List.length_take]
      cases find p.2 (text.drop (start + p.1.length)) with
      | none =>
        simp only [Option.elim_none, List.length_nil]
        omega
      | some stop =>
        have hlt := (drop_lt_of_tag h (stop + p.2.length)).2
        have hshort := ih _ (by omega) ((text.drop (start + p.1.length)).drop (stop + p.2.length)) rfl
        rw [Option.elim_some]
        omega

theorem stripTagPairs_ne {start : ℕ} {p : Text × Text} (h : firstTag text = some (start, p)) :
    stripTagPairs thinkingPairs text ≠ text := by
  intro heq
  have hlength := congrArg List.length heq
  rw [stripTagPairs_of_tag h, List.length_append, List.length_take] at hlength
  have hstart := (drop_lt_of_tag h 0).1
  cases hstop : find p.2 (text.drop (start + p.1.length)) with
  | none =>
    rw [hstop, Option.elim_none, List.length_nil] at hlength
    omega
  | some stop =>
    have hlt := (drop_lt_of_tag h (stop + p.2.length)).2
    have hshort := length_stripTagPairs ((text.drop (start + p.1.length)).drop (stop + p.2.length))
    rw [hstop, Option.elim_some] at hlength
    omega

end Tags

section Plain

variable {text : Text}

theorem stripPlainThinking_of_no_marker (h : find plainStart text = none) : stripPlainThinking text = text := by
  rw [stripPlainThinking]
  split
  · next h' => cases h.symm.trans h'
  · rfl

theorem stripPlainThinking_of_marker {start : ℕ} (h : find plainStart text = some start) :
    stripPlainThinking text = (afterPlainBlock (text.drop (start + plainStart.length))).elim []
      fun after => text.take start ++ stripPlainThinking after := by
  rw [stripPlainThinking]
  split
  · next h' =>
    obtain rfl := Option.some.inj (h.symm.trans h')
    split
    · next hafter =>
      rw [hafter]
      rfl
    · next hafter =>
      rw [hafter]
      rfl
  · next h' => cases h.symm.trans h'

theorem plainBlock_eq_some {start : ℕ} {after : Option Text} (h : plainBlock text = some (start, after)) :
    start < text.length ∧ stripPlainThinking text = after.elim [] (fun after => text.take start ++ stripPlainThinking after) ∧
      ∀ a ∈ after, a.length < text.length := by
  obtain ⟨start', hfind, heq⟩ := Option.map_eq_some_iff.mp h
  obtain ⟨rfl, rfl⟩ := Prod.mk.inj heq
  obtain ⟨hat, hle, -⟩ := find_spec hfind
  have hlen := hat.length_le hle
  have hpos : 0 < plainStart.length := by decide
  refine ⟨by omega, stripPlainThinking_of_marker hfind, fun a ha => ?_⟩
  have hafter := length_afterPlainBlock ha
  rw [List.length_drop] at hafter
  omega

inductive Behind : Text → Text → Prop
  | none {text : Text} : Behind text text
  | closed {text after rest : Text} {start : ℕ} : plainBlock text = some (start, some after) → Behind after rest →
      Behind text rest

theorem CutsOnlyAfter.of_behind {rest : Text} (hrest : Behind text rest)
    (h : CutsOnlyAfter plainBlock text (stripPlainThinking text)) :
    CutsOnlyAfter plainBlock rest (stripPlainThinking rest) := by
  induction hrest with
  | none => exact h
  | @closed text after rest start hblock _ ih =>
    apply ih
    have hstrip := (plainBlock_eq_some hblock).2.1
    generalize hout : stripPlainThinking text = out at h
    cases h with
    | unmarked hnone => cases hblock.symm.trans hnone
    | unclosed hopen _ => cases hblock.symm.trans hopen
    | closed hblock' hafter =>
      cases hblock.symm.trans hblock'
      have heq := List.append_cancel_left (hout.symm.trans hstrip)
      rwa [heq] at hafter

theorem cutsOnlyAfter_plain (text : Text)
    (h : ∀ rest start, Behind text rest → plainBlock rest = some (start, none) → start = 0) :
    CutsOnlyAfter plainBlock text (stripPlainThinking text) := by
  induction hn : text.length using Nat.strong_induction_on generalizing text with
  | _ n ih =>
    cases hblock : plainBlock text with
    | none =>
      rw [stripPlainThinking_of_no_marker (Option.map_eq_none_iff.mp hblock)]
      exact .unmarked hblock
    | some r =>
      obtain ⟨start, after⟩ := r
      obtain ⟨-, hstrip, hlt⟩ := plainBlock_eq_some hblock
      rw [hstrip]
      cases after with
      | none =>
        refine .unclosed hblock ?_
        rw [h text start .none hblock, List.take_zero]
        exact List.nil_prefix
      | some after =>
        exact .closed hblock (ih _ (hn ▸ hlt after rfl) after (fun rest start hrest => h rest start (.closed hblock hrest))
          rfl)

end Plain

/-- In a text without tags, a plain block that nothing closes and that has text before it, behind closed ones or not. -/
def UnclosedPlainBlock (text : Text) : Prop :=
  firstTag text = none ∧ ∃ rest start, Behind text rest ∧ plainBlock rest = some (start, none) ∧ 0 < start

theorem not_keepsBefore {text : Text} (h : UnclosedPlainBlock text) : ¬KeepsBefore text := by
  obtain ⟨htag, rest, start, hrest, hblock, hpos⟩ := h
  unfold KeepsBefore stripThinkingBlocks
  rw [stripTagPairs_of_no_tag htag, if_neg (not_not.mpr rfl), htag]
  intro hcuts
  obtain ⟨hlt, hstrip, -⟩ := plainBlock_eq_some hblock
  have hcuts := CutsOnlyAfter.of_behind hrest hcuts
  generalize hout : stripPlainThinking rest = out at hcuts
  cases hcuts with
  | unmarked hnone => cases hblock.symm.trans hnone
  | closed hclosed _ => cases hblock.symm.trans hclosed
  | unclosed hopen hbegins =>
    cases hblock.symm.trans hopen
    rw [← hout, hstrip, Option.elim_none, List.prefix_nil, List.take_eq_nil_iff] at hbegins
    rcases hbegins with hzero | rfl
    · exact hpos.ne' hzero
    · exact absurd hlt (Nat.not_lt_zero _)

theorem keepsBefore_iff (text : Text) : KeepsBefore text ↔ ¬UnclosedPlainBlock text := by
  refine ⟨fun h hnot => not_keepsBefore hnot h, fun hnot => ?_⟩
  unfold KeepsBefore stripThinkingBlocks
  cases htag : firstTag text with
  | some r =>
    rw [if_pos (stripTagPairs_ne htag)]
    exact cutsOnlyAfter_tags text
  | none =>
    rw [stripTagPairs_of_no_tag htag, if_neg (not_not.mpr rfl)]
    refine cutsOnlyAfter_plain text fun rest start hrest hblock => ?_
    by_contra hne
    exact hnot ⟨htag, rest, start, hrest, hblock, Nat.pos_of_ne_zero hne⟩

theorem plain_block_cuts_before :
    stripThinkingBlocks "Hello thinking unclosed".toList = [] ∧ ¬KeepsBefore "Hello thinking unclosed".toList ∧
      stripThinkingBlocks "A thinking x response\nB thinking unclosed".toList = "A".toList := by
  refine ⟨by decide +kernel, not_keepsBefore ⟨by decide +kernel, _, 5, .none, by decide +kernel, by decide⟩, ?_⟩
  decide +kernel

end Fluent.Llm
