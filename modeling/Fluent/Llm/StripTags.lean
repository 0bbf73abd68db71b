import Fluent.Llm.Thinking

open Fluent.Library

namespace Fluent.Llm

open Fluent.Spacy (Text)
open StreamingThinkFilter

def findSubseq (haystack needle : Text) : Option ℕ := if needle = [] then none else find needle haystack

def stripTagPairs (pairs : List (Text × Text)) (text : Text) : Text :=
  match _h : earliest Prod.fst (pairs.filter fun p => p.1 ≠ []) text with
  | some (start, (startMark, endMark)) =>
    let afterStart := text.drop (start + startMark.length)
    text.take start ++
      match findSubseq afterStart endMark with
      | some stop => stripTagPairs pairs (afterStart.drop (stop + endMark.length))
      | none => []
  | none => text
termination_by text.length
decreasing_by
  obtain ⟨hmem, hat, hle, -⟩ := earliest_spec _h
  have hlen : start + startMark.length ≤ text.length := hat.length_le hle
  have hne : startMark ≠ [] := by simpa using (List.mem_filter.mp hmem).2
  have hpos := List.length_pos_iff.mpr hne
  simp only [List.length_drop]
  omega

def thinkPairs : List (Text × Text) :=
  [("<think>".toList, "</think>".toList), ("<thinking>".toList, "</thinking>".toList)]

def closer (tag : Text) : Text := '<' :: '/' :: tag.tail

structure ThinkBlock where
  opener : Text
  body : Text
  closedBy : Option Text
deriving DecidableEq

theorem length_after_tag {b : Bool} {s : Text} {pos : ℕ} {tag : Text}
    (h : earliest id (tags b) s = some (pos, tag)) : (s.drop (pos + tag.length)).length < s.length := by
  obtain ⟨hmem, hat, hle, -⟩ := earliest_spec h
  have hlen : pos + tag.length ≤ s.length := hat.length_le hle
  have hpos := List.length_pos_iff.mpr (tags_ne_nil b tag hmem)
  rw [List.length_drop]
  omega

def blocks (s : Text) : List ThinkBlock :=
  match _h : earliest id openTags s with
  | none => []
  | some (pos, tag) =>
    match _h' : earliest id closeTags (s.drop (pos + tag.length)) with
    | none => [⟨tag, s.drop (pos + tag.length), none⟩]
    | some (stop, tag') =>
      ⟨tag, (s.drop (pos + tag.length)).take stop, some tag'⟩ ::
        blocks ((s.drop (pos + tag.length)).drop (stop + tag'.length))
termination_by s.length
decreasing_by
  exact (length_after_tag (b := true) _h').trans (length_after_tag (b := false) _h)

namespace ThinkBlock

def ClosedByOwn (b : ThinkBlock) : Prop := ∀ tag ∈ b.closedBy, tag = closer b.opener

def CutShort (b : ThinkBlock) : Prop := b.closedBy = none ∧ tagPrefixes b.body closeTags ≠ []

instance (b : ThinkBlock) : Decidable b.ClosedByOwn :=
  inferInstanceAs (Decidable (∀ tag ∈ b.closedBy, tag = closer b.opener))

instance (b : ThinkBlock) : Decidable b.CutShort :=
  inferInstanceAs (Decidable (b.closedBy = none ∧ tagPrefixes b.body closeTags ≠ []))

end ThinkBlock

theorem earliest_thinkPairs (s : Text) :
    earliest Prod.fst (thinkPairs.filter fun p => p.1 ≠ []) s =
      (earliest id openTags s).map fun r => (r.1, (r.2, closer r.2)) := by
  have hpairs : thinkPairs.filter (fun p => p.1 ≠ []) = openTags.map fun tag => (tag, closer tag) := by decide
  rw [hpairs, earliest_map]
  rfl

theorem closer_mem : ∀ tag ∈ openTags, closer tag ∈ closeTags := by decide

section Steps

variable {s : Text} {pos : ℕ} {tag : Text}

theorem strip_plain (h : earliest id openTags s = none) : stripTagPairs thinkPairs s = s := by
  have hpair := earliest_thinkPairs s
  rw [h] at hpair
  rw [stripTagPairs]
  split
  · next h' =>
    rw [hpair] at h'
    cases h'
  · rfl

theorem strip_block (h : earliest id openTags s = some (pos, tag)) :
    stripTagPairs thinkPairs s = s.take pos ++ ((find (closer tag) (s.drop (pos + tag.length))).elim []
      fun stop => stripTagPairs thinkPairs ((s.drop (pos + tag.length)).drop (stop + (closer tag).length))) := by
  have hpair := earliest_thinkPairs s
  rw [h] at hpair
  rw [stripTagPairs]
  split
  · next h' =>
    rw [hpair] at h'
    obtain ⟨rfl, rfl, rfl⟩ : pos = _ ∧ tag = _ ∧ closer tag = _ := by simpa using h'
    have hfind : ∀ body, findSubseq body (closer tag) = find (closer tag) body :=
      fun body => if_neg (List.cons_ne_nil _ _)
    simp only [hfind]
    cases find (closer tag) (s.drop (pos + tag.length)) with
    | none => rfl
    | some stop => rfl
  · next h' =>
    rw [hpair] at h'
    cases h'

theorem blocks_plain (h : earliest id openTags s = none) : blocks s = [] := by
  rw [blocks]
  split
  · rfl
  · next h' =>
    rw [h] at h'
    cases h'

theorem blocks_open (h : earliest id openTags s = some (pos, tag))
    (hc : earliest id closeTags (s.drop (pos + tag.length)) = none) :
    blocks s = [⟨tag, s.drop (pos + tag.length), none⟩] := by
  rw [blocks]
  split
  · next h' =>
    rw [h] at h'
    cases h'
  · next h' =>
    obtain ⟨rfl, rfl⟩ : pos = _ ∧ tag = _ := by simpa using h.symm.trans h'
    split
    · rfl
    · next hc' =>
      rw [hc] at hc'
      cases hc'

theorem blocks_closed {stop : ℕ} {tag' : Text} (h : earliest id openTags s = some (pos, tag))
    (hc : earliest id closeTags (s.drop (pos + tag.length)) = some (stop, tag')) :
    blocks s = ⟨tag, (s.drop (pos + tag.length)).take stop, some tag'⟩ ::
      blocks ((s.drop (pos + tag.length)).drop (stop + tag'.length)) := by
  rw [blocks]
  split
  · next h' =>
    rw [h] at h'
    cases h'
  · next h' =>
    obtain ⟨rfl, rfl⟩ : pos = _ ∧ tag = _ := by simpa using h.symm.trans h'
    split
    · next hc' =>
      rw [hc] at hc'
      cases hc'
    · next hc' =>
      obtain ⟨rfl, rfl⟩ : stop = _ ∧ tag' = _ := by simpa using hc.symm.trans hc'
      rfl

end Steps

def total (b : Bool) (s : Text) : Text := (scan b s).1 ++ (scan b s).2.finish

theorem total_found {b : Bool} {s : Text} {pos : ℕ} {tag : Text} (h : earliest id (tags b) s = some (pos, tag)) :
    total b s = shown b (s.take pos) ++ total (!b) (s.drop (pos + tag.length)) := by
  rw [total, scan_found h, total, List.append_assoc]

theorem total_outside {s : Text} (h : earliest id openTags s = none) : total false s = s := by
  rw [total, scan_none (b := false) h]
  exact List.take_append_drop _ s

theorem total_inside {s : Text} (h : earliest id closeTags s = none) :
    total true s = [] ↔ tagPrefixes s closeTags = [] := by
  rw [total, scan_none (b := true) h, shown, if_pos rfl, List.nil_append, finish, List.drop_eq_nil_iff,
    ← tagPrefixLen_eq_zero]
  have hle : tagPrefixLen s closeTags ≤ s.length := tagPrefixLen_le true s
  change s.length ≤ s.length - tagPrefixLen s closeTags ↔ _
  omega

theorem find_closer {s tag : Text} {stop : ℕ} (h : earliest id closeTags s = some (stop, tag)) :
    find tag s = some stop := by
  obtain ⟨htag, hat, -, hno⟩ := earliest_spec h
  exact find_eq_some_of_first hat (hno tag htag)

theorem total_eq_strip_iff (s : Text) (hown : ∀ b ∈ blocks s, b.ClosedByOwn) :
    total false s = stripTagPairs thinkPairs s ↔ ∀ b ∈ blocks s, ¬b.CutShort := by
  induction hn : s.length using Nat.strong_induction_on generalizing s with
  | _ n ih =>
    subst hn
    cases h : earliest id openTags s with
    | none =>
      rw [total_outside h, strip_plain h, blocks_plain h]
      simp
    | some r =>
      obtain ⟨pos, tag⟩ := r
      rw [total_found (b := false) h, strip_block h]
      change s.take pos ++ _ = _ ↔ _
      rw [List.append_cancel_left_eq, Bool.not_false]
      cases hc : earliest id closeTags (s.drop (pos + tag.length)) with
      | none =>
        have htag : tag ∈ openTags := (earliest_spec h).1
        have hfind : find (closer tag) (s.drop (pos + tag.length)) = none :=
          find_eq_none.mpr fun i => earliest_eq_none.mp hc (closer tag) (closer_mem tag htag) i
        rw [hfind, Option.elim_none, total_inside hc, blocks_open h hc]
        simp [ThinkBlock.CutShort]
      | some r =>
        obtain ⟨stop, tag'⟩ := r
        rw [blocks_closed h hc] at hown ⊢
        have hself : tag' = closer tag := hown _ List.mem_cons_self tag' rfl
        rw [total_found (b := true) hc, Bool.not_true, ← hself, find_closer hc, Option.elim_some]
        change [] ++ _ = _ ↔ _
        rw [List.nil_append, List.forall_mem_cons]
        have hshort := (length_after_tag (b := true) hc).trans (length_after_tag (b := false) h)
        rw [ih _ hshort _ (fun b hb => hown b (List.mem_cons_of_mem _ hb)) rfl]
        simp [ThinkBlock.CutShort]

theorem filtered_whole (s : Text) : filtered [s] = total false s := by
  unfold filtered pushAll pushAll push total
  simp [new]

theorem stream_eq_batch_iff (s : Text) (hown : ∀ b ∈ blocks s, b.ClosedByOwn) :
    filtered [s] = stripTagPairs thinkPairs s ↔ ∀ b ∈ blocks s, ¬b.CutShort := by
  rw [filtered_whole]
  exact total_eq_strip_iff s hown

theorem stream_eq_batch_after_block :
    filtered ["x<think>a</thinkin</think>y<".toList] =
      stripTagPairs thinkPairs "x<think>a</thinkin</think>y<".toList :=
  (stream_eq_batch_iff _ (by decide +kernel)).mpr (by decide +kernel)

theorem stream_ne_batch :
    filtered ["<think>a</thinking>b".toList] = "b".toList ∧
      stripTagPairs thinkPairs "<think>a</thinking>b".toList = [] ∧
      filtered ["<think>a</thi".toList] = "</thi".toList ∧
      stripTagPairs thinkPairs "<think>a</thi".toList = [] := by decide +kernel

end Fluent.Llm
