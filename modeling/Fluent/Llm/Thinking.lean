import Mathlib.Order.Lattice.Nat
import Mathlib.Order.MinMax
import Fluent.Library.Substring
import Fluent.Spacy.Hash

open Fluent.Library

namespace Fluent.Llm

open Fluent.Spacy (Text)

structure StreamingThinkFilter where
  inThinkBlock : Bool
  pending : Text
deriving DecidableEq

namespace StreamingThinkFilter

def new : StreamingThinkFilter := ⟨false, []⟩

def openTags : List Text := ["<think>".toList, "<thinking>".toList]

def closeTags : List Text := ["</think>".toList, "</thinking>".toList]

def tags (inThinkBlock : Bool) : List Text := if inThinkBlock then closeTags else openTags

def tagPrefixes (s : Text) (tags : List Text) : List ℕ :=
  tags.flatMap fun tag => (List.range' 1 (tag.length - 1)).filter fun len => tag.take len <:+ s

def tagPrefixLen (s : Text) (tags : List Text) : ℕ := (tagPrefixes s tags).foldl max 0

theorem mem_tagPrefixes {s : Text} {tags : List Text} {len : ℕ} :
    len ∈ tagPrefixes s tags ↔ ∃ tag ∈ tags, 0 < len ∧ len < tag.length ∧ tag.take len <:+ s := by
  simp only [tagPrefixes, List.mem_flatMap, List.mem_filter, List.mem_range'_1, decide_eq_true_eq]
  constructor
  · rintro ⟨tag, htag, hlen, hsuffix⟩
    exact ⟨tag, htag, by omega, by omega, hsuffix⟩
  · rintro ⟨tag, htag, hpos, hlt, hsuffix⟩
    exact ⟨tag, htag, by omega, hsuffix⟩

theorem foldl_max_mem (ns : List ℕ) (n : ℕ) : ns.foldl max n ∈ n :: ns ∧ ∀ m ∈ n :: ns, m ≤ ns.foldl max n := by
  induction ns generalizing n with
  | nil => simp
  | cons k ns ih =>
    obtain ⟨hmem, hle⟩ := ih (max n k)
    rw [List.foldl_cons]
    constructor
    · rcases List.mem_cons.mp hmem with h | h
      · rw [h]
        rcases max_choice n k with hm | hm
        · simp [hm]
        · simp [hm]
      · simp [h]
    · intro m hm
      have hmax := hle (max n k) List.mem_cons_self
      rcases List.mem_cons.mp hm with rfl | hm
      · exact (le_max_left _ _).trans hmax
      rcases List.mem_cons.mp hm with rfl | hm
      · exact (le_max_right _ _).trans hmax
      · exact hle m (List.mem_cons_of_mem _ hm)

theorem le_tagPrefixLen {s tag : Text} {tags : List Text} {len : ℕ} (htag : tag ∈ tags) (hlen : len < tag.length)
    (hsuffix : tag.take len <:+ s) : len ≤ tagPrefixLen s tags := by
  rcases Nat.eq_zero_or_pos len with rfl | hpos
  · exact Nat.zero_le _
  · apply (foldl_max_mem _ 0).2
    exact List.mem_cons_of_mem _ (mem_tagPrefixes.mpr ⟨tag, htag, hpos, hlen, hsuffix⟩)

theorem tagPrefixLen_spec (s : Text) {tags : List Text} (hne : ∀ tag ∈ tags, tag ≠ []) (htags : tags ≠ []) :
    ∃ tag ∈ tags, tagPrefixLen s tags < tag.length ∧ tag.take (tagPrefixLen s tags) <:+ s := by
  rcases List.mem_cons.mp (foldl_max_mem (tagPrefixes s tags) 0).1 with h | h
  · obtain ⟨tag, htag⟩ := List.exists_mem_of_ne_nil tags htags
    refine ⟨tag, htag, ?_, ?_⟩
    · rw [tagPrefixLen, h]
      exact List.length_pos_iff.mpr (hne tag htag)
    · rw [tagPrefixLen, h]
      exact List.nil_suffix
  · obtain ⟨tag, htag, -, hlt, hsuffix⟩ := mem_tagPrefixes.mp h
    exact ⟨tag, htag, hlt, hsuffix⟩

theorem tagPrefixLen_eq_zero {s : Text} {tags : List Text} : tagPrefixLen s tags = 0 ↔ tagPrefixes s tags = [] := by
  constructor
  · intro hzero
    rw [List.eq_nil_iff_forall_not_mem]
    intro len hlen
    obtain ⟨tag, htag, hpos, hlt, hsuffix⟩ := mem_tagPrefixes.mp hlen
    have hle := le_tagPrefixLen htag hlt hsuffix
    omega
  · intro hnil
    rw [tagPrefixLen, hnil]
    rfl

def shown (inThinkBlock : Bool) (s : Text) : Text := if inThinkBlock then [] else s

theorem tags_ne_nil : ∀ b, ∀ tag ∈ tags b, tag ≠ [] := by decide

def scan (inThinkBlock : Bool) (remaining : Text) : Text × StreamingThinkFilter :=
  match _h : earliest id (tags inThinkBlock) remaining with
  | some (pos, tag) =>
    let r := scan (!inThinkBlock) (remaining.drop (pos + tag.length))
    (shown inThinkBlock (remaining.take pos) ++ r.1, r.2)
  | none =>
    let hold := tagPrefixLen remaining (tags inThinkBlock)
    (shown inThinkBlock (remaining.take (remaining.length - hold)),
      ⟨inThinkBlock, remaining.drop (remaining.length - hold)⟩)
termination_by remaining.length
decreasing_by
  obtain ⟨hmem, hat, hle, -⟩ := earliest_spec _h
  have hlen := hat.length_le hle
  have hpos := List.length_pos_iff.mpr (tags_ne_nil _ _ hmem)
  rw [List.length_drop]
  simp only [id_eq] at hlen
  omega

def push (f : StreamingThinkFilter) (delta : Text) : Text × StreamingThinkFilter :=
  scan f.inThinkBlock (f.pending ++ delta)

def finish (f : StreamingThinkFilter) : Text := f.pending

def pushAll (f : StreamingThinkFilter) : List Text → Text × StreamingThinkFilter
  | [] => ([], f)
  | delta :: deltas =>
    let r := f.push delta
    let rest := r.2.pushAll deltas
    (r.1 ++ rest.1, rest.2)

def filtered (deltas : List Text) : Text :=
  let r := new.pushAll deltas
  r.1 ++ r.2.finish

theorem scan_found {b : Bool} {s : Text} {pos : ℕ} {tag : Text} (h : earliest id (tags b) s = some (pos, tag)) :
    scan b s = (shown b (s.take pos) ++ (scan (!b) (s.drop (pos + tag.length))).1,
      (scan (!b) (s.drop (pos + tag.length))).2) := by
  rw [scan]
  split
  · next pos' tag' h' =>
    obtain ⟨rfl, rfl⟩ := Prod.mk.inj (Option.some.inj (h.symm.trans h'))
    rfl
  · next h' =>
    rw [h] at h'
    cases h'

theorem scan_none {b : Bool} {s : Text} (h : earliest id (tags b) s = none) :
    scan b s = (shown b (s.take (s.length - tagPrefixLen s (tags b))),
      ⟨b, s.drop (s.length - tagPrefixLen s (tags b))⟩) := by
  rw [scan]
  split
  · next h' =>
    rw [h] at h'
    cases h'
  · rfl

variable (b : Bool)

theorem shown_append (s u : Text) : shown b (s ++ u) = shown b s ++ shown b u := by
  cases b
  · rfl
  · rfl

/-! Every tag starts with `<` and has no other one, so tags neither overlap nor hold one another. -/

theorem tag_shape : ∀ b, ∀ tag ∈ tags b, tag.head? = some '<' ∧ '<' ∉ tag.tail := by decide

theorem tag_prefix_free : ∀ b, ∀ tag ∈ tags b, ∀ tag' ∈ tags b, tag <+: tag' → tag = tag' := by decide

theorem not_standsAt_inside {b : Bool} {s tag tag' : Text} {i j : ℕ} (htag : tag ∈ tags b) (htag' : tag' ∈ tags b)
    (hi : StandsAt tag s i) (hj : StandsAt tag' s j) (hlt : j < i) : j + tag'.length ≤ i := by
  by_contra hover
  have hpos := List.length_pos_iff.mpr (tags_ne_nil b tag htag)
  have hhead : s[i]? = some '<' := by
    have h := hi.getElem? hpos
    rw [Nat.add_zero, ← List.head?_eq_getElem?, (tag_shape b tag htag).1] at h
    exact h
  have hmid : tag'[i - j]? = some '<' := by
    rw [← hj.getElem? (by omega), ← hhead]
    congr 1
    omega
  apply (tag_shape b tag' htag').2
  rw [List.mem_iff_getElem?]
  refine ⟨i - j - 1, ?_⟩
  rw [List.getElem?_tail, ← hmid]
  congr 1
  omega

theorem earliest_tag_append {b : Bool} {s : Text} {pos : ℕ} {tag : Text}
    (h : earliest id (tags b) s = some (pos, tag)) (u : Text) :
    earliest id (tags b) (s ++ u) = some (pos, tag) := by
  obtain ⟨htag, hat, hle, hno⟩ := earliest_spec h
  have hat' : StandsAt tag (s ++ u) pos := hat.append hle u
  have hlen := hat.length_le hle
  cases he : earliest id (tags b) (s ++ u) with
  | none => exact absurd hat' (earliest_eq_none.mp he tag htag pos)
  | some r =>
    obtain ⟨pos', tag'⟩ := r
    obtain ⟨htag', hat'', hle', hno'⟩ := earliest_spec he
    have hge : pos' ≤ pos := by
      by_contra hlt
      exact hno' tag htag pos (Nat.lt_of_not_le hlt) hat'
    have heq : pos' = pos := by
      by_contra hne
      have hlt : pos' < pos := by omega
      have hend := not_standsAt_inside htag htag' hat' hat'' hlt
      rcases StandsAt.of_append hat'' (by omega) with hin | ⟨-, hout⟩
      · exact hno tag' htag' pos' hlt hin
      · simp only [id_eq] at hlen hout hend
        omega
    subst heq
    rcases List.prefix_or_prefix_of_prefix hat' hat'' with hp | hp
    · rw [tag_prefix_free b tag htag tag' htag' hp]
    · rw [tag_prefix_free b tag' htag' tag htag hp]

theorem tags_nonempty : tags b ≠ [] := by
  cases b
  · decide
  · decide

theorem tagPrefixLen_le (s : Text) : tagPrefixLen s (tags b) ≤ s.length := by
  obtain ⟨tag, -, hlt, hsuffix⟩ := tagPrefixLen_spec s (tags_ne_nil b) (tags_nonempty b)
  have hle := hsuffix.length_le
  rw [List.length_take] at hle
  omega

def heldFrom (s : Text) : ℕ := s.length - tagPrefixLen s (tags b)

theorem heldFrom_le (s : Text) : heldFrom b s ≤ s.length := Nat.sub_le _ _

theorem held_eq (s : Text) :
    ∃ tag ∈ tags b, tagPrefixLen s (tags b) < tag.length ∧
      s.drop (heldFrom b s) = tag.take (tagPrefixLen s (tags b)) := by
  obtain ⟨tag, htag, hlt, hsuffix⟩ := tagPrefixLen_spec s (tags_ne_nil b) (tags_nonempty b)
  refine ⟨tag, htag, hlt, ?_⟩
  have hdrop := List.suffix_iff_eq_drop.mp hsuffix
  rw [List.length_take, Nat.min_eq_left hlt.le] at hdrop
  exact hdrop.symm

theorem not_standsAt_before_held {b : Bool} {s u tag : Text} {j : ℕ} (h : earliest id (tags b) s = none)
    (htag : tag ∈ tags b) (hj : j < heldFrom b s) : ¬StandsAt tag (s ++ u) j := by
  intro hat
  have hle := heldFrom_le b s
  rcases hat.of_append (by omega) with hin | ⟨hpre, hout⟩
  · exact earliest_eq_none.mp h tag htag j hin
  · have htake : tag.take (s.length - j) <:+ s := by
      have heq := List.prefix_iff_eq_take.mp hpre
      rw [List.length_drop] at heq
      rw [← heq]
      exact List.drop_suffix j s
    have hmax := le_tagPrefixLen htag (by omega) htake
    unfold heldFrom at hj
    omega

theorem earliest_held {b : Bool} {s : Text} (h : earliest id (tags b) s = none) (u : Text) :
    earliest id (tags b) (s ++ u) =
      (earliest id (tags b) (s.drop (heldFrom b s) ++ u)).map fun r => (heldFrom b s + r.1, r.2) := by
  have hsplit : s ++ u = s.take (heldFrom b s) ++ (s.drop (heldFrom b s) ++ u) := by
    rw [← List.append_assoc, List.take_append_drop]
  have hlen : (s.take (heldFrom b s)).length = heldFrom b s :=
    List.length_take_of_le (heldFrom_le b s)
  rw [hsplit, earliest_append, hlen]
  intro tag htag j hj
  rw [← hsplit]
  rw [hlen] at hj
  exact not_standsAt_before_held h htag hj

theorem length_held (s : Text) : (s.drop (heldFrom b s)).length = tagPrefixLen s (tags b) := by
  have hle := tagPrefixLen_le b s
  rw [List.length_drop, heldFrom]
  omega

theorem take_suffix_held_iff {b : Bool} {s u tag : Text} {len : ℕ} (htag : tag ∈ tags b) (hlen : len < tag.length) :
    tag.take len <:+ s ++ u ↔ tag.take len <:+ s.drop (heldFrom b s) ++ u := by
  have hpart : s.drop (heldFrom b s) ++ u <:+ s ++ u := List.suffix_append_self_iff.mpr (List.drop_suffix _ s)
  refine ⟨fun hsuffix => ?_, fun hsuffix => hsuffix.trans hpart⟩
  have htake : (tag.take len).length = len := List.length_take_of_le hlen.le
  by_cases hfit : len ≤ (s.drop (heldFrom b s) ++ u).length
  · exact List.suffix_of_suffix_length_le hsuffix hpart (htake.trans_le hfit)
  · rw [List.length_append, length_held] at hfit
    have hu : u <:+ tag.take len := by
      apply List.suffix_of_suffix_length_le (List.suffix_append s u) hsuffix
      omega
    obtain ⟨w, hw⟩ := hu
    have hwlen : w.length + u.length = len := by
      rw [← List.length_append, hw, htake]
    have hwtag : tag.take w.length = w := by
      have h := congrArg (List.take w.length) hw
      rw [List.take_left, List.take_take, Nat.min_eq_left (by omega)] at h
      exact h.symm
    rw [← hw, List.suffix_append_self_iff] at hsuffix
    have hmax : w.length ≤ tagPrefixLen s (tags b) := le_tagPrefixLen htag (by omega) (hwtag.symm ▸ hsuffix)
    omega

theorem tagPrefixLen_held (s u : Text) :
    tagPrefixLen (s.drop (heldFrom b s) ++ u) (tags b) = tagPrefixLen (s ++ u) (tags b) := by
  unfold tagPrefixLen tagPrefixes
  congr 1
  apply List.flatMap_congr
  intro tag htag
  apply List.filter_congr
  intro len hlen
  rw [List.mem_range'_1] at hlen
  rw [decide_eq_decide]
  exact (take_suffix_held_iff htag (by omega)).symm

theorem scan_held {b : Bool} {s : Text} (h : earliest id (tags b) s = none) (u : Text) :
    scan b (s ++ u) = (shown b (s.take (heldFrom b s)) ++ (scan b (s.drop (heldFrom b s) ++ u)).1,
      (scan b (s.drop (heldFrom b s) ++ u)).2) := by
  have hsplit : s ++ u = s.take (heldFrom b s) ++ (s.drop (heldFrom b s) ++ u) := by
    rw [← List.append_assoc, List.take_append_drop]
  have hlen : (s.take (heldFrom b s)).length = heldFrom b s :=
    List.length_take_of_le (heldFrom_le b s)
  have hfirst := earliest_held h u
  have htake : ∀ k, (s ++ u).take (heldFrom b s + k) =
      s.take (heldFrom b s) ++ (s.drop (heldFrom b s) ++ u).take k := by
    intro k
    have h : (s.take (heldFrom b s) ++ (s.drop (heldFrom b s) ++ u)).take ((s.take (heldFrom b s)).length + k) =
        s.take (heldFrom b s) ++ (s.drop (heldFrom b s) ++ u).take k := List.take_length_add_append k
    rw [hlen, ← hsplit] at h
    exact h
  have hdrop : ∀ k, (s ++ u).drop (heldFrom b s + k) = (s.drop (heldFrom b s) ++ u).drop k := by
    intro k
    have h : (s.take (heldFrom b s) ++ (s.drop (heldFrom b s) ++ u)).drop ((s.take (heldFrom b s)).length + k) =
        (s.drop (heldFrom b s) ++ u).drop k := List.drop_length_add_append k
    rw [hlen, ← hsplit] at h
    exact h
  cases he : earliest id (tags b) (s.drop (heldFrom b s) ++ u) with
  | some r =>
    obtain ⟨pos, tag⟩ := r
    rw [he] at hfirst
    rw [scan_found hfirst, scan_found he, htake, shown_append, Nat.add_assoc, hdrop, List.append_assoc]
  | none =>
    rw [he] at hfirst
    have hle := tagPrefixLen_le b (s.drop (heldFrom b s) ++ u)
    have hheld := tagPrefixLen_held b s u
    have hsum : (s ++ u).length = heldFrom b s + (s.drop (heldFrom b s) ++ u).length := by
      rw [hsplit, List.length_append, hlen]
    have hcut : (s ++ u).length - tagPrefixLen (s ++ u) (tags b) = heldFrom b s +
        ((s.drop (heldFrom b s) ++ u).length - tagPrefixLen (s.drop (heldFrom b s) ++ u) (tags b)) := by
      omega
    rw [scan_none hfirst, scan_none he, hcut, htake, hdrop, shown_append]

theorem scan_append (s u : Text) :
    scan b (s ++ u) = ((scan b s).1 ++ ((scan b s).2.push u).1, ((scan b s).2.push u).2) := by
  induction hn : s.length using Nat.strong_induction_on generalizing b s with
  | _ n ih =>
    cases he : earliest id (tags b) s with
    | none =>
      rw [scan_held he, scan_none he]
      rfl
    | some r =>
      obtain ⟨pos, tag⟩ := r
      obtain ⟨htag, hat, hle, -⟩ := earliest_spec he
      have hlen := hat.length_le hle
      have hpos := List.length_pos_iff.mpr (tags_ne_nil b tag htag)
      simp only [id_eq] at hlen
      have hshort : (s.drop (pos + tag.length)).length < n := by
        rw [List.length_drop]
        omega
      have hrest := ih _ hshort (!b) (s.drop (pos + tag.length)) rfl
      rw [scan_found (earliest_tag_append he u), scan_found he, List.take_append_of_le_length hle,
        List.drop_append_of_le_length hlen, hrest, List.append_assoc]

theorem push_nil (s : Text) : (scan b s).2.push [] = ([], (scan b s).2) := by
  have h := scan_append b s []
  rw [List.append_nil] at h
  exact Prod.ext (List.self_eq_append_right.mp (congrArg Prod.fst h)) (congrArg Prod.snd h).symm

theorem pushAll_eq {f : StreamingThinkFilter} (hf : f.push [] = ([], f)) (deltas : List Text) :
    f.pushAll deltas = f.push deltas.flatten := by
  induction deltas generalizing f with
  | nil => exact hf.symm
  | cons delta deltas ih =>
    have hrest : (f.push delta).2.push [] = ([], (f.push delta).2) := push_nil _ _
    rw [pushAll, ih hrest, List.flatten_cons]
    change _ = scan f.inThinkBlock (f.pending ++ (delta ++ deltas.flatten))
    rw [← List.append_assoc, scan_append]
    rfl

theorem pushAll_concat (f : StreamingThinkFilter) (deltas : List Text) (last : Text) :
    f.pushAll (deltas ++ [last]) =
      ((f.pushAll deltas).1 ++ ((f.pushAll deltas).2.push last).1, ((f.pushAll deltas).2.push last).2) := by
  induction deltas generalizing f with
  | nil => exact Prod.ext (List.append_nil _) rfl
  | cons delta deltas ih =>
    rw [List.cons_append, pushAll, ih, pushAll]
    dsimp only
    rw [List.append_assoc]

theorem new_push_nil : new.push [] = ([], new) := by
  have hnone : earliest id (tags false) [] = none := by decide
  change scan false [] = _
  rw [scan_none hnone]
  rfl

theorem scan_pending (s : Text) :
    ∃ c, ∃ tag ∈ tags c, (scan b s).2.pending <+: tag ∧ (scan b s).2.pending ≠ tag := by
  induction hn : s.length using Nat.strong_induction_on generalizing b s with
  | _ n ih =>
    cases he : earliest id (tags b) s with
    | none =>
      rw [scan_none he]
      obtain ⟨tag, htag, hlt, heq⟩ := held_eq b s
      refine ⟨b, tag, htag, ?_, ?_⟩
      · change s.drop (heldFrom b s) <+: tag
        rw [heq]
        exact List.take_prefix _ tag
      · change s.drop (heldFrom b s) ≠ tag
        intro hwhole
        have hlen := length_held b s
        rw [hwhole] at hlen
        omega
    | some r =>
      obtain ⟨pos, tag⟩ := r
      obtain ⟨htag, hat, hle, -⟩ := earliest_spec he
      have hlen := hat.length_le hle
      have hpos := List.length_pos_iff.mpr (tags_ne_nil b tag htag)
      simp only [id_eq] at hlen
      rw [scan_found he]
      apply ih _ _ (!b) _ rfl
      rw [List.length_drop]
      omega

theorem streaming_cut_independent :
    (∀ deltas deltas' : List Text, deltas.flatten = deltas'.flatten → filtered deltas = filtered deltas') ∧
      ∀ (deltas : List Text) (delta : Text), ∃ tag ∈ openTags ++ closeTags,
        ((new.pushAll deltas).2.push delta).2.pending <+: tag ∧ ((new.pushAll deltas).2.push delta).2.pending ≠ tag := by
  constructor
  · intro deltas deltas' hflat
    rw [filtered, filtered, pushAll_eq new_push_nil, pushAll_eq new_push_nil, hflat]
  · intro deltas delta
    obtain ⟨c, tag, htag, hpref, hne⟩ :=
      scan_pending (new.pushAll deltas).2.inThinkBlock ((new.pushAll deltas).2.pending ++ delta)
    refine ⟨tag, ?_, hpref, hne⟩
    cases c
    · exact List.mem_append_left _ htag
    · exact List.mem_append_right _ htag

theorem streaming_cut_inside_tags :
    filtered ["a<thi".toList, "nk>b</thinki".toList, "ng>c<".toList] = "ac<".toList ∧
      filtered ["a<thi".toList, "nk>b</thinki".toList, "ng>c<".toList] =
        filtered ["a<think>b</thinking>c<".toList] :=
  ⟨by decide +kernel, streaming_cut_independent.1 _ _ (by decide)⟩

end StreamingThinkFilter

end Fluent.Llm
