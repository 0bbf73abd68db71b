import Mathlib.Data.List.Basic
import Mathlib.Order.Lattice.Nat

namespace Fluent.Onnx

abbrev ByteSpan := ℕ × ℕ

structure SpacyTokenAlignment where
  lfmToSpacy : List (Option ℕ)
  spacyToLfm : List (ℕ × ℕ)
deriving DecidableEq

namespace SpacyTokenAligner

def overlap (span token : ByteSpan) : ℕ := min span.2 token.2 - max span.1 token.1

def better (span : ByteSpan) (best : Option (ℕ × ℕ)) (token : ByteSpan × ℕ) : Option (ℕ × ℕ) :=
  if overlap span token.1 = 0 then best
  else
    match best with
    | some (i, cur) => if overlap span token.1 ≤ cur then some (i, cur) else some (token.2, overlap span token.1)
    | none => some (token.2, overlap span token.1)

def bestOverlap (spacySpans : List ByteSpan) (span : ByteSpan) : Option ℕ :=
  (spacySpans.zipIdx.foldl (better span) none).map Prod.fst

def advance (spacySpans : List ByteSpan) (s j : ℕ) : ℕ := j + ((spacySpans.drop j).takeWhile (·.2 ≤ s)).length

def mapSpans (spacySpans : List ByteSpan) : ℕ → List ByteSpan → List (Option ℕ)
  | _, [] => []
  | j, (s, e) :: lfmSpans =>
    if s = e then none :: mapSpans spacySpans j lfmSpans
    else
      let j' := advance spacySpans s j
      (match spacySpans[j']? with
        | none => if 0 < spacySpans.length then bestOverlap spacySpans (s, e) else none
        | some (ss, se) => if ss ≤ s ∧ e ≤ se then some j' else bestOverlap spacySpans (s, e)) ::
        mapSpans spacySpans j' lfmSpans

def start (mapped : List (Option ℕ)) (j : ℕ) : Option ℕ :=
  mapped.zipIdx.foldl (fun a m => if m.1 = some j then some (a.elim m.2 (min · m.2)) else a) none

def stop (mapped : List (Option ℕ)) (j : ℕ) : ℕ :=
  mapped.zipIdx.foldl (fun a m => if m.1 = some j then max a (m.2 + 1) else a) 0

def rangeOf (mapped : List (Option ℕ)) (j : ℕ) : ℕ × ℕ :=
  match start mapped j with
  | some a => if a ≤ stop mapped j then (a, stop mapped j) else (0, 0)
  | none => (0, 0)

def align (spacySpans lfmSpans : List ByteSpan) : SpacyTokenAlignment :=
  let mapped := mapSpans spacySpans 0 lfmSpans
  ⟨mapped, (List.range spacySpans.length).map (rangeOf mapped)⟩

structure Ordered (spans : List ByteSpan) : Prop where
  proper : ∀ t ∈ spans, t.1 ≤ t.2
  apart : spans.Pairwise fun t u => t.1 ≤ u.1 ∧ (t.1 < t.2 → u.1 < u.2 → t.2 ≤ u.1)

structure FirstBest (spans : List ByteSpan) (span : ByteSpan) (j : ℕ) (o : ℕ) : Prop where
  here : (spans[j]?).map (overlap span) = some o
  pos : 0 < o
  greatest : ∀ t ∈ spans, overlap span t ≤ o
  first : ∀ t ∈ spans.take j, overlap span t < o

section Best

variable {spans : List ByteSpan} {span t : ByteSpan} {j j' o o' : ℕ}

theorem FirstBest.lt (h : FirstBest spans span j o) : j < spans.length := by
  have hhere := h.here
  by_contra hlt
  rw [List.getElem?_eq_none (by omega)] at hhere
  cases hhere

theorem FirstBest.overlap_eq (h : FirstBest spans span j o) : overlap span (spans.get ⟨j, h.lt⟩) = o := by
  have hhere := h.here
  rw [List.getElem?_eq_getElem h.lt] at hhere
  exact Option.some.inj hhere

theorem FirstBest.le (h : FirstBest spans span j o) (h' : FirstBest spans span j' o') : j' ≤ j := by
  by_contra hlt
  have hj := h.lt
  have hj' := h'.lt
  have ho : overlap span spans[j] = o := h.overlap_eq
  have ho' : overlap span spans[j'] = o' := h'.overlap_eq
  have hfirst := h'.first spans[j] (List.mem_take_iff_getElem.mpr ⟨j, by omega, rfl⟩)
  have hgreatest := h.greatest spans[j'] (List.getElem_mem hj')
  omega

theorem FirstBest.append (h : FirstBest spans span j o) (ht : overlap span t ≤ o) :
    FirstBest (spans ++ [t]) span j o where
  here := by
    rw [List.getElem?_append_left h.lt]
    exact h.here
  pos := h.pos
  greatest u hu := by
    rcases List.mem_append.mp hu with hu | hu
    · exact h.greatest u hu
    · rwa [List.mem_singleton.mp hu]
  first u hu := by
    rw [List.take_append_of_le_length h.lt.le] at hu
    exact h.first u hu

theorem FirstBest.last (hpos : 0 < overlap span t) (h : ∀ u ∈ spans, overlap span u < overlap span t) :
    FirstBest (spans ++ [t]) span spans.length (overlap span t) where
  here := by rw [List.getElem?_concat_length]; rfl
  pos := hpos
  greatest u hu := by
    rcases List.mem_append.mp hu with hu | hu
    · exact (h u hu).le
    · rw [List.mem_singleton.mp hu]
  first u hu := by
    rw [List.take_left] at hu
    exact h u hu

theorem best_cases (spans : List ByteSpan) (span : ByteSpan) :
    (∀ t ∈ spans, overlap span t = 0) ∧ spans.zipIdx.foldl (better span) none = none ∨
      ∃ j o, FirstBest spans span j o ∧ spans.zipIdx.foldl (better span) none = some (j, o) := by
  induction spans using List.reverseRecOn with
  | nil => exact .inl ⟨nofun, rfl⟩
  | append_singleton spans t ih =>
    have hlast : (spans ++ [t]).zipIdx.foldl (better span) none =
        better span (spans.zipIdx.foldl (better span) none) (t, spans.length) := by
      rw [List.zipIdx_append, List.foldl_append, Nat.zero_add]
      rfl
    rw [hlast]
    unfold better
    by_cases hzero : overlap span t = 0
    · rw [if_pos hzero]
      refine ih.imp (fun ⟨hall, hfold⟩ => ⟨fun u hu => ?_, hfold⟩) fun ⟨j, o, hbest, hfold⟩ =>
        ⟨j, o, hbest.append (hzero.trans_le (Nat.zero_le o)), hfold⟩
      rcases List.mem_append.mp hu with hu | hu
      · exact hall u hu
      · rwa [List.mem_singleton.mp hu]
    · rw [if_neg hzero]
      have hpos := Nat.pos_of_ne_zero hzero
      right
      rcases ih with ⟨hall, hfold⟩ | ⟨j, o, hbest, hfold⟩
      · refine ⟨spans.length, overlap span t, .last hpos fun u hu => ?_, ?_⟩
        · rw [hall u hu]
          exact hpos
        · unfold better at hfold
          rw [hfold]
      · unfold better at hfold
        rw [hfold]
        dsimp only
        split_ifs with hle
        · exact ⟨j, o, hbest.append hle, rfl⟩
        · exact ⟨spans.length, overlap span t, .last hpos fun u hu => (hbest.greatest u hu).trans_lt (not_le.mp hle), rfl⟩

theorem bestOverlap_eq_some : bestOverlap spans span = some j ↔ ∃ o, FirstBest spans span j o := by
  unfold bestOverlap
  rcases best_cases spans span with ⟨hall, hfold⟩ | ⟨k, o, hbest, hfold⟩
  · rw [hfold]
    refine ⟨nofun, fun ⟨o, h⟩ => ?_⟩
    have hzero := hall _ (List.getElem_mem h.lt)
    exact absurd (h.overlap_eq.symm.trans hzero) h.pos.ne'
  · rw [hfold]
    refine ⟨fun h => ⟨o, Option.some.inj h ▸ hbest⟩, fun ⟨o', h⟩ => ?_⟩
    exact congrArg some (le_antisymm (h.le hbest) (hbest.le h))

theorem bestOverlap_eq_none : bestOverlap spans span = none ↔ ∀ t ∈ spans, overlap span t = 0 := by
  unfold bestOverlap
  rcases best_cases spans span with ⟨hall, hfold⟩ | ⟨j, o, hbest, hfold⟩
  · rw [hfold]
    exact iff_of_true rfl hall
  · rw [hfold]
    refine iff_of_false nofun fun hall => ?_
    exact absurd (hbest.overlap_eq.symm.trans (hall _ (List.getElem_mem hbest.lt))) hbest.pos.ne'

theorem overlap_pos : 0 < overlap span t ↔ (span.1 < span.2 ∧ t.1 < t.2) ∧ t.1 < span.2 ∧ span.1 < t.2 := by
  unfold overlap
  omega

theorem bestOverlap_of_contained (hspan : span.1 < span.2) (ht : spans[j]? = some t) (hstart : t.1 ≤ span.1)
    (hstop : span.2 ≤ t.2) (hbefore : ∀ u ∈ spans.take j, overlap span u = 0) : bestOverlap spans span = some j := by
  have hfull : overlap span t = span.2 - span.1 := by
    unfold overlap
    omega
  refine bestOverlap_eq_some.mpr ⟨span.2 - span.1, ?_, by omega, fun u _ => ?_, fun u hu => ?_⟩
  · rw [ht, Option.map_some, hfull]
  · unfold overlap
    omega
  · rw [hbefore u hu]
    omega

end Best

def target (spacySpans : List ByteSpan) (span : ByteSpan) : Option ℕ :=
  if span.1 = span.2 then none else bestOverlap spacySpans span

theorem mapSpans_eq {spacySpans lfmSpans : List ByteSpan} (h : Ordered lfmSpans) {j : ℕ}
    (hj : ∀ u ∈ spacySpans.take j, ∀ span ∈ lfmSpans, span.1 < span.2 → u.2 ≤ span.1) :
    mapSpans spacySpans j lfmSpans = lfmSpans.map (target spacySpans) := by
  induction lfmSpans generalizing j with
  | nil => rfl
  | cons span lfmSpans ih =>
    obtain ⟨s, e⟩ := span
    obtain ⟨hfirst, hrest⟩ := List.pairwise_cons.mp h.apart
    have hordered : Ordered lfmSpans := ⟨fun t ht => h.proper t (List.mem_cons_of_mem _ ht), hrest⟩
    have hproper : s ≤ e := h.proper _ List.mem_cons_self
    rw [mapSpans, List.map_cons]
    by_cases hempty : s = e
    · rw [if_pos hempty, target, if_pos hempty,
        ih hordered fun u hu span hspan => hj u hu span (List.mem_cons_of_mem _ hspan)]
    · rw [if_neg hempty, target, if_neg hempty]
      have hse : s < e := lt_of_le_of_ne hproper hempty
      have hpassed : ∀ u ∈ spacySpans.take (advance spacySpans s j), u.2 ≤ s := by
        intro u hu
        unfold advance at hu
        rw [List.take_add, List.mem_append] at hu
        rcases hu with hu | hu
        · exact hj u hu (s, e) List.mem_cons_self hse
        · rw [← List.prefix_iff_eq_take.mp ( List.takeWhile_prefix _)] at hu
          simpa using List.all_eq_true.mp List.all_takeWhile u hu
      have htail := ih hordered fun u hu span hspan _ => (hpassed u hu).trans (hfirst span hspan).1
      dsimp only
      rw [htail]
      refine congrArg (· :: _) ?_
      cases htoken : spacySpans[advance spacySpans s j]? with
      | none =>
        dsimp only
        split_ifs with hnil
        · rfl
        · obtain rfl : spacySpans = [] := List.length_eq_zero_iff.mp (by omega)
          rfl
      | some t =>
        obtain ⟨ss, se⟩ := t
        dsimp only
        split_ifs with hcontained
        · refine (bestOverlap_of_contained hse htoken hcontained.1 hcontained.2 fun u hu => ?_).symm
          have hu := hpassed u hu
          unfold overlap
          dsimp only
          omega
        · rfl

section Ranges

variable {mapped : List (Option ℕ)} {j a i : ℕ}

theorem start_append (m : Option ℕ) : start (mapped ++ [m]) j =
    if m = some j then some ((start mapped j).elim mapped.length (min · mapped.length)) else start mapped j := by
  unfold start
  rw [List.zipIdx_append, List.foldl_append, Nat.zero_add]
  rfl

theorem stop_append (m : Option ℕ) : stop (mapped ++ [m]) j =
    if m = some j then max (stop mapped j) (mapped.length + 1) else stop mapped j := by
  unfold stop
  rw [List.zipIdx_append, List.foldl_append, Nat.zero_add]
  rfl

structure Spans (mapped : List (Option ℕ)) (j a b : ℕ) : Prop where
  first : mapped[a]? = some (some j)
  last : ∃ c, b = c + 1 ∧ mapped[c]? = some (some j)
  around : ∀ i, mapped[i]? = some (some j) → a ≤ i ∧ i < b

theorem getElem?_append_some {m : Option ℕ} (h : (mapped ++ [m])[i]? = some (some j)) :
    mapped[i]? = some (some j) ∨ i = mapped.length ∧ m = some j := by
  rcases lt_trichotomy i mapped.length with hi | rfl | hi
  · rw [List.getElem?_append_left hi] at h
    exact .inl h
  · rw [List.getElem?_concat_length] at h
    exact .inr ⟨rfl, Option.some.inj h⟩
  · rw [List.getElem?_eq_none (by rw [List.length_append, List.length_singleton]; omega)] at h
    cases h

theorem lt_of_getElem? {m : Option ℕ} (h : mapped[i]? = some m) : i < mapped.length :=
  (List.getElem?_eq_some_iff.mp h).1

theorem range_cases (mapped : List (Option ℕ)) (j : ℕ) :
    (∀ i : ℕ, mapped[i]? ≠ some (some j)) ∧ start mapped j = none ∧ stop mapped j = 0 ∨
      ∃ a, start mapped j = some a ∧ Spans mapped j a (stop mapped j) := by
  induction mapped using List.reverseRecOn with
  | nil => exact .inl ⟨by simp, rfl, rfl⟩
  | append_singleton mapped m ih =>
    rw [start_append, stop_append]
    have hold {i : ℕ} (h : mapped[i]? = some (some j)) : (mapped ++ [m])[i]? = some (some j) := by
      rwa [List.getElem?_append_left (lt_of_getElem? h)]
    by_cases hm : m = some j
    · rw [if_pos hm, if_pos hm]
      have hnew : (mapped ++ [m])[mapped.length]? = some (some j) := by
        rw [List.getElem?_concat_length, hm]
      right
      rcases ih with ⟨hno, hstart, hstop⟩ | ⟨a, hstart, hspans⟩
      · rw [hstart, hstop]
        refine ⟨mapped.length, rfl, hnew, ⟨mapped.length, by omega, hnew⟩, fun i hi => ?_⟩
        rcases getElem?_append_some hi with hi | ⟨rfl, -⟩
        · exact absurd hi (hno i)
        · omega
      · have ha := lt_of_getElem? hspans.first
        obtain ⟨c, hc, hlast⟩ := hspans.last
        have hcl := lt_of_getElem? hlast
        have hmin : min a mapped.length = a := by omega
        have hmax : max (stop mapped j) (mapped.length + 1) = mapped.length + 1 := by omega
        rw [hstart, hmax]
        refine ⟨a, congrArg some hmin, hold hspans.first, ⟨mapped.length, rfl, hnew⟩, fun i hi => ?_⟩
        rcases getElem?_append_some hi with hi | ⟨rfl, -⟩
        · exact ⟨(hspans.around i hi).1, (lt_of_getElem? hi).trans (Nat.lt_succ_self _)⟩
        · omega
    · rw [if_neg hm, if_neg hm]
      have hsame {i : ℕ} (h : (mapped ++ [m])[i]? = some (some j)) : mapped[i]? = some (some j) :=
        (getElem?_append_some h).resolve_right fun hi => hm hi.2
      refine ih.imp (fun ⟨hno, hbounds⟩ => ⟨fun i hi => hno i (hsame hi), hbounds⟩) fun ⟨a, hstart, hspans⟩ => ?_
      obtain ⟨c, hc, hlast⟩ := hspans.last
      exact ⟨a, hstart, hold hspans.first, ⟨c, hc, hold hlast⟩, fun i hi => hspans.around i (hsame hi)⟩

theorem rangeOf_cases (mapped : List (Option ℕ)) (j : ℕ) :
    (∀ i : ℕ, mapped[i]? ≠ some (some j)) ∧ rangeOf mapped j = (0, 0) ∨
      Spans mapped j (rangeOf mapped j).1 (rangeOf mapped j).2 := by
  unfold rangeOf
  refine (range_cases mapped j).imp (fun ⟨hno, hstart, _⟩ => ⟨hno, by rw [hstart]⟩) fun ⟨a, hstart, hspans⟩ => ?_
  obtain ⟨c, hc, -⟩ := hspans.last
  have hle := hspans.around a hspans.first
  rw [hstart]
  dsimp only
  rw [if_pos hle.2.le]
  exact hspans

end Ranges

section Align

variable {spacySpans lfmSpans : List ByteSpan}

theorem lfmToSpacy_align (h : Ordered lfmSpans) :
    (align spacySpans lfmSpans).lfmToSpacy = lfmSpans.map (target spacySpans) := by
  refine mapSpans_eq h fun u hu => ?_
  rw [List.take_zero] at hu
  cases hu

theorem getElem?_map_target {i j : ℕ} (h : (lfmSpans.map (target spacySpans))[i]? = some (some j)) :
    ∃ span t, lfmSpans[i]? = some span ∧ spacySpans[j]? = some t ∧ span.1 < span.2 ∧ t.1 < t.2 ∧ t.1 < span.2 ∧
      span.1 < t.2 := by
  rw [List.getElem?_map, Option.map_eq_some_iff] at h
  obtain ⟨span, hspan, htarget⟩ := h
  unfold target at htarget
  split_ifs at htarget
  obtain ⟨o, hbest⟩ := bestOverlap_eq_some.mp htarget
  have hpos : 0 < overlap span (spacySpans.get ⟨j, hbest.lt⟩) := by
    rw [hbest.overlap_eq]
    exact hbest.pos
  obtain ⟨⟨hs, ht⟩, hrest⟩ := overlap_pos.mp hpos
  exact ⟨span, _, hspan, List.getElem?_eq_getElem hbest.lt, hs, ht, hrest⟩

theorem Ordered.le {spans : List ByteSpan} (h : Ordered spans) {i i' : ℕ} {t u : ByteSpan} (hi : i < i')
    (ht : spans[i]? = some t) (hu : spans[i']? = some u) (hne : t.1 < t.2) (hne' : u.1 < u.2) : t.2 ≤ u.1 := by
  obtain ⟨hlt, rfl⟩ := List.getElem?_eq_some_iff.mp ht
  obtain ⟨hlt', rfl⟩ := List.getElem?_eq_some_iff.mp hu
  exact (List.pairwise_iff_getElem.mp h.apart i i' hlt hlt' hi).2 hne hne'

theorem target_of_contained (h : Ordered spacySpans) {span t : ByteSpan} {j : ℕ} (hspan : span.1 < span.2)
    (ht : spacySpans[j]? = some t) (hstart : t.1 ≤ span.1) (hstop : span.2 ≤ t.2) :
    target spacySpans span = some j := by
  unfold target
  rw [if_neg hspan.ne]
  refine bestOverlap_of_contained hspan ht hstart hstop fun u hu => ?_
  obtain ⟨i, hi, rfl⟩ := List.mem_take_iff_getElem.mp hu
  by_contra hpos
  obtain ⟨⟨-, hne⟩, -, hover⟩ := overlap_pos.mp (Nat.pos_of_ne_zero hpos)
  have hle := h.le (by omega) (List.getElem?_eq_getElem (by omega)) ht hne (by omega)
  omega

theorem target_mono (h : Ordered spacySpans) (h' : Ordered lfmSpans) {i i' j j' : ℕ} (hi : i ≤ i')
    (hj : (lfmSpans.map (target spacySpans))[i]? = some (some j))
    (hj' : (lfmSpans.map (target spacySpans))[i']? = some (some j')) : j ≤ j' := by
  rcases hi.eq_or_lt with rfl | hi
  · rw [hj] at hj'
    exact (Option.some.inj (Option.some.inj hj')).le
  · obtain ⟨span, t, hspan, ht, hs, htne, hover, -⟩ := getElem?_map_target hj
    obtain ⟨span', t', hspan', ht', hs', htne', -, hover'⟩ := getElem?_map_target hj'
    have hle := h'.le hi hspan hspan' hs hs'
    by_contra hlt
    have hle' := h.le (not_le.mp hlt) ht' ht htne' htne
    omega

theorem target_between (h : Ordered spacySpans) (h' : Ordered lfmSpans) {a b i j : ℕ} {span : ByteSpan}
    (ha : (lfmSpans.map (target spacySpans))[a]? = some (some j))
    (hb : (lfmSpans.map (target spacySpans))[b]? = some (some j)) (hai : a ≤ i) (hib : i ≤ b)
    (hspan : lfmSpans[i]? = some span) (hne : span.1 < span.2) : target spacySpans span = some j := by
  obtain ⟨first, t, hfirst, ht, hfne, -, hover, -⟩ := getElem?_map_target ha
  obtain ⟨last, t', hlast, ht', hlne, -, -, hover'⟩ := getElem?_map_target hb
  obtain rfl := Option.some.inj (ht.symm.trans ht')
  have hat {k : ℕ} (hk : (lfmSpans.map (target spacySpans))[k]? = some (some j)) (hki : k = i) :
      target spacySpans span = some j := by
    subst hki
    rw [List.getElem?_map, hspan] at hk
    exact Option.some.inj hk
  rcases hai.eq_or_lt with hai | hai
  · exact hat ha hai
  rcases hib.eq_or_lt with hib | hib
  · exact hat hb hib.symm
  · have hle := h'.le hai hfirst hspan hfne hne
    have hle' := h'.le hib hspan hlast hne hlne
    exact target_of_contained h hne ht (by omega) (by omega)

end Align

structure Correct (spacySpans lfmSpans : List ByteSpan) (r : SpacyTokenAlignment) : Prop where
  lengths : r.lfmToSpacy.length = lfmSpans.length ∧ r.spacyToLfm.length = spacySpans.length
  empty : ∀ (i : ℕ) (span : ByteSpan), lfmSpans[i]? = some span → span.1 = span.2 → r.lfmToSpacy[i]? = some none
  best : ∀ (i : ℕ) (span : ByteSpan), lfmSpans[i]? = some span → span.1 < span.2 →
    ∀ j : ℕ, r.lfmToSpacy[i]? = some (some j) ↔ ∃ o, FirstBest spacySpans span j o
  contained : ∀ (i : ℕ) (span : ByteSpan) (j : ℕ) (t : ByteSpan), lfmSpans[i]? = some span → span.1 < span.2 →
    spacySpans[j]? = some t → t.1 ≤ span.1 → span.2 ≤ t.2 → r.lfmToSpacy[i]? = some (some j)
  nothing : ∀ (i : ℕ) (span : ByteSpan), lfmSpans[i]? = some span → span.1 < span.2 →
    (r.lfmToSpacy[i]? = some none ↔ ∀ t ∈ spacySpans, overlap span t = 0)
  mono : ∀ i i' j j' : ℕ, i ≤ i' → r.lfmToSpacy[i]? = some (some j) → r.lfmToSpacy[i']? = some (some j') → j ≤ j'
  noRange : ∀ (j : ℕ) (range : ℕ × ℕ), r.spacyToLfm[j]? = some range →
    (range.2 ≤ range.1 ↔ ∀ i : ℕ, r.lfmToSpacy[i]? ≠ some (some j))
  range : ∀ (j : ℕ) (range : ℕ × ℕ), r.spacyToLfm[j]? = some range → range.1 < range.2 →
    Spans r.lfmToSpacy j range.1 range.2
  within : ∀ (j : ℕ) (range : ℕ × ℕ) (i : ℕ) (span : ByteSpan), r.spacyToLfm[j]? = some range → range.1 ≤ i →
    i < range.2 → lfmSpans[i]? = some span → span.1 < span.2 → r.lfmToSpacy[i]? = some (some j)

theorem align_correct (spacySpans lfmSpans : List ByteSpan) (h : Ordered spacySpans) (h' : Ordered lfmSpans) :
    Correct spacySpans lfmSpans (align spacySpans lfmSpans) := by
  have hmapped : (align spacySpans lfmSpans).lfmToSpacy = lfmSpans.map (target spacySpans) := lfmToSpacy_align h'
  have hat {i : ℕ} {span : ByteSpan} (hi : lfmSpans[i]? = some span) :
      (align spacySpans lfmSpans).lfmToSpacy[i]? = some (target spacySpans span) := by
    rw [hmapped, List.getElem?_map, hi]
    rfl
  have hranges {j : ℕ} {range : ℕ × ℕ} (hj : (align spacySpans lfmSpans).spacyToLfm[j]? = some range) :
      (∀ i : ℕ, (align spacySpans lfmSpans).lfmToSpacy[i]? ≠ some (some j)) ∧ range = (0, 0) ∨
        Spans (align spacySpans lfmSpans).lfmToSpacy j range.1 range.2 := by
    change ((List.range spacySpans.length).map (rangeOf (align spacySpans lfmSpans).lfmToSpacy))[j]? = some range at hj
    rw [List.getElem?_map, Option.map_eq_some_iff] at hj
    obtain ⟨k, hk, rfl⟩ := hj
    obtain ⟨-, rfl⟩ := List.getElem?_eq_some_iff.mp hk
    rw [List.getElem_range]
    exact rangeOf_cases _ j
  refine ⟨⟨?_, ?_⟩, fun i span hi hempty => ?_, fun i span hi hne j => ?_, fun i span j t hi hne ht hstart hstop => ?_,
    fun i span hi hne => ?_, fun i i' j j' hi hj hj' => ?_, fun j range hj => ?_, fun j range hj hlt => ?_,
    fun j range i span hj hstart hstop hi hne => ?_⟩
  · rw [hmapped, List.length_map]
  · exact (List.length_map _).trans List.length_range
  · rw [hat hi, target, if_pos hempty]
  · rw [hat hi, target, if_neg hne.ne, ← bestOverlap_eq_some]
    exact Option.some_inj
  · rw [hat hi, target_of_contained h hne ht hstart hstop]
  · rw [hat hi, target, if_neg hne.ne, ← bestOverlap_eq_none]
    exact Option.some_inj
  · rw [hmapped] at hj hj'
    exact target_mono h h' hi hj hj'
  · rcases hranges hj with ⟨hno, rfl⟩ | hspans
    · exact iff_of_true le_rfl hno
    · exact iff_of_false (not_le.mpr (hspans.around _ hspans.first).2) fun hno => hno _ hspans.first
  · rcases hranges hj with ⟨-, rfl⟩ | hspans
    · exact absurd hlt (lt_irrefl 0)
    · exact hspans
  · rcases hranges hj with ⟨-, rfl⟩ | hspans
    · exact absurd hstop (Nat.not_lt_zero i)
    · obtain ⟨c, hc, hlast⟩ := hspans.last
      have hfirst := hspans.first
      rw [hmapped] at hfirst hlast
      rw [hat hi, target_between h h' hfirst hlast hstart (by omega) hi hne]

theorem pieces_aligned : Correct [(0, 3), (4, 9), (9, 12)] [(0, 0), (0, 3), (4, 6), (6, 9), (9, 9), (9, 11), (11, 14)]
    ⟨[none, some 0, some 1, some 1, none, some 2, some 2], [(1, 2), (2, 4), (5, 7)]⟩ :=
  align_correct _ _ ⟨by decide, by decide⟩ ⟨by decide, by decide⟩

end SpacyTokenAligner

end Fluent.Onnx
