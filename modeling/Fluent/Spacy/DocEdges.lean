import Mathlib.Algebra.GroupWithZero.Nat
import Mathlib.Data.Finset.Lattice.Fold
import Mathlib.Order.Lattice.Nat
import Mathlib.Order.Bounds.Defs
import Fluent.Library.Lineage
import Fluent.Spacy.DocTree

open Fluent.Library

namespace Fluent.Spacy

namespace Doc

def headIndex (doc : Doc) (i : ℕ) : ℕ := if (doc[i]?).any TokenRecord.hasHead then doc.headAt i else i

def lefts (doc : Doc) (i : ℕ) : List ℕ :=
  let lEdge := (doc[i]?).elim 0 (·.lEdge)
  (List.range' lEdge (i - lEdge)).filter fun j => doc.headIndex j = i

def rights (doc : Doc) (i : ℕ) : List ℕ :=
  let rEdge := (doc[i]?).elim 0 (·.rEdge)
  (List.range' (i + 1) (rEdge - i)).reverse.filter fun j => doc.headIndex j = i

def children (doc : Doc) (i : ℕ) : List ℕ := doc.lefts i ++ doc.rights i

def subtree (doc : Doc) : ℕ → ℕ → Option (List ℕ)
  | 0, _ => none
  | fuel + 1, i => do
    let left ← (doc.lefts i).mapM (doc.subtree fuel)
    let right ← (doc.rights i).mapM (doc.subtree fuel)
    some (left.flatten ++ i :: right.flatten)

variable {doc doc' : Doc}

structure EdgeBound (B : TokenRecord → Prop) : Prop where
  keep : ∀ child head, B head → B (widen child head)
  pass : ∀ child head, B child → B (widen child head)
  edges : ∀ t t' : TokenRecord, t'.lEdge = t.lEdge → t'.rEdge = t.rEdge → B t → B t'

theorem lEdge_widen (child head : TokenRecord) :
    (widen child head).lEdge ≤ child.lEdge ∧ (widen child head).lEdge ≤ head.lEdge := by
  unfold widen
  dsimp only
  split <;> omega

theorem rEdge_widen (child head : TokenRecord) :
    child.rEdge ≤ (widen child head).rEdge ∧ head.rEdge ≤ (widen child head).rEdge := by
  unfold widen
  dsimp only
  split <;> omega

theorem edgeBound_left (v : ℕ) : EdgeBound fun t => t.lEdge ≤ v where
  keep child head h := (lEdge_widen child head).2.trans h
  pass child head h := (lEdge_widen child head).1.trans h
  edges _ _ hl _ h := hl ▸ h

theorem edgeBound_right (v : ℕ) : EdgeBound fun t => v ≤ t.rEdge where
  keep child head h := h.trans (rEdge_widen child head).2
  pass child head h := h.trans (rEdge_widen child head).1
  edges _ _ _ hr h := hr ▸ h

def Has (doc : Doc) (i : ℕ) (B : TokenRecord → Prop) : Prop := ∀ t, doc[i]? = some t → B t

section Sweeps

variable {B : TokenRecord → Prop} (hB : EdgeBound B) {c : ℕ → ℕ → Bool} {b : TokenRecord → TokenRecord}
  (hb : ∀ t, (b t).lEdge = t.lEdge ∧ (b t).rEdge = t.rEdge)
include hB hb

theorem Has.linkChild {i : ℕ} (h : doc.Has i B) (j : ℕ) : (linkChild c b doc j).Has i B := by
  intro t' ht'
  rw [getElem?_linkChild] at ht'
  obtain ⟨t, ht, rfl⟩ := Option.map_eq_some_iff.mp ht'
  cases doc[j]? with
  | none => exact h t ht
  | some child =>
    dsimp only [Option.elim_some]
    split
    · apply hB.keep
      split
      · exact hB.edges t _ (hb t).1 (hb t).2 (h t ht)
      · exact h t ht
    · exact h t ht

omit hb in
theorem Has.pass {j : ℕ} (h : doc.Has j B) (hj : j < doc.length) (hself : doc.headAt j ≠ j) :
    (Doc.linkChild c b doc j).Has (doc.headAt j) B := by
  intro t' ht'
  rw [getElem?_linkChild] at ht'
  obtain ⟨t, ht, rfl⟩ := Option.map_eq_some_iff.mp ht'
  rw [List.getElem?_eq_getElem hj]
  dsimp only [Option.elim_some]
  rw [if_pos ⟨rfl, hself⟩]
  exact hB.pass _ _ (h _ (List.getElem?_eq_getElem hj))

theorem Has.foldl {i : ℕ} (h : doc.Has i B) (js : List ℕ) : (js.foldl (Doc.linkChild c b) doc).Has i B := by
  induction js generalizing doc with
  | nil => exact h
  | cons j js ih => exact ih (h.linkChild hB hb j)

variable (hstripped : ∀ t, (b t).stripped = t.stripped)
include hstripped

theorem Has.passed {js₁ js₂ : List ℕ} {j : ℕ} (h : (js₁.foldl (Doc.linkChild c b) doc).Has j B) (hj : j < doc.length)
    (hself : doc.headAt j ≠ j) : ((js₁ ++ j :: js₂).foldl (Doc.linkChild c b) doc).Has (doc.headAt j) B := by
  have hsame : SameBut doc (js₁.foldl (Doc.linkChild c b) doc) := sameBut_foldl_linkChild hstripped js₁
  rw [List.foldl_append, List.foldl_cons, ← hsame.headAt]
  refine (h.pass hB (hsame.length ▸ hj) ?_).foldl hB hb js₂
  rwa [hsame.headAt]

theorem Has.sweep (js : List ℕ) {r : ℕ → ℕ} (hr : ∀ j < doc.length, js[r j]? = some j)
    (hin : ∀ j, doc.headAt j ≠ j → j < doc.length) {d i : ℕ} (hpath : Relation.ReflTransGen (Rise doc.headAt r) d i)
    (h : doc.Has d B) {m : ℕ} (hm : r i ≤ m) : ((js.take m).foldl (Doc.linkChild c b) doc).Has i B := by
  induction hpath generalizing m with
  | refl => exact h.foldl hB hb _
  | @tail p q _ hstep ih =>
    obtain ⟨rfl, hlt⟩ := hstep
    have hself : doc.headAt p ≠ p := fun he => absurd hlt (by rw [he]; omega)
    have hp := hin p hself
    have hget : (js.take m)[r p]? = some p := by rw [List.getElem?_take_of_lt (by omega), hr p hp]
    obtain ⟨hlen, hget⟩ := List.getElem?_eq_some_iff.mp hget
    have hsplit : js.take m = js.take (r p) ++ p :: (js.take m).drop (r p + 1) := by
      conv_lhs => rw [← List.take_append_drop (r p) (js.take m), List.drop_eq_getElem_cons hlen, hget,
        List.take_take, Nat.min_eq_left (by omega)]
    rw [hsplit]
    exact Has.passed hB hb hstripped (ih (Nat.le_refl _)) hp hself

end Sweeps

section Rounds

variable {B : TokenRecord → Prop} (hB : EdgeBound B)
include hB

theorem Has.setLrKidsAndEdges {i : ℕ} (h : doc.Has i B) (loopCount : ℕ) :
    (doc.setLrKidsAndEdges loopCount).1.Has i B :=
  (h.foldl hB (b := addLeftKid) (fun _ => ⟨rfl, rfl⟩) _).foldl hB (b := addRightKid) (fun _ => ⟨rfl, rfl⟩) _

theorem Has.settle {i : ℕ} (h : doc.Has i B) (loopCount : ℕ) : (doc.settle loopCount).Has i B := by
  induction hn : 11 - loopCount using Nat.strong_induction_on generalizing loopCount doc with
  | _ n ih =>
    subst hn
    rw [Doc.settle]
    split
    · exact h.setLrKidsAndEdges hB loopCount
    · next hgo => exact ih _ (by omega) (h.setLrKidsAndEdges hB loopCount) (loopCount + 1) rfl

theorem Has.of_first {i : ℕ} (h : (doc.setLrKidsAndEdges 0).1.Has i B) : (doc.settle 0).Has i B := by
  rw [Doc.settle]
  split
  · exact h
  · exact h.settle hB 1

theorem Has.child {j : ℕ} (h : doc.Has j B) (hj : j < doc.length) (hself : doc.headAt j ≠ j) :
    (doc.settle 0).Has (doc.headAt j) B := by
  have hleft : ((List.range doc.length).foldl (linkLeft 0) doc).Has (doc.headAt j) B := by
    obtain ⟨js₁, js₂, hsplit⟩ := List.append_of_mem (List.mem_range.mpr hj)
    have hbefore : (js₁.foldl (linkLeft 0) doc).Has j B := h.foldl hB (b := addLeftKid) (fun _ => ⟨rfl, rfl⟩) js₁
    rw [hsplit]
    exact Has.passed hB (b := addLeftKid) (fun _ => ⟨rfl, rfl⟩) (fun _ => rfl) hbefore hj hself
  exact Has.of_first hB (hleft.foldl hB (b := addRightKid) (fun _ => ⟨rfl, rfl⟩) _)

variable (hin : ∀ j, doc.headAt j ≠ j → j < doc.length)
include hin

theorem Has.rise_left {d i : ℕ} (hi : i < doc.length) (hpath : Relation.ReflTransGen (Rise doc.headAt id) d i)
    (h : doc.Has d B) : (doc.settle 0).Has i B := by
  refine Has.of_first hB (Has.foldl hB (b := addRightKid) (fun _ => ⟨rfl, rfl⟩) ?_ _)
  have hsweep := h.sweep hB (c := fun i hi => ((0 : ℕ) = 0 ∧ i < hi : Prop)) (b := addLeftKid) (fun _ => ⟨rfl, rfl⟩)
    (fun _ => rfl) (List.range doc.length) (fun j hj => List.getElem?_range hj) hin hpath (m := doc.length) hi.le
  rwa [List.take_of_length_le (by simp)] at hsweep

theorem Has.rise_right {d i : ℕ} (hpath : Relation.ReflTransGen (Rise doc.headAt fun j => doc.length - 1 - j) d i)
    (h : doc.Has d B) : (doc.settle 0).Has i B := by
  have hsame : SameBut doc ((List.range doc.length).foldl (linkLeft 0) doc) :=
    sameBut_foldl_linkChild (b := addLeftKid) (fun _ => rfl) _
  have hd : ((List.range doc.length).foldl (linkLeft 0) doc).Has d B :=
    h.foldl hB (b := addLeftKid) (fun _ => ⟨rfl, rfl⟩) _
  refine Has.of_first hB ?_
  change ((List.range _).reverse.foldl (linkRight 0) _).Has i B
  have hhead : (fun j => Doc.headAt ((List.range doc.length).foldl (linkLeft 0) doc) j) = doc.headAt :=
    funext hsame.headAt
  generalize hmid : (List.range doc.length).foldl (linkLeft 0) doc = mid at hd hsame hhead
  have hsweep := hd.sweep hB (c := fun i hi => ((0 : ℕ) = 0 ∧ hi < i : Prop)) (b := addRightKid) (fun _ => ⟨rfl, rfl⟩)
    (fun _ => rfl) (List.range mid.length).reverse (r := fun j => doc.length - 1 - j) ?_ ?_ (i := i) ?_
    (m := mid.length) (hsame.length ▸ (Nat.sub_le _ _).trans (Nat.sub_le _ _))
  · rwa [List.take_of_length_le (by simp)] at hsweep
  · intro j hj
    rw [hsame.length] at hj ⊢
    rw [List.getElem?_reverse (by rw [List.length_range]; omega), List.length_range, List.getElem?_range (by omega)]
    congr 1
    omega
  · intro j hj
    rw [hsame.headAt] at hj
    exact hsame.length ▸ hin j hj
  · rwa [show mid.headAt = doc.headAt from hhead]

end Rounds

theorem Has.markStarts {B : TokenRecord → Prop} (hB : EdgeBound B) {i : ℕ} (h : doc.Has i B) : doc.markStarts.Has i B := by
  intro t' ht'
  rw [getElem?_markStarts] at ht'
  obtain ⟨t, ht, rfl⟩ := Option.map_eq_some_iff.mp ht'
  exact hB.edges t _ rfl rfl (h t ht)

theorem has_resetKids (doc : Doc) (i : ℕ) : doc.resetKids.Has i fun t => t.lEdge = u32 i ∧ t.rEdge = u32 i := by
  intro t' ht'
  rw [resetKids, List.getElem?_mapIdx] at ht'
  obtain ⟨t, -, rfl⟩ := Option.map_eq_some_iff.mp ht'
  exact ⟨rfl, rfl⟩

structure Treelike (doc : Doc) : Prop where
  bounds : ∀ i < doc.length, 0 ≤ doc.headAbs i ∧ doc.headAbs i < doc.length
  acyclic : Acyclic doc.headAt
  labelled : ∀ t ∈ doc, t.hasHead

structure Headed (doc : Doc) : Prop where
  bounds : ∀ i < doc.length, 0 ≤ doc.headAbs i ∧ doc.headAbs i < doc.length
  acyclic : Acyclic doc.headAt

def LabelledHeads (doc : Doc) : Prop := ∀ j, doc.headAt j ≠ j → (doc[j]?).any TokenRecord.hasHead = true

def rebuilt (doc : Doc) : Doc := (doc.resetKids.settle 0).markStarts

section Rebuilt

theorem headAt_lt (h : ∀ i < doc.length, 0 ≤ doc.headAbs i ∧ doc.headAbs i < doc.length) (j : ℕ)
    (hself : doc.headAt j ≠ j) : j < doc.length ∧ doc.headAt j < doc.length := by
  have hj : j < doc.length := by
    by_contra hj
    apply hself
    rw [headAt, headAbs, List.getElem?_eq_none (Nat.le_of_not_lt hj)]
    simp
  have hb := h j hj
  refine ⟨hj, ?_⟩
  rw [headAt]
  omega

theorem in_bounds (h : Headed doc) (j : ℕ) (hself : doc.headAt j ≠ j) : j < doc.length ∧ doc.headAt j < doc.length :=
  headAt_lt h.bounds j hself

theorem below_lt (h : Headed doc) {d i : ℕ} (hi : i < doc.length) (hd : Below doc.headAt d i) : d < doc.length := by
  rcases below_iff_eq_or.mp hd with rfl | hd
  · exact hi
  · obtain ⟨j, hchild, -⟩ := Relation.TransGen.head'_iff.mp hd
    exact (in_bounds h d fun he => hchild.2 (he.symm.trans hchild.1)).1

theorem u32_eq {i : ℕ} (hlen : doc.length ≤ 2 ^ 32) (hi : i < doc.length) : u32 i = i :=
  Nat.mod_eq_of_lt (hi.trans_le hlen)

theorem headAt_resetKids (doc : Doc) : doc.resetKids.headAt = doc.headAt :=
  funext (linked_resetKids doc).same.headAt

theorem length_resetKids (doc : Doc) : doc.resetKids.length = doc.length := (linked_resetKids doc).same.length

theorem child_edges (h : ∀ i < doc.length, 0 ≤ doc.headAbs i ∧ doc.headAbs i < doc.length)
    (hlen : doc.length ≤ 2 ^ 32) {i j : ℕ} (hchild : Child doc.headAt j i) :
    doc.rebuilt.Has i fun t => t.lEdge ≤ j ∧ j ≤ t.rEdge := by
  obtain ⟨rfl, hne⟩ := hchild
  have hself : doc.headAt j ≠ j := Ne.symm hne
  have hj := (headAt_lt h j hself).1
  have hstart := has_resetKids doc j
  have hu := u32_eq hlen hj
  have hup {B : TokenRecord → Prop} (hB : EdgeBound B) (hb : doc.resetKids.Has j B) : doc.rebuilt.Has (doc.headAt j) B := by
    rw [← headAt_resetKids] at hself ⊢
    exact (hb.child hB (by rwa [length_resetKids]) hself).markStarts hB
  intro t ht
  constructor
  · exact hup (edgeBound_left j) (fun t ht => ((hstart t ht).1.trans hu).le) t ht
  · exact hup (edgeBound_right j) (fun t ht => ((hstart t ht).2.trans hu).ge) t ht

variable (h : Headed doc) (hlen : doc.length ≤ 2 ^ 32)
include h hlen

theorem Headed.child_edges {i j : ℕ} (hchild : Child doc.headAt j i) :
    doc.rebuilt.Has i fun t => t.lEdge ≤ j ∧ j ≤ t.rEdge :=
  Doc.child_edges h.bounds hlen hchild

theorem Headed.edge_below {i : ℕ} {t : TokenRecord} (ht : doc.rebuilt[i]? = some t) :
    Below doc.headAt t.lEdge i ∧ Below doc.headAt t.rEdge i := by
  obtain ⟨hsame, hrebuilt⟩ := rebuilt_markStarts doc
  have hi : i < doc.length := hsame.length ▸ (List.getElem?_eq_some_iff.mp ht).1
  have hhead : (doc.resetKids.settle 0).markStarts.headAt = doc.headAt := funext hsame.headAt
  obtain ⟨⟨dl, hdl, hl⟩, ⟨dr, hdr, hr⟩, -, -⟩ := hrebuilt.edges i t ht
  have hdl' : Below doc.headAt dl i := hhead ▸ hdl
  have hdr' : Below doc.headAt dr i := hhead ▸ hdr
  rw [hl, hr, u32_eq hlen (below_lt h hi hdl'), u32_eq hlen (below_lt h hi hdr')]
  exact ⟨hdl', hdr'⟩

theorem Headed.isLeast_lEdge (hproj : Projective doc.headAt) {i : ℕ} {t : TokenRecord} (ht : doc.rebuilt[i]? = some t)
    (hi : i < doc.length) : IsLeast {d | Below doc.headAt d i} t.lEdge := by
  obtain ⟨d, hd, hleast⟩ := (measure id).wf.has_min {d | Below doc.headAt d i} ⟨i, .refl⟩
  have hle : ∀ p, Below doc.headAt p i → d ≤ p := fun p hp => Nat.le_of_not_lt (hleast p hp)
  have hrise := hproj.rising (r := id) h.acyclic (in_bounds h) (fun _ _ _ _ => id)
    (fun j k m hjk hkm _ _ => .inl ⟨hjk, hkm⟩) hle hd
  have hu := u32_eq hlen (below_lt h hi hd)
  have hstart : doc.resetKids.Has d fun t => t.lEdge ≤ d := fun t ht => ((has_resetKids doc d t ht).1.trans hu).le
  have hbound := (hstart.rise_left (i := i) (edgeBound_left d) (fun j hj => by
    rw [headAt_resetKids] at hj
    exact length_resetKids doc ▸ (in_bounds h j hj).1) (by rwa [length_resetKids])
    (by rwa [headAt_resetKids])).markStarts (edgeBound_left d)
  exact ⟨(Headed.edge_below h hlen ht).1, fun p hp => (hbound t ht).trans (hle p hp)⟩

theorem Headed.isGreatest_rEdge (hproj : Projective doc.headAt) {i : ℕ} {t : TokenRecord}
    (ht : doc.rebuilt[i]? = some t) (hi : i < doc.length) : IsGreatest {d | Below doc.headAt d i} t.rEdge := by
  obtain ⟨d, hd, hleast⟩ := (measure fun j => doc.length - 1 - j).wf.has_min {d | Below doc.headAt d i} ⟨i, .refl⟩
  have hle : ∀ p, Below doc.headAt p i → doc.length - 1 - d ≤ doc.length - 1 - p :=
    fun p hp => Nat.le_of_not_lt (hleast p hp)
  have hrise := hproj.rising (r := fun j => doc.length - 1 - j) h.acyclic (in_bounds h)
    (fun j hj k hk hjk => by omega)
    (fun j k m hjk hkm hm hk => by omega) hle hd
  have hu := u32_eq hlen (below_lt h hi hd)
  have hstart : doc.resetKids.Has d fun t => d ≤ t.rEdge := fun t ht => ((has_resetKids doc d t ht).2.trans hu).ge
  have hbound := (hstart.rise_right (i := i) (edgeBound_right d) (fun j hj => by
    rw [headAt_resetKids] at hj
    exact length_resetKids doc ▸ (in_bounds h j hj).1)
    (by rwa [headAt_resetKids, length_resetKids])).markStarts (edgeBound_right d)
  refine ⟨(Headed.edge_below h hlen ht).2, fun p hp => ?_⟩
  have hd' := below_lt h hi hd
  have hp' := below_lt h hi hp
  have hpd := hle p hp
  exact Nat.le_trans (by omega) (hbound t ht)

end Rebuilt

section Navigation

theorem mapM_some {f : ℕ → Option (List ℕ)} {g : ℕ → List ℕ} {js : List ℕ} (hf : ∀ j ∈ js, f j = some (g j)) :
    js.mapM f = some (js.map g) := by
  induction js with
  | nil => rfl
  | cons j js ih =>
    rw [List.mapM_cons, hf j List.mem_cons_self, ih fun k hk => hf k (List.mem_cons_of_mem _ hk)]
    rfl

theorem hasHead_rebuilt (doc : Doc) (j : ℕ) :
    (doc.rebuilt[j]?).any TokenRecord.hasHead = (doc[j]?).any TokenRecord.hasHead := by
  have hstripped : ∀ d : Doc, (d[j]?).any TokenRecord.hasHead =
      ((d.map TokenRecord.stripped)[j]?).any TokenRecord.hasHead := by
    intro d
    rw [List.getElem?_map]
    cases d[j]? <;> rfl
  have hsame : SameBut doc doc.rebuilt := (rebuilt_markStarts doc).1
  rw [hstripped, hstripped doc, hsame]

variable (h : Headed doc) (hlabelled : LabelledHeads doc) (hlen : doc.length ≤ 2 ^ 32)
include hlabelled

theorem LabelledHeads.headIndex (j : ℕ) : doc.rebuilt.headIndex j = doc.headAt j := by
  obtain ⟨hsame, -⟩ := rebuilt_markStarts doc
  rw [Doc.headIndex, hasHead_rebuilt]
  split
  · exact hsame.headAt j
  · next hno =>
    by_contra hself
    exact hno (hlabelled j (Ne.symm hself))

include h hlen

theorem Headed.mem_lefts {i j : ℕ} (hi : i < doc.length) : j ∈ doc.rebuilt.lefts i ↔ Child doc.headAt j i ∧ j < i := by
  have hlt : i < doc.rebuilt.length := (rebuilt_markStarts doc).1.length.symm ▸ hi
  have hget : doc.rebuilt[i]? = some doc.rebuilt[i] := List.getElem?_eq_getElem hlt
  rw [lefts, hget]
  simp only [Option.elim_some, List.mem_filter, List.mem_range', Nat.one_mul, hlabelled.headIndex, decide_eq_true_eq]
  constructor
  · rintro ⟨⟨k, hk, rfl⟩, hhead⟩
    exact ⟨⟨hhead, by omega⟩, by omega⟩
  · rintro ⟨hchild, hji⟩
    have hedge := (Headed.child_edges h hlen hchild _ hget).1
    exact ⟨⟨j - doc.rebuilt[i].lEdge, by omega, by omega⟩, hchild.1⟩

theorem Headed.mem_rights {i j : ℕ} (hi : i < doc.length) : j ∈ doc.rebuilt.rights i ↔ Child doc.headAt j i ∧ i < j := by
  have hlt : i < doc.rebuilt.length := (rebuilt_markStarts doc).1.length.symm ▸ hi
  have hget : doc.rebuilt[i]? = some doc.rebuilt[i] := List.getElem?_eq_getElem hlt
  rw [rights, hget]
  simp only [Option.elim_some, List.mem_filter, List.mem_reverse, List.mem_range', Nat.one_mul, hlabelled.headIndex,
    decide_eq_true_eq]
  constructor
  · rintro ⟨⟨k, hk, rfl⟩, hhead⟩
    exact ⟨⟨hhead, by omega⟩, by omega⟩
  · rintro ⟨hchild, hji⟩
    have hedge := (Headed.child_edges h hlen hchild _ hget).2
    exact ⟨⟨j - (i + 1), by omega, by omega⟩, hchild.1⟩

theorem Headed.mem_children {i j : ℕ} (hi : i < doc.length) : j ∈ doc.rebuilt.children i ↔ Child doc.headAt j i := by
  rw [children, List.mem_append, Headed.mem_lefts h hlabelled hlen hi, Headed.mem_rights h hlabelled hlen hi, ← and_or_left]
  exact and_iff_left_of_imp fun hchild => Nat.lt_or_gt_of_ne hchild.2

theorem Headed.children_nodup {i : ℕ} (hi : i < doc.length) : (doc.rebuilt.children i).Nodup := by
  refine List.Nodup.append ?_ ?_ ?_
  · exact (List.nodup_range' ..).filter _
  · exact (List.nodup_reverse.mpr (List.nodup_range' ..)).filter _
  · intro j hl hr
    have hlt := ((Headed.mem_lefts h hlabelled hlen hi).mp hl).2
    have hgt := ((Headed.mem_rights h hlabelled hlen hi).mp hr).2
    omega

theorem Headed.subtree_children {i : ℕ} (hi : i < doc.length) {depth : ℕ → ℕ} {nodes : ℕ → List ℕ}
    (hnodes : ∀ j, Child doc.headAt j i → ∀ fuel ≥ depth j, doc.rebuilt.subtree fuel j = some (nodes j)) :
    ∃ n, ∀ fuel ≥ n, doc.rebuilt.subtree fuel i =
      some (((doc.rebuilt.lefts i).map nodes).flatten ++ i :: ((doc.rebuilt.rights i).map nodes).flatten) := by
  refine ⟨(doc.rebuilt.children i).toFinset.sup depth + 1, fun fuel hfuel => ?_⟩
  obtain ⟨fuel, rfl⟩ := Nat.exists_eq_succ_of_ne_zero (Nat.ne_zero_of_lt hfuel)
  have hdeep : ∀ j ∈ doc.rebuilt.children i, doc.rebuilt.subtree fuel j = some (nodes j) := by
    intro j hj
    have hle : depth j ≤ (doc.rebuilt.children i).toFinset.sup depth := Finset.le_sup (List.mem_toFinset.mpr hj)
    exact hnodes j ((Headed.mem_children h hlabelled hlen hi).mp hj) fuel (by omega)
  rw [Doc.subtree, mapM_some fun j hj => hdeep j (List.mem_append_left _ hj),
    mapM_some fun j hj => hdeep j (List.mem_append_right _ hj)]
  rfl

theorem Headed.subtree {i : ℕ} (hi : i < doc.length) : ∃ n nodes, (∀ fuel ≥ n, doc.rebuilt.subtree fuel i = some nodes) ∧
    nodes.Nodup ∧ ∀ d, d ∈ nodes ↔ Below doc.headAt d i := by
  have hin {j i : ℕ} (hchild : Child doc.headAt j i) : j < doc.length :=
    (in_bounds h j fun he => hchild.2 (he.symm.trans hchild.1)).1
  revert hi
  refine acyclic_induction h.acyclic (fun _ _ => hin) (P := fun i => i < doc.length → ∃ n nodes,
    (∀ fuel ≥ n, doc.rebuilt.subtree fuel i = some nodes) ∧ nodes.Nodup ∧ ∀ d, d ∈ nodes ↔ Below doc.headAt d i)
    (fun i ih hi => ?_) i
  have hsub : ∀ j, Child doc.headAt j i → ∃ n nodes, (∀ fuel ≥ n, doc.rebuilt.subtree fuel j = some nodes) ∧
      nodes.Nodup ∧ ∀ d, d ∈ nodes ↔ Below doc.headAt d j := fun j hj => ih j hj (hin hj)
  choose! depth nodes hnodes hnodup hmem using hsub
  have hchild {j : ℕ} := Headed.mem_children h hlabelled hlen (j := j) hi
  obtain ⟨n, hn⟩ := Headed.subtree_children h hlabelled hlen hi hnodes
  refine ⟨n, _, hn, ?_, ?_⟩
  · rw [List.nodup_middle, ← List.flatten_append, ← List.map_append, ← List.flatMap_def, List.nodup_cons]
    constructor
    · intro hmem'
      obtain ⟨j, hj, hij⟩ := List.mem_flatMap.mp hmem'
      have hj' := hchild.mp hj
      exact hj'.2 (h.acyclic.antisymm (.single hj'.1) ((hmem j hj' i).mp hij))
    · refine List.nodup_flatMap.mpr ⟨fun j hj => hnodup j (hchild.mp hj), ?_⟩
      refine List.Pairwise.imp_of_mem ?_ (Headed.children_nodup h hlabelled hlen hi)
      intro j j' hj hj' hne d hd hd'
      have hc := hchild.mp hj
      have hc' := hchild.mp hj'
      exact hne (h.acyclic.child_unique hc hc' ((hmem j hc d).mp hd) ((hmem j' hc' d).mp hd'))
  · intro d
    rw [below_cases, List.mem_append, List.mem_cons, or_left_comm, ← List.mem_append, ← List.flatten_append,
      ← List.map_append, ← List.flatMap_def, List.mem_flatMap]
    refine or_congr_right (exists_congr fun j => ?_)
    constructor
    · rintro ⟨hj, hd⟩
      exact ⟨hchild.mp hj, (hmem j (hchild.mp hj) d).mp hd⟩
    · rintro ⟨hj, hd⟩
      exact ⟨hchild.mpr hj, (hmem j hj d).mpr hd⟩

end Navigation

theorem Treelike.headed (h : Treelike doc) : Headed doc := ⟨h.bounds, h.acyclic⟩

theorem Treelike.labelledHeads (h : Treelike doc) : LabelledHeads doc := by
  intro j hself
  have hj := (in_bounds h.headed j hself).1
  rw [List.getElem?_eq_getElem hj, Option.any_some]
  exact h.labelled _ (List.getElem_mem hj)

theorem set_children_from_heads_edges (doc : Doc) (h : Treelike doc) (hlen : doc.length ≤ 2 ^ 32) :
    ∃ out, doc.setChildrenFromHeads = .ok out ∧
      (∀ i t, out[i]? = some t → (∀ j, Child doc.headAt j i → t.lEdge ≤ j ∧ j ≤ t.rEdge) ∧
        (out.lefts i ++ out.rights i).Nodup ∧ (∀ j, j ∈ out.lefts i ++ out.rights i ↔ Child doc.headAt j i) ∧
        ∃ n nodes, (∀ fuel ≥ n, out.subtree fuel i = some nodes) ∧ nodes.Nodup ∧
          ∀ d, d ∈ nodes ↔ Below doc.headAt d i) ∧
      (Projective doc.headAt → ∀ i t, out[i]? = some t →
        IsLeast {d | Below doc.headAt d i} t.lEdge ∧ IsGreatest {d | Below doc.headAt d i} t.rEdge ∧
          t.lKids = doc.leftKids i ∧ t.rKids = doc.rightKids i) := by
  obtain ⟨hsame, hrebuilt⟩ := rebuilt_markStarts doc
  have hin {i : ℕ} {t : TokenRecord} (ht : doc.rebuilt[i]? = some t) : i < doc.length :=
    hsame.length ▸ (List.getElem?_eq_some_iff.mp ht).1
  refine ⟨doc.rebuilt, setChildrenFromHeads_eq h.bounds, fun i t ht => ?_, fun hproj i t ht => ?_⟩
  · exact ⟨fun j hj => Headed.child_edges h.headed hlen hj t ht,
      Headed.children_nodup h.headed h.labelledHeads hlen (hin ht),
      fun j => Headed.mem_children h.headed h.labelledHeads hlen (hin ht),
      Headed.subtree h.headed h.labelledHeads hlen (hin ht)⟩
  · exact ⟨Headed.isLeast_lEdge h.headed hlen hproj ht (hin ht), Headed.isGreatest_rEdge h.headed hlen hproj ht (hin ht),
      (hrebuilt.lKids i t ht).trans (hsame.leftKids i), (hrebuilt.rKids i t ht).trans (hsame.rightKids i)⟩

def labelled (head : Int32) : TokenRecord := { TokenRecord.new .empty with dep := 1, head := head }

theorem acyclic_of_lt {up : ℕ → ℕ} (lt : ℕ → ℕ → Prop) [IsStrictOrder ℕ lt] (h : ∀ j i, Child up j i → lt j i) :
    Acyclic up := by
  intro i hcycle
  have hlt : Relation.TransGen lt i i := Relation.TransGen.mono h _ _ hcycle
  rw [Relation.transGen_eq_self] at hlt
  exact irrefl i hlt

theorem two_tokens_linked : ∃ out, setChildrenFromHeads [labelled 1, labelled 0] = .ok out ∧
    ∀ t, out[1]? = some t → t.lEdge ≤ 0 ∧ 0 ≤ t.rEdge := by
  have hsound : Treelike [labelled 1, labelled 0] := by
    refine ⟨by decide, acyclic_of_lt (· < ·) ?_, by decide⟩
    rintro j i ⟨rfl, hne⟩
    rcases j with - | - | j
    · decide
    · exact absurd rfl hne
    · exact absurd (Int.toNat_natCast _).symm hne
  obtain ⟨out, hout, hchildren, -⟩ := set_children_from_heads_edges _ hsound (by decide)
  exact ⟨out, hout, fun t ht => (hchildren 1 t ht).1 0 ⟨rfl, by decide⟩⟩

def wide (n : ℕ) : Doc := List.replicate n (labelled 0) ++ [labelled (-1)]

theorem headAbs_wide (n j : ℕ) : (wide n).headAbs j = if j = n then (n : ℤ) - 1 else j := by
  unfold headAbs wide
  rcases Nat.lt_trichotomy j n with hj | rfl | hj
  · rw [List.getElem?_append_left (by simpa), List.getElem?_replicate, if_pos hj, if_neg (by omega)]
    exact Int.add_zero _
  · rw [List.getElem?_append_right (by simp), List.length_replicate, Nat.sub_self, if_pos rfl]
    rfl
  · rw [List.getElem?_eq_none (by simp; omega), if_neg (by omega)]
    exact Int.add_zero _

theorem headAt_wide (n j : ℕ) : (wide n).headAt j = if j = n then n - 1 else j := by
  rw [headAt, headAbs_wide]
  split_ifs <;> omega

theorem length_wide (n : ℕ) : (wide n).length = n + 1 := by simp [wide]

theorem sound_wide {n : ℕ} (hn : 0 < n) : Treelike (wide n) where
  bounds i hi := by
    rw [length_wide] at hi ⊢
    rw [headAbs_wide]
    split_ifs <;> omega
  acyclic := by
    refine acyclic_of_lt (· > ·) ?_
    rintro j i ⟨rfl, hne⟩
    rw [headAt_wide] at hne ⊢
    split_ifs at hne ⊢ <;> omega
  labelled := by
    intro t ht
    rcases List.mem_append.mp ht with ht | ht
    · rw [List.eq_of_mem_replicate ht]
      decide
    · rw [List.mem_singleton.mp ht]
      decide

theorem last_child_lost : ∃ doc : Doc, Treelike doc ∧ Child doc.headAt (2 ^ 32) (2 ^ 32 - 1) ∧
    ∃ out, doc.setChildrenFromHeads = .ok out ∧ 2 ^ 32 ∉ out.lefts (2 ^ 32 - 1) ++ out.rights (2 ^ 32 - 1) := by
  generalize hn : 2 ^ 32 = n
  have hpos : 0 < n := by omega
  have hsound := sound_wide hpos
  obtain ⟨hsame, hrebuilt⟩ := rebuilt_markStarts (wide n)
  refine ⟨wide n, hsound, ⟨by rw [headAt_wide, if_pos rfl], by omega⟩, _, setChildrenFromHeads_eq hsound.bounds, ?_⟩
  rw [List.mem_append]
  rintro (hmem | hmem)
  · obtain ⟨k, hk, hkn⟩ := List.mem_range'.mp (List.mem_of_mem_filter hmem)
    omega
  · obtain ⟨k, hk, hkn⟩ := List.mem_range'.mp (List.mem_reverse.mp (List.mem_of_mem_filter hmem))
    cases hget : (wide n).rebuilt[n - 1]? with
    | none =>
      rw [rebuilt] at hget
      rw [hget, Option.elim_none] at hk
      omega
    | some t =>
      obtain ⟨d, -, hd⟩ := (hrebuilt.edges (n - 1) t hget).right
      have hlt : t.rEdge < 2 ^ 32 := hd ▸ Nat.mod_lt _ (by decide)
      rw [rebuilt] at hget
      rw [hget, Option.elim_some] at hk
      omega

end Doc

end Fluent.Spacy
