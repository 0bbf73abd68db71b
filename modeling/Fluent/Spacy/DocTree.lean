import Mathlib.Logic.Relation
import Mathlib.Order.Interval.Finset.Nat
import Fluent.Spacy.Attach

namespace Fluent.Spacy

def TokenRecord.stripped (t : TokenRecord) : TokenRecord :=
  { t with lKids := 0, rKids := 0, lEdge := 0, rEdge := 0, sentStart := .unset }

namespace Doc

variable {doc doc' : Doc}

def SameBut (doc doc' : Doc) : Prop := doc'.map TokenRecord.stripped = doc.map TokenRecord.stripped

theorem SameBut.length (h : SameBut doc doc') : doc'.length = doc.length := by
  simpa using congrArg List.length h

theorem SameBut.get {i : ℕ} {t' : TokenRecord} (h : SameBut doc doc') (ht : doc'[i]? = some t') :
    ∃ t, doc[i]? = some t ∧ t'.stripped = t.stripped := by
  have hmap := congrArg (·[i]?) h
  simp only [List.getElem?_map, ht, Option.map_some] at hmap
  obtain ⟨t, ht, hst⟩ := Option.map_eq_some_iff.mp hmap.symm
  exact ⟨t, ht, hst.symm⟩

theorem SameBut.headAbs (h : SameBut doc doc') (i : ℕ) : doc'.headAbs i = doc.headAbs i := by
  have hstripped : ∀ d : Doc, d.headAbs i = i + ((d.map TokenRecord.stripped)[i]?).elim 0 fun t => t.head.toInt := by
    intro d
    rw [Doc.headAbs, List.getElem?_map]
    cases d[i]? <;> rfl
  rw [hstripped, hstripped, h]

theorem SameBut.headAt (h : SameBut doc doc') (i : ℕ) : doc'.headAt i = doc.headAt i := by
  rw [Doc.headAt, Doc.headAt, h.headAbs]

def Under (doc : Doc) (d i : ℕ) : Prop := Relation.ReflTransGen (fun j k => doc.headAt j = k) d i

structure EdgesUnder (doc : Doc) (i : ℕ) (t : TokenRecord) : Prop where
  left : ∃ d, doc.Under d i ∧ t.lEdge = u32 d
  right : ∃ d, doc.Under d i ∧ t.rEdge = u32 d
  left_le : t.lEdge ≤ u32 i
  right_ge : u32 i ≤ t.rEdge

structure Linked (doc doc' : Doc) : Prop where
  same : SameBut doc doc'
  edges : ∀ (i : ℕ) t, doc'[i]? = some t → doc.EdgesUnder i t

section Passes

variable {c : ℕ → ℕ → Bool} {b : TokenRecord → TokenRecord}

theorem getElem?_linkChild (i k : ℕ) : (linkChild c b doc i)[k]? = doc[k]?.map fun t =>
    (doc[i]?).elim t fun child => if doc.headAt i = k ∧ k ≠ i then widen child (if c i k then b t else t)
      else t := by
  unfold linkChild
  cases hchild : doc[i]? with
  | none => simp
  | some child =>
    dsimp only [Option.elim_some]
    by_cases hself : doc.headAt i = i
    · rw [if_pos hself]
      have : ¬ (doc.headAt i = k ∧ k ≠ i) := by omega
      simp [this]
    · rw [if_neg hself, List.getElem?_modify]
      by_cases hk : doc.headAt i = k
      · subst hk
        simp [hself]
      · simp [hk]

variable (hbump : ∀ t, (b t).stripped = t.stripped)

include hbump

theorem sameBut_linkChild (i : ℕ) : SameBut doc (linkChild c b doc i) := by
  apply List.ext_getElem?
  intro k
  rw [List.getElem?_map, List.getElem?_map, getElem?_linkChild, Option.map_map]
  congr 1
  funext t
  cases doc[i]? with
  | none => rfl
  | some child =>
    dsimp only [Function.comp_apply, Option.elim_some]
    split
    · split
      · exact hbump t
      · rfl
    · rfl

theorem Linked.linkChild (hbumpEdges : ∀ t, (b t).lEdge = t.lEdge ∧ (b t).rEdge = t.rEdge)
    (h : Linked doc doc') (i : ℕ) : Linked doc (linkChild c b doc' i) := by
  refine ⟨(sameBut_linkChild hbump i).trans h.same, fun k t' ht' => ?_⟩
  rw [getElem?_linkChild] at ht'
  obtain ⟨t, ht, rfl⟩ := Option.map_eq_some_iff.mp ht'
  have hedges := h.edges k t ht
  cases hchild : doc'[i]? with
  | none => exact hedges
  | some child =>
    dsimp only [Option.elim_some]
    split
    · next hhead =>
      have hchildEdges := h.edges i child hchild
      have hstep : doc.Under i k := by
        apply Relation.ReflTransGen.single
        rw [← h.same.headAt]
        exact hhead.1
      have hl : (if c i k then b t else t).lEdge = t.lEdge := by
        split
        · exact (hbumpEdges t).1
        · rfl
      have hr : (if c i k then b t else t).rEdge = t.rEdge := by
        split
        · exact (hbumpEdges t).2
        · rfl
      obtain ⟨dl, hdl, hel⟩ := hchildEdges.left
      obtain ⟨dr, hdr, her⟩ := hchildEdges.right
      constructor
      · unfold widen
        rw [hl]
        dsimp only
        split
        · exact ⟨dl, hdl.trans hstep, hel⟩
        · exact hedges.left
      · unfold widen
        rw [hr]
        dsimp only
        split
        · exact ⟨dr, hdr.trans hstep, her⟩
        · exact hedges.right
      · have := hedges.left_le
        unfold widen
        rw [hl]
        dsimp only
        split <;> omega
      · have := hedges.right_ge
        unfold widen
        rw [hr]
        dsimp only
        split <;> omega
    · exact hedges

theorem count_foldl_linkChild {f : TokenRecord → ℕ} (hwiden : ∀ child t, f (widen child t) = f t)
    (hcount : ∀ t, f (b t) = u32 (f t + 1)) (js : List ℕ) {k : ℕ} {t : TokenRecord} (ht : doc[k]? = some t)
    (hsmall : f t < 2 ^ 32) : ∃ t', (js.foldl (linkChild c b) doc)[k]? = some t' ∧
      f t' = u32 (f t + js.countP fun j => j < doc.length ∧ doc.headAt j = k ∧ k ≠ j ∧ c j k) := by
  induction js generalizing doc t with
  | nil => exact ⟨t, ht, (Nat.mod_eq_of_lt hsmall).symm⟩
  | cons j js ih =>
    have hsame := @sameBut_linkChild doc c b hbump j
    obtain ⟨t₁, ht₁, hf₁⟩ : ∃ t₁, (linkChild c b doc j)[k]? = some t₁ ∧
        f t₁ = u32 (f t + if j < doc.length ∧ doc.headAt j = k ∧ k ≠ j ∧ c j k then 1 else 0) := by
      rw [getElem?_linkChild, ht]
      refine ⟨_, rfl, ?_⟩
      have hkeep : f t = u32 (f t) := (Nat.mod_eq_of_lt hsmall).symm
      by_cases hj : j < doc.length
      · rw [List.getElem?_eq_getElem hj]
        dsimp only [Option.elim_some]
        split
        · next hhead =>
          rw [hwiden]
          by_cases hc : c j k
          · simp [hc, hj, hhead, hcount]
          · simp [hc, ← hkeep]
        · next hhead =>
          have : ¬ (j < doc.length ∧ doc.headAt j = k ∧ k ≠ j ∧ c j k) := fun h => hhead ⟨h.2.1, h.2.2.1⟩
          simp [this, ← hkeep]
      · rw [List.getElem?_eq_none (by omega)]
        simp [hj, ← hkeep]
    obtain ⟨t', ht', hf'⟩ := ih ht₁ (by rw [hf₁]; exact Nat.mod_lt _ (by decide))
    refine ⟨t', ht', ?_⟩
    rw [hf', hf₁, List.countP_cons]
    simp only [hsame.length, hsame.headAt, decide_eq_true_eq]
    unfold u32
    omega

theorem sameBut_foldl_linkChild (js : List ℕ) : SameBut doc (js.foldl (linkChild c b) doc) := by
  induction js generalizing doc with
  | nil => rfl
  | cons j js ih => exact Eq.trans ih (sameBut_linkChild hbump j)

theorem Linked.foldl_linkChild (hbumpEdges : ∀ t, (b t).lEdge = t.lEdge ∧ (b t).rEdge = t.rEdge)
    (h : Linked doc doc') (js : List ℕ) : Linked doc (js.foldl (Doc.linkChild c b) doc') := by
  induction js generalizing doc' with
  | nil => exact h
  | cons j js ih => exact ih (h.linkChild hbump hbumpEdges j)

end Passes

theorem keep_foldl_linkChild {c : ℕ → ℕ → Bool} {b : TokenRecord → TokenRecord} {f : TokenRecord → ℕ}
    (hwiden : ∀ child t, f (widen child t) = f t) (hbump : ∀ j k t, c j k → f (b t) = f t) (js : List ℕ)
    {k : ℕ} {t : TokenRecord} (ht : doc[k]? = some t) :
    ∃ t', (js.foldl (linkChild c b) doc)[k]? = some t' ∧ f t' = f t := by
  induction js generalizing doc t with
  | nil => exact ⟨t, ht, rfl⟩
  | cons j js ih =>
    obtain ⟨t₁, ht₁, hf₁⟩ : ∃ t₁, (linkChild c b doc j)[k]? = some t₁ ∧ f t₁ = f t := by
      rw [getElem?_linkChild, ht]
      refine ⟨_, rfl, ?_⟩
      cases doc[j]? with
      | none => rfl
      | some child =>
        dsimp only [Option.elim_some]
        split
        · rw [hwiden]
          split
          · next hc => exact hbump j k t hc
          · rfl
        · rfl
    obtain ⟨t', ht', hf'⟩ := ih ht₁
    exact ⟨t', ht', hf'.trans hf₁⟩

def leftKids (doc : Doc) (i : ℕ) : ℕ := (List.range doc.length).countP fun j => doc.headAt j = i ∧ j < i

def rightKids (doc : Doc) (i : ℕ) : ℕ := (List.range doc.length).countP fun j => doc.headAt j = i ∧ i < j

theorem Linked.setLrKidsAndEdges (h : Linked doc doc') (loopCount : ℕ) :
    Linked doc (doc'.setLrKidsAndEdges loopCount).1 := by
  have hleft := h.foldl_linkChild (c := fun i hi => loopCount = 0 ∧ i < hi) (b := addLeftKid)
    (fun _ => rfl) (fun _ => ⟨rfl, rfl⟩) (List.range doc'.length)
  exact hleft.foldl_linkChild (b := addRightKid) (fun _ => rfl) (fun _ => ⟨rfl, rfl⟩) _

theorem Linked.settle (h : Linked doc doc') (loopCount : ℕ) : Linked doc (doc'.settle loopCount) := by
  induction hn : 11 - loopCount using Nat.strong_induction_on generalizing loopCount doc' with
  | _ n ih =>
    subst hn
    rw [Doc.settle]
    split
    · exact h.setLrKidsAndEdges loopCount
    · next hgo => exact ih _ (by omega) (h.setLrKidsAndEdges loopCount) (loopCount + 1) rfl

theorem kids_setLrKidsAndEdges {k : ℕ} {t : TokenRecord} (ht : doc[k]? = some t) (hl : t.lKids = 0)
    (hr : t.rKids = 0) : ∃ t', (doc.setLrKidsAndEdges 0).1[k]? = some t' ∧ t'.lKids = u32 (doc.leftKids k) ∧
      t'.rKids = u32 (doc.rightKids k) := by
  have hsame : SameBut doc ((List.range doc.length).foldl (linkLeft 0) doc) :=
    sameBut_foldl_linkChild (b := addLeftKid) (fun _ => rfl) _
  obtain ⟨t₁, ht₁, hl₁⟩ := count_foldl_linkChild (c := fun i hi => (0 = 0 ∧ i < hi : Prop)) (b := addLeftKid)
    (f := TokenRecord.lKids) (fun _ => rfl) (fun _ _ => rfl) (fun _ => rfl) (List.range doc.length) ht (by omega)
  obtain ⟨t₂, ht₂, hr₁⟩ := keep_foldl_linkChild (c := fun i hi => (0 = 0 ∧ i < hi : Prop)) (b := addLeftKid)
    (f := TokenRecord.rKids) (fun _ _ => rfl) (fun _ _ _ _ => rfl) (List.range doc.length) ht
  obtain rfl := Option.some.inj (ht₁.symm.trans ht₂)
  obtain ⟨t₃, ht₃, hr₂⟩ := count_foldl_linkChild (c := fun i hi => (0 = 0 ∧ hi < i : Prop)) (b := addRightKid)
    (f := TokenRecord.rKids) (fun _ => rfl) (fun _ _ => rfl) (fun _ => rfl)
    (List.range ((List.range doc.length).foldl (linkLeft 0) doc).length).reverse ht₁ (by omega)
  obtain ⟨t₄, ht₄, hl₂⟩ := keep_foldl_linkChild (c := fun i hi => (0 = 0 ∧ hi < i : Prop)) (b := addRightKid)
    (f := TokenRecord.lKids) (fun _ _ => rfl) (fun _ _ _ _ => rfl)
    (List.range ((List.range doc.length).foldl (linkLeft 0) doc).length).reverse ht₁
  obtain rfl := Option.some.inj (ht₃.symm.trans ht₄)
  refine ⟨t₃, ht₃, ?_, ?_⟩
  · rw [hl₂, hl₁, hl, Nat.zero_add, leftKids]
    congr 1
    apply List.countP_congr
    intro j hj
    rw [List.mem_range] at hj
    simp only [decide_eq_true_eq, true_and]
    omega
  · rw [hr₂, hr₁, hr, Nat.zero_add, rightKids, List.countP_reverse, hsame.length]
    congr 1
    apply List.countP_congr
    intro j hj
    rw [List.mem_range] at hj
    constructor
    · intro h
      obtain ⟨-, hhead, -, hside⟩ := of_decide_eq_true h
      exact decide_eq_true ⟨(hsame.headAt j).symm.trans hhead, (of_decide_eq_true hside).2⟩
    · intro h
      obtain ⟨hhead, hside⟩ := of_decide_eq_true h
      exact decide_eq_true ⟨hsame.length.symm ▸ hj, (hsame.headAt j).trans hhead, hside.ne, decide_eq_true ⟨rfl, hside⟩⟩

theorem keep_setLrKidsAndEdges {f : TokenRecord → ℕ} (hwiden : ∀ child t, f (widen child t) = f t) {loopCount : ℕ}
    (hloop : loopCount ≠ 0) {k : ℕ} {t : TokenRecord} (ht : doc[k]? = some t) :
    ∃ t', (doc.setLrKidsAndEdges loopCount).1[k]? = some t' ∧ f t' = f t := by
  obtain ⟨t₁, ht₁, hf₁⟩ := keep_foldl_linkChild (c := fun i hi => (loopCount = 0 ∧ i < hi : Prop))
    (b := addLeftKid) hwiden (fun _ _ _ h => by simp [hloop] at h) (List.range doc.length) ht
  obtain ⟨t₂, ht₂, hf₂⟩ := keep_foldl_linkChild (c := fun i hi => (loopCount = 0 ∧ hi < i : Prop))
    (b := addRightKid) hwiden (fun _ _ _ h => by simp [hloop] at h)
    (List.range ((List.range doc.length).foldl (linkLeft loopCount) doc).length).reverse ht₁
  exact ⟨t₂, ht₂, hf₂.trans hf₁⟩

theorem keep_settle {f : TokenRecord → ℕ} (hwiden : ∀ child t, f (widen child t) = f t) (loopCount : ℕ)
    (hloop : loopCount ≠ 0) {k : ℕ} {t : TokenRecord} (ht : doc[k]? = some t) :
    ∃ t', (doc.settle loopCount)[k]? = some t' ∧ f t' = f t := by
  induction hn : 11 - loopCount using Nat.strong_induction_on generalizing loopCount doc t with
  | _ n ih =>
    subst hn
    obtain ⟨t₁, ht₁, hf₁⟩ := keep_setLrKidsAndEdges hwiden hloop ht
    rw [Doc.settle]
    split
    · exact ⟨t₁, ht₁, hf₁⟩
    · obtain ⟨t₂, ht₂, hf₂⟩ := ih _ (by omega) (loopCount + 1) (by omega) ht₁ rfl
      exact ⟨t₂, ht₂, hf₂.trans hf₁⟩

theorem kids_settle {k : ℕ} {t t' : TokenRecord} (ht : doc[k]? = some t) (hl : t.lKids = 0) (hr : t.rKids = 0)
    (ht' : (doc.settle 0)[k]? = some t') :
    t'.lKids = u32 (doc.leftKids k) ∧ t'.rKids = u32 (doc.rightKids k) := by
  obtain ⟨t₁, ht₁, hl₁, hr₁⟩ := kids_setLrKidsAndEdges ht hl hr
  rw [Doc.settle] at ht'
  split at ht'
  · obtain rfl := Option.some.inj (ht₁.symm.trans ht')
    exact ⟨hl₁, hr₁⟩
  · obtain ⟨t₂, ht₂, hf₂⟩ := keep_settle (f := TokenRecord.lKids) (fun _ _ => rfl) 1 (by decide) ht₁
    obtain ⟨t₃, ht₃, hf₃⟩ := keep_settle (f := TokenRecord.rKids) (fun _ _ => rfl) 1 (by decide) ht₁
    obtain rfl := Option.some.inj (ht₂.symm.trans ht')
    obtain rfl := Option.some.inj (ht₃.symm.trans ht')
    exact ⟨hf₂.trans hl₁, hf₃.trans hr₁⟩

theorem countP_range_lt (n lo hi : ℕ) {p : ℕ → Bool} (hp : ∀ j, p j → lo ≤ j ∧ j < hi) (hlen : hi - lo < 2 ^ 32) :
    (List.range n).countP p < 2 ^ 32 := by
  have hsub : (((List.range n).filter p).toFinset) ⊆ Finset.Ico lo hi := by
    intro j hj
    rw [List.mem_toFinset, List.mem_filter] at hj
    exact Finset.mem_Ico.mpr (hp j hj.2)
  have hcard := Finset.card_le_card hsub
  rw [List.toFinset_card_of_nodup (List.nodup_range.filter p), Nat.card_Ico] at hcard
  rw [List.countP_eq_length_filter]
  omega

theorem headAbs_bounds (doc : Doc) (j : ℕ) : (j : ℤ) - 2 ^ 31 ≤ doc.headAbs j ∧ doc.headAbs j < j + 2 ^ 31 := by
  unfold headAbs
  cases doc[j]? with
  | none =>
    dsimp only [Option.elim_none]
    omega
  | some t =>
    have h₁ := t.head.le_toInt
    have h₂ := t.head.toInt_lt
    dsimp only [Option.elim_some]
    omega

theorem u32_leftKids (doc : Doc) (k : ℕ) : u32 (doc.leftKids k) = doc.leftKids k := by
  apply Nat.mod_eq_of_lt
  apply countP_range_lt _ (k - 2 ^ 31) k
  · intro j hj
    obtain ⟨hhead, hlt⟩ := of_decide_eq_true hj
    have := doc.headAbs_bounds j
    unfold headAt at hhead
    omega
  · omega

theorem u32_rightKids (doc : Doc) (k : ℕ) : u32 (doc.rightKids k) = doc.rightKids k := by
  apply Nat.mod_eq_of_lt
  apply countP_range_lt _ k (k + 2 ^ 31 + 1)
  · intro j hj
    obtain ⟨hhead, hlt⟩ := of_decide_eq_true hj
    have := doc.headAbs_bounds j
    unfold headAt at hhead
    omega
  · omega

theorem linked_resetKids (doc : Doc) : Linked doc doc.resetKids := by
  constructor
  · apply List.ext_getElem?
    intro k
    simp only [resetKids, List.getElem?_map, List.getElem?_mapIdx, Option.map_map]
    rfl
  · intro i t ht
    rw [resetKids, List.getElem?_mapIdx] at ht
    obtain ⟨t, -, rfl⟩ := Option.map_eq_some_iff.mp ht
    exact ⟨⟨i, .refl, rfl⟩, ⟨i, .refl, rfl⟩, le_rfl, le_rfl⟩

def rootEdge (doc : Doc) (j : ℕ) : Option ℕ :=
  doc[j]?.bind fun t => if t.head = 0 ∧ t.hasHead then some t.lEdge else none

theorem getElem?_markStart (i k : ℕ) : (doc.markStart i)[k]? = doc[k]?.map fun t =>
    if doc.rootEdge i = some k then { t with sentStart := .start } else t := by
  unfold markStart rootEdge
  cases hi : doc[i]? with
  | none => simp
  | some t =>
    dsimp only [Option.bind_some]
    split
    · rw [List.getElem?_modify]
      simp
    · simp

theorem rootEdge_markStart (i j : ℕ) : (doc.markStart i).rootEdge j = doc.rootEdge j := by
  rw [rootEdge, getElem?_markStart]
  generalize doc.rootEdge i = edge
  rw [rootEdge]
  cases doc[j]? with
  | none => rfl
  | some t =>
    dsimp only [Option.map_some, Option.bind_some]
    split <;> rfl

theorem getElem?_foldl_markStart (js : List ℕ) (k : ℕ) : (js.foldl markStart doc)[k]? = doc[k]?.map fun t =>
    if js.any (fun j => doc.rootEdge j = some k) then { t with sentStart := .start } else t := by
  induction js generalizing doc with
  | nil => simp
  | cons j js ih =>
    rw [List.foldl_cons, ih, getElem?_markStart, Option.map_map]
    congr 1
    funext t
    simp only [rootEdge_markStart, Function.comp_apply, List.any_cons, Bool.or_eq_true, decide_eq_true_eq]
    by_cases h : doc.rootEdge j = some k <;> simp [h]

structure Rebuilt (doc : Doc) : Prop where
  lKids : ∀ (i : ℕ) t, doc[i]? = some t → t.lKids = doc.leftKids i
  rKids : ∀ (i : ℕ) t, doc[i]? = some t → t.rKids = doc.rightKids i
  edges : ∀ (i : ℕ) t, doc[i]? = some t → doc.EdgesUnder i t
  starts : ∀ (i : ℕ) t, doc[i]? = some t →
    t.sentStart = if (List.range doc.length).any (fun r => doc.rootEdge r = some i) then .start else .notStart

theorem getElem?_markStarts (doc : Doc) (k : ℕ) : doc.markStarts[k]? = doc[k]?.map fun t =>
    { t with sentStart := if (List.range doc.length).any (fun r => doc.rootEdge r = some k) then .start
      else .notStart } := by
  have hedge : ∀ j, rootEdge (doc.map fun t => { t with sentStart := .notStart }) j = doc.rootEdge j := by
    intro j
    rw [rootEdge, rootEdge, List.getElem?_map]
    cases doc[j]? <;> rfl
  rw [markStarts, getElem?_foldl_markStart, List.getElem?_map, Option.map_map]
  congr 1
  funext t
  simp only [hedge, Function.comp_apply]
  split <;> rfl

theorem rootEdge_markStarts (doc : Doc) (j : ℕ) : doc.markStarts.rootEdge j = doc.rootEdge j := by
  rw [rootEdge, getElem?_markStarts, rootEdge]
  cases doc[j]? <;> rfl

theorem sameBut_markStarts (doc : Doc) : SameBut doc doc.markStarts := by
  apply List.ext_getElem?
  intro k
  rw [List.getElem?_map, List.getElem?_map, getElem?_markStarts, Option.map_map]
  rfl

theorem SameBut.leftKids (h : SameBut doc doc') (k : ℕ) : doc'.leftKids k = doc.leftKids k := by
  simp only [Doc.leftKids, h.length, h.headAt]

theorem SameBut.rightKids (h : SameBut doc doc') (k : ℕ) : doc'.rightKids k = doc.rightKids k := by
  simp only [Doc.rightKids, h.length, h.headAt]

theorem SameBut.edgesUnder (h : SameBut doc doc') {k : ℕ} {t : TokenRecord} (ht : doc.EdgesUnder k t) :
    doc'.EdgesUnder k t := by
  have hunder : doc'.Under = doc.Under := by
    unfold Under
    simp only [h.headAt]
  obtain ⟨hl, hr, hle, hge⟩ := ht
  rw [← hunder] at hl hr
  exact ⟨hl, hr, hle, hge⟩

theorem setChildrenFromHeads_eq (h : ∀ i < doc.length, 0 ≤ doc.headAbs i ∧ doc.headAbs i < doc.length) :
    doc.setChildrenFromHeads = .ok (doc.resetKids.settle 0).markStarts := by
  have hnone : (List.range doc.length).find? (fun i => doc.headAbs i < 0 ∨ doc.length ≤ doc.headAbs i) = none := by
    rw [List.find?_eq_none]
    intro i hi
    have := h i (List.mem_range.mp hi)
    rw [decide_eq_true_eq]
    omega
  rw [setChildrenFromHeads, hnone]

theorem rebuilt_markStarts (doc : Doc) :
    SameBut doc (doc.resetKids.settle 0).markStarts ∧ Rebuilt (doc.resetKids.settle 0).markStarts := by
  have hreset := linked_resetKids doc
  have hlinked := hreset.settle 0
  have hmarked := sameBut_markStarts (doc.resetKids.settle 0)
  have hsame : SameBut doc (doc.resetKids.settle 0).markStarts := Eq.trans hmarked hlinked.same
  refine ⟨hsame, ?_⟩
  have hkids : ∀ (i : ℕ) t, (doc.resetKids.settle 0)[i]? = some t →
      t.lKids = doc.leftKids i ∧ t.rKids = doc.rightKids i := by
    intro i t ht
    obtain ⟨t₀, ht₀, -⟩ := hlinked.same.get ht
    have ht₁ : doc.resetKids[i]? = some { t₀ with lKids := 0, rKids := 0, lEdge := u32 i, rEdge := u32 i } := by
      rw [resetKids, List.getElem?_mapIdx, ht₀]
      rfl
    obtain ⟨hl, hr⟩ := kids_settle ht₁ rfl rfl ht
    rw [hl, hr, hreset.same.leftKids, hreset.same.rightKids, u32_leftKids, u32_rightKids]
    exact ⟨rfl, rfl⟩
  have hget : ∀ (i : ℕ) t', (doc.resetKids.settle 0).markStarts[i]? = some t' →
      ∃ t, (doc.resetKids.settle 0)[i]? = some t ∧ t' = { t with sentStart := t'.sentStart } := by
    intro i t' ht'
    rw [getElem?_markStarts] at ht'
    obtain ⟨t, ht, rfl⟩ := Option.map_eq_some_iff.mp ht'
    exact ⟨t, ht, rfl⟩
  constructor
  · intro i t' ht'
    obtain ⟨t, ht, heq⟩ := hget i t' ht'
    rw [heq, hsame.leftKids]
    exact (hkids i t ht).1
  · intro i t' ht'
    obtain ⟨t, ht, heq⟩ := hget i t' ht'
    rw [heq, hsame.rightKids]
    exact (hkids i t ht).2
  · intro i t' ht'
    obtain ⟨t, ht, heq⟩ := hget i t' ht'
    obtain ⟨hl, hr, hle, hge⟩ := hsame.edgesUnder (hlinked.edges i t ht)
    rw [heq]
    exact ⟨hl, hr, hle, hge⟩
  · intro i t' ht'
    have hlen := hmarked.length
    rw [getElem?_markStarts] at ht'
    obtain ⟨t, -, rfl⟩ := Option.map_eq_some_iff.mp ht'
    simp only [hlen, rootEdge_markStarts]

end Doc

end Fluent.Spacy
