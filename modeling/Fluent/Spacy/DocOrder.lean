import Fluent.Spacy.DocEdges
import Mathlib.Data.List.Sort

open Fluent.Library

namespace Fluent.Spacy

namespace Doc

def leftEdge (doc : Doc) (i : ℕ) : ℕ := (doc[i]?).elim 0 (·.lEdge)

def rightEdge (doc : Doc) (i : ℕ) : ℕ := (doc[i]?).elim 0 (·.rEdge)

structure InOrder (doc : Doc) (i : ℕ) : Prop where
  lefts : (doc.lefts i).Pairwise (· < ·)
  rights : (doc.rights i).Pairwise (· < ·)
  children : (doc.children i).Pairwise (· < ·)
  subtree : ∃ n, ∀ fuel ≥ n, doc.subtree fuel i =
    some (List.range' (doc.leftEdge i) (doc.rightEdge i + 1 - doc.leftEdge i))

variable {doc : Doc} {i : ℕ}

theorem pairwise_lefts (doc : Doc) (i : ℕ) : (doc.lefts i).Pairwise (· < ·) :=
  (List.pairwise_lt_range' ..).filter _

theorem pairwise_rights (doc : Doc) (i : ℕ) : (doc.rights i).Pairwise (· > ·) :=
  (List.pairwise_reverse.mpr (List.pairwise_lt_range' ..)).filter _

theorem headIndex_of_mem {j : ℕ} (hj : j ∈ doc.children i) : doc.headIndex j = i ∧ j ≠ i := by
  rw [children, List.mem_append, lefts, rights, List.mem_filter, List.mem_filter, List.mem_reverse, List.mem_range',
    List.mem_range'] at hj
  obtain ⟨⟨k, hk, rfl⟩, hhead⟩ | ⟨⟨k, hk, rfl⟩, hhead⟩ := hj
  · exact ⟨of_decide_eq_true hhead, by omega⟩
  · exact ⟨of_decide_eq_true hhead, by omega⟩

theorem exists_of_mem_mapM {f : ℕ → Option (List ℕ)} {js : List ℕ} {lists : List (List ℕ)}
    (h : js.mapM f = some lists) {l : List ℕ} (hl : l ∈ lists) : ∃ j ∈ js, f j = some l := by
  induction js generalizing lists with
  | nil =>
    cases h
    cases hl
  | cons j js ih =>
    rw [List.mapM_cons] at h
    obtain ⟨first, hfirst, h⟩ := Option.bind_eq_some_iff.mp h
    obtain ⟨rest, hrest, h⟩ := Option.bind_eq_some_iff.mp h
    cases h
    obtain rfl | hl := List.mem_cons.mp hl
    · exact ⟨j, List.mem_cons_self, hfirst⟩
    · obtain ⟨k, hk, hf⟩ := ih hrest hl
      exact ⟨k, List.mem_cons_of_mem j hk, hf⟩

theorem mem_subtree {fuel : ℕ} {nodes : List ℕ} (h : doc.subtree fuel i = some nodes) :
    i ∈ nodes ∧ ∀ d ∈ nodes, d = i ∨ doc.headIndex d ≠ d := by
  induction fuel generalizing i nodes with
  | zero => cases h
  | succ fuel ih =>
    rw [subtree] at h
    obtain ⟨left, hleft, h⟩ := Option.bind_eq_some_iff.mp h
    obtain ⟨right, hright, h⟩ := Option.bind_eq_some_iff.mp h
    cases h
    have hchild : ∀ {d j l}, j ∈ doc.children i → doc.subtree fuel j = some l → d ∈ l → doc.headIndex d ≠ d := by
      intro d j l hj hl hd
      obtain ⟨hhead, hne⟩ := headIndex_of_mem hj
      obtain rfl | hd := (ih hl).2 d hd
      · rw [hhead]
        exact hne.symm
      · exact hd
    refine ⟨by simp, fun d hd => ?_⟩
    rw [List.mem_append, List.mem_cons, List.mem_flatten, List.mem_flatten] at hd
    obtain ⟨l, hl, hd⟩ | rfl | ⟨l, hl, hd⟩ := hd
    · obtain ⟨j, hj, hsub⟩ := exists_of_mem_mapM hleft hl
      exact Or.inr (hchild (List.mem_append_left _ hj) hsub hd)
    · exact Or.inl rfl
    · obtain ⟨j, hj, hsub⟩ := exists_of_mem_mapM hright hl
      exact Or.inr (hchild (List.mem_append_right _ hj) hsub hd)

def OneRightChild (doc : Doc) : Prop :=
  ∀ i j k, Child doc.headAt j i → Child doc.headAt k i → i < j → i < k → j = k

section Sufficient

variable (h : Headed doc) (hlabelled : LabelledHeads doc) (hlen : doc.length ≤ 2 ^ 32)
include h hlabelled hlen

theorem pairwise_rights_of_one (hone : OneRightChild doc) (hi : i < doc.length) :
    (doc.rebuilt.rights i).Pairwise (· < ·) := by
  refine List.Pairwise.imp_of_mem (fun {j k} hj hk hjk => ?_) (pairwise_rights doc.rebuilt i)
  obtain ⟨hcj, hij⟩ := (Headed.mem_rights h hlabelled hlen hi).mp hj
  obtain ⟨hck, hik⟩ := (Headed.mem_rights h hlabelled hlen hi).mp hk
  have heq := hone i j k hcj hck hij hik
  omega

theorem pairwise_children_of_one (hone : OneRightChild doc) (hi : i < doc.length) :
    (doc.rebuilt.children i).Pairwise (· < ·) := by
  refine List.pairwise_append.mpr ⟨pairwise_lefts _ i, pairwise_rights_of_one h hlabelled hlen hone hi, ?_⟩
  intro j hj k hk
  have hji := ((Headed.mem_lefts h hlabelled hlen hi).mp hj).2
  have hik := ((Headed.mem_rights h hlabelled hlen hi).mp hk).2
  omega

variable (hproj : Projective doc.headAt)
include hproj

omit hlabelled hlen in
theorem pairwise_flatten_children {nodes : ℕ → List ℕ} {js : List ℕ} (hjs : js.Pairwise (· < ·))
    (hchild : ∀ j ∈ js, Child doc.headAt j i) (hsorted : ∀ j, Child doc.headAt j i → (nodes j).Pairwise (· < ·))
    (hmem : ∀ j, Child doc.headAt j i → ∀ d, d ∈ nodes j ↔ Below doc.headAt d j) :
    (js.map nodes).flatten.Pairwise (· < ·) := by
  rw [List.pairwise_flatten, List.forall_mem_map, List.pairwise_map]
  refine ⟨fun j hj => hsorted j (hchild j hj), List.Pairwise.imp_of_mem (fun {j k} hj hk hjk => ?_) hjs⟩
  intro a ha b hb
  have hcj := hchild j hj
  have hck := hchild k hk
  have hdisjoint : ∀ d, Below doc.headAt d j → ¬Below doc.headAt d k := fun d hdj hdk =>
    absurd (h.acyclic.child_unique hcj hck hdj hdk) hjk.ne
  exact hproj.lt_of_disjoint hdisjoint hjk ((hmem j hcj a).mp ha) ((hmem k hck b).mp hb)

omit hlabelled hlen in
theorem pairwise_around {nodes : ℕ → List ℕ} {left right : List ℕ} (hleft : left.Pairwise (· < ·))
    (hright : right.Pairwise (· < ·)) (hl : ∀ j ∈ left, Child doc.headAt j i ∧ j < i)
    (hr : ∀ j ∈ right, Child doc.headAt j i ∧ i < j)
    (hsorted : ∀ j, Child doc.headAt j i → (nodes j).Pairwise (· < ·))
    (hmem : ∀ j, Child doc.headAt j i → ∀ d, d ∈ nodes j ↔ Below doc.headAt d j) :
    ((left.map nodes).flatten ++ i :: (right.map nodes).flatten).Pairwise (· < ·) := by
  have hbefore : ∀ d ∈ (left.map nodes).flatten, d < i := by
    intro d hd
    obtain ⟨l, hl', hd⟩ := List.mem_flatten.mp hd
    obtain ⟨j, hj, rfl⟩ := List.mem_map.mp hl'
    obtain ⟨hchild, hji⟩ := hl j hj
    exact hproj.lt_of_left h.acyclic hchild hji ((hmem j hchild d).mp hd)
  have hafter : ∀ d ∈ (right.map nodes).flatten, i < d := by
    intro d hd
    obtain ⟨l, hl', hd⟩ := List.mem_flatten.mp hd
    obtain ⟨j, hj, rfl⟩ := List.mem_map.mp hl'
    obtain ⟨hchild, hij⟩ := hr j hj
    exact hproj.lt_of_right h.acyclic hchild hij ((hmem j hchild d).mp hd)
  refine List.pairwise_append.mpr ⟨?_, List.pairwise_cons.mpr ⟨hafter, ?_⟩, ?_⟩
  · exact pairwise_flatten_children h hproj hleft (fun j hj => (hl j hj).1) hsorted hmem
  · exact pairwise_flatten_children h hproj hright (fun j hj => (hr j hj).1) hsorted hmem
  · intro a ha b hb
    obtain rfl | hb := List.mem_cons.mp hb
    · exact hbefore a ha
    · exact (hbefore a ha).trans (hafter b hb)

theorem subtree_sorted (hone : OneRightChild doc) (hi : i < doc.length) :
    ∃ n nodes, (∀ fuel ≥ n, doc.rebuilt.subtree fuel i = some nodes) ∧ nodes.Pairwise (· < ·) ∧
      ∀ d, d ∈ nodes ↔ Below doc.headAt d i := by
  have hin {j i : ℕ} (hchild : Child doc.headAt j i) : j < doc.length :=
    (in_bounds h j fun he => hchild.2 (he.symm.trans hchild.1)).1
  revert hi
  refine acyclic_induction h.acyclic (fun _ _ => hin) (P := fun i => i < doc.length → ∃ n nodes,
    (∀ fuel ≥ n, doc.rebuilt.subtree fuel i = some nodes) ∧ nodes.Pairwise (· < ·) ∧
      ∀ d, d ∈ nodes ↔ Below doc.headAt d i) (fun i ih hi => ?_) i
  have hsub : ∀ j, Child doc.headAt j i → ∃ n nodes, (∀ fuel ≥ n, doc.rebuilt.subtree fuel j = some nodes) ∧
      nodes.Pairwise (· < ·) ∧ ∀ d, d ∈ nodes ↔ Below doc.headAt d j := fun j hj => ih j hj (hin hj)
  choose! depth nodes hnodes hsorted hmem using hsub
  obtain ⟨n, hn⟩ := Headed.subtree_children h hlabelled hlen hi hnodes
  obtain ⟨n', nodes', hn', -, hmem'⟩ := Headed.subtree h hlabelled hlen hi
  refine ⟨n, _, hn, ?_, ?_⟩
  · exact pairwise_around h hproj (pairwise_lefts _ i) (pairwise_rights_of_one h hlabelled hlen hone hi)
      (fun j hj => (Headed.mem_lefts h hlabelled hlen hi).mp hj)
      (fun j hj => (Headed.mem_rights h hlabelled hlen hi).mp hj) hsorted hmem
  · have heq := (hn (max n n') (le_max_left _ _)).symm.trans (hn' (max n n') (le_max_right _ _))
    rw [Option.some.inj heq]
    exact hmem'

theorem inOrder_of_one (hone : OneRightChild doc) (hi : i < doc.length) : doc.rebuilt.InOrder i := by
  refine ⟨pairwise_lefts _ i, pairwise_rights_of_one h hlabelled hlen hone hi,
    pairwise_children_of_one h hlabelled hlen hone hi, ?_⟩
  obtain ⟨n, nodes, hnodes, hsorted, hmem⟩ := subtree_sorted h hlabelled hlen hproj hone hi
  refine ⟨n, fun fuel hfuel => ?_⟩
  have hlt : i < doc.rebuilt.length := (rebuilt_markStarts doc).1.length.symm ▸ hi
  have hget : doc.rebuilt[i]? = some doc.rebuilt[i] := List.getElem?_eq_getElem hlt
  have hleast := Headed.isLeast_lEdge h hlen hproj hget hi
  have hgreatest := Headed.isGreatest_rEdge h hlen hproj hget hi
  rw [hnodes fuel hfuel, leftEdge, rightEdge, hget]
  refine congrArg some (hsorted.eq_of_mem_iff (List.pairwise_lt_range' ..) fun d => ?_)
  rw [hmem, Option.elim_some, Option.elim_some, List.mem_range'_1]
  constructor
  · intro hd
    have hl : _ ≤ d := hleast.2 hd
    have hr : d ≤ _ := hgreatest.2 hd
    omega
  · intro hd
    exact hproj.convex hleast.1 hgreatest.1 hd.1 (by omega)

end Sufficient

section Necessary

variable (h : Headed doc) (hall : ∀ i < doc.length, doc.rebuilt.InOrder i)
include hall

theorem length_le_of_inOrder : doc.length ≤ 2 ^ 32 := by
  by_contra hlong
  have hi : 2 ^ 32 < doc.length := by omega
  obtain ⟨n, hn⟩ := (hall (2 ^ 32) hi).subtree
  obtain ⟨hsame, hrebuilt⟩ := rebuilt_markStarts doc
  have hlt : 2 ^ 32 < doc.rebuilt.length := hsame.length.symm ▸ hi
  have hget : doc.rebuilt[2 ^ 32]? = some (doc.rebuilt.get ⟨2 ^ 32, hlt⟩) := List.getElem?_eq_getElem hlt
  have hself := (mem_subtree (hn n le_rfl)).1
  rw [leftEdge, rightEdge, hget, Option.elim_some, Option.elim_some, List.mem_range'_1] at hself
  obtain ⟨d, -, hd⟩ := (hrebuilt.edges _ _ hget).right
  have hedge : (doc.rebuilt.get ⟨2 ^ 32, hlt⟩).rEdge < 2 ^ 32 := hd ▸ Nat.mod_lt _ (by decide)
  omega

include h

theorem labelled_of_inOrder (hlen : doc.length ≤ 2 ^ 32) : LabelledHeads doc := by
  intro j hself
  by_contra hno
  obtain ⟨hj, hi⟩ := in_bounds h j hself
  have hchild : Child doc.headAt j (doc.headAt j) := ⟨rfl, hself.symm⟩
  have hown : doc.rebuilt.headIndex j = j := by rw [headIndex, hasHead_rebuilt, if_neg hno]
  obtain ⟨n, hn⟩ := (hall _ hi).subtree
  have hlt : doc.headAt j < doc.rebuilt.length := (rebuilt_markStarts doc).1.length.symm ▸ hi
  have hget : doc.rebuilt[doc.headAt j]? = some (doc.rebuilt.get ⟨_, hlt⟩) := List.getElem?_eq_getElem hlt
  have hedges := Headed.child_edges h hlen hchild _ hget
  obtain heq | hhead := (mem_subtree (hn n le_rfl)).2 j (by
    rw [leftEdge, rightEdge, hget, Option.elim_some, Option.elim_some, List.mem_range'_1]
    omega)
  · exact hself heq.symm
  · exact hhead hown

theorem one_of_inOrder (hlen : doc.length ≤ 2 ^ 32) (hlabelled : LabelledHeads doc) : OneRightChild doc := by
  intro i j k hj hk hij hik
  have hself : doc.headAt j ≠ j := fun he => hj.2 (he.symm.trans hj.1)
  have hi : i < doc.length := hj.1 ▸ (in_bounds h j hself).2
  have hmem {j : ℕ} := Headed.mem_rights h hlabelled hlen (j := j) hi
  have hj' := hmem.mpr ⟨hj, hij⟩
  have hk' := hmem.mpr ⟨hk, hik⟩
  have hup := (hall i hi).rights
  have hdown := pairwise_rights doc.rebuilt i
  cases hlist : doc.rebuilt.rights i with
  | nil =>
    rw [hlist] at hj'
    cases hj'
  | cons a rest =>
    rw [hlist] at hup hdown hj' hk'
    cases rest with
    | nil => exact (List.mem_singleton.mp hj').trans (List.mem_singleton.mp hk').symm
    | cons b rest =>
      have hlt := (List.pairwise_cons.mp hup).1 b List.mem_cons_self
      have hgt := (List.pairwise_cons.mp hdown).1 b List.mem_cons_self
      omega

end Necessary

theorem navigation_in_order_iff (doc : Doc) (h : Headed doc) (hproj : Projective doc.headAt) :
    ∃ out, doc.setChildrenFromHeads = .ok out ∧
      ((∀ i < doc.length, out.InOrder i) ↔ doc.length ≤ 2 ^ 32 ∧ LabelledHeads doc ∧ OneRightChild doc) := by
  refine ⟨doc.rebuilt, setChildrenFromHeads_eq h.bounds, ?_, ?_⟩
  · intro hall
    have hlen := length_le_of_inOrder hall
    have hlabelled := labelled_of_inOrder h hall hlen
    exact ⟨hlen, hlabelled, one_of_inOrder h hall hlen hlabelled⟩
  · rintro ⟨hlen, hlabelled, hone⟩ i hi
    exact inOrder_of_one h hlabelled hlen hproj hone hi

def twoRight : Doc := [labelled 0, labelled (-1), labelled (-2)]

theorem headAt_twoRight (j : ℕ) : twoRight.headAt j = if j < 3 then 0 else j := by
  match j with
  | 0 | 1 | 2 => rfl
  | j + 3 => exact Int.toNat_natCast _

theorem headed_twoRight : Headed twoRight := by
  refine ⟨by decide, acyclic_of_lt (· > ·) ?_⟩
  rintro j i ⟨rfl, hne⟩
  rw [headAt_twoRight] at hne ⊢
  split at hne <;> split <;> omega

theorem projective_twoRight : Projective twoRight.headAt := by
  intro j k hself hbetween
  have hj : j < 3 := by
    by_contra hj
    exact hself (by rw [headAt_twoRight, if_neg hj])
  rw [headAt_twoRight, if_pos hj] at hbetween ⊢
  refine Relation.ReflTransGen.single ?_
  rw [headAt_twoRight, if_pos (by omega)]

theorem two_right_children_iff : ∃ out, twoRight.setChildrenFromHeads = .ok out ∧
    ((∀ i < twoRight.length, out.InOrder i) ↔
      twoRight.length ≤ 2 ^ 32 ∧ LabelledHeads twoRight ∧ OneRightChild twoRight) :=
  navigation_in_order_iff twoRight headed_twoRight projective_twoRight

theorem right_children_reversed : Headed twoRight ∧ Projective twoRight.headAt ∧
    twoRight.setChildrenFromHeads.toOption.map
        (fun out => (out.rights 0, out.children 0, out.subtree 2 0, out.leftEdge 0, out.rightEdge 0)) =
      some ([2, 1], [2, 1], some [0, 2, 1], 0, 2) :=
  ⟨headed_twoRight, projective_twoRight, by decide +kernel⟩

end Doc

end Fluent.Spacy
