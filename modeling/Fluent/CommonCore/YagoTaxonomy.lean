import Fluent.Library.HashContainers
import Mathlib.Data.Finset.Sort
import Mathlib.Data.List.Chain
import Mathlib.Logic.Relation

namespace Fluent.CommonCore.Yago

open Fluent.Library
open Relation (TransGen ReflTransGen)

variable {α : Type} [LinearOrder α]

abbrev Parents (α : Type) := HashMap α (List α)

abbrev Memo (α : Type) := HashMap α (Finset α)

abbrev Ancestors (α : Type) := HashMap α (Finset α)

def parentsOf (direct : Parents α) (node : α) : List α := (direct.lookup node).getD []

def nodes (direct : Parents α) : Finset α :=
  direct.keys ∪ direct.keys.biUnion fun node => (parentsOf direct node).toFinset

section Search

def visit (search : α → Memo α → Option (Finset α × Memo α)) (acc : Finset α × Memo α) (parent : α) :
    Option (Finset α × Memo α) :=
  (search parent acc.2).map fun found => (insert parent acc.1 ∪ found.1, found.2)

def dfs (direct : Parents α) : ℕ → Finset α → α → Memo α → Option (Finset α × Memo α)
  | 0, _, _, _ => none
  | fuel + 1, stack, node, memo =>
    match memo.lookup node with
    | some hit => some (hit, memo)
    | none =>
      if node ∈ stack then some (∅, memo)
      else ((parentsOf direct node).foldlM (visit (dfs direct fuel (insert node stack))) (∅, memo)).map
        fun found => (found.1, found.2.insert node found.1)

def ancestorsStep (direct : Parents α) (acc : Memo α × Ancestors α) (node : α) : Option (Memo α × Ancestors α) :=
  (dfs direct ((nodes direct).card + 1) ∅ node acc.1).map fun found =>
    (found.2, acc.2.insert node (found.1.erase node))

def ancestorsInOrder (order : List α) (direct : Parents α) : Option (Ancestors α) :=
  (order.foldlM (ancestorsStep direct) (∅, ∅)).map Prod.snd

def transitiveAncestors (direct : Parents α) : Option (Ancestors α) :=
  ancestorsInOrder ((nodes direct).sort (· ≤ ·)) direct

end Search

def Edge (direct : Parents α) (node parent : α) : Prop := parent ∈ parentsOf direct node

instance (direct : Parents α) (node parent : α) : Decidable (Edge direct node parent) :=
  inferInstanceAs (Decidable (parent ∈ parentsOf direct node))

section Spec

variable {direct : Parents α} {fuel : ℕ} {stack : Finset α} {node : α} {memo : Memo α}

theorem mem_keys_of_edge {u v : α} (h : Edge direct u v) : u ∈ direct.keys := by
  rw [Edge, parentsOf] at h
  rw [Finmap.mem_keys, ← Finmap.lookup_isSome]
  cases hu : direct.lookup u with
  | none =>
    rw [hu] at h
    exact absurd h List.not_mem_nil
  | some ps => rfl

theorem mem_nodes_left {u v : α} (h : Edge direct u v) : u ∈ nodes direct :=
  Finset.mem_union_left _ (mem_keys_of_edge h)

theorem card_sdiff_insert_lt {u v : α} (he : Edge direct u v) (hu : u ∉ stack)
    (hfuel : (nodes direct \ stack).card < fuel + 1) : (nodes direct \ insert u stack).card < fuel := by
  have hmem : u ∈ nodes direct \ stack := Finset.mem_sdiff.mpr ⟨mem_nodes_left he, hu⟩
  have hsub : nodes direct \ insert u stack ⊂ nodes direct \ stack := by
    refine Finset.ssubset_iff_of_subset (Finset.sdiff_subset_sdiff (subset_refl _)
      (Finset.subset_insert u stack)) |>.mpr ⟨u, hmem, fun h => ?_⟩
    exact (Finset.mem_sdiff.mp h).2 (Finset.mem_insert_self u stack)
  have := Finset.card_lt_card hsub
  omega

structure Gathered (P : α → Finset α → Prop) (stack : Finset α) (parents : List α) (out : Finset α) : Prop where
  sound : ∀ x ∈ out, ∃ p ∈ parents, x = p ∨ ∃ found, P p found ∧ x ∈ found
  complete : ∀ p ∈ parents, p ∈ out ∧ (p ∈ stack ∨ ∃ found, P p found ∧ found ⊆ out)

structure Searched (P : α → Finset α → Prop) (stack : Finset α) (node : α) (memo : Memo α)
    (result : Finset α × Memo α) : Prop where
  kept : ∀ k out, memo.lookup k = some out → result.2.lookup k = some out
  holds : ∀ k out, result.2.lookup k = some out → P k out
  found : (node ∈ stack ∧ result.1 = ∅) ∨ P node result.1 ∧ result.2.lookup node = some result.1

theorem gather {P : α → Finset α → Prop} {search : α → Memo α → Option (Finset α × Memo α)}
    (parents : List α) (hmemo : ∀ k out, memo.lookup k = some out → P k out)
    (hsearch : ∀ p ∈ parents, ∀ memo : Memo α, (∀ k out, memo.lookup k = some out → P k out) →
      ∃ result, search p memo = some result ∧ Searched P stack p memo result) (done : List α) (out : Finset α)
    (hout : Gathered P stack done out) :
    ∃ result, parents.foldlM (visit search) (out, memo) = some result ∧
      Gathered P stack (done ++ parents) result.1 ∧
      (∀ k out, memo.lookup k = some out → result.2.lookup k = some out) ∧
      ∀ k out, result.2.lookup k = some out → P k out := by
  induction parents generalizing memo done out with
  | nil => exact ⟨(out, memo), rfl, by rwa [List.append_nil], fun _ _ h => h, hmemo⟩
  | cons p parents ih =>
    obtain ⟨⟨found, memo'⟩, hp, hs⟩ := hsearch p List.mem_cons_self memo hmemo
    have hsub : out ⊆ insert p out ∪ found :=
      (Finset.subset_insert p out).trans Finset.subset_union_left
    have hnext : Gathered P stack (done ++ [p]) (insert p out ∪ found) := by
      constructor
      · intro x hx
        rw [Finset.mem_union, Finset.mem_insert] at hx
        rcases hx with (rfl | hx) | hx
        · exact ⟨x, List.mem_append_right _ List.mem_cons_self, .inl rfl⟩
        · obtain ⟨q, hq, hqx⟩ := hout.sound x hx
          exact ⟨q, List.mem_append_left _ hq, hqx⟩
        · refine ⟨p, List.mem_append_right _ List.mem_cons_self, .inr ?_⟩
          rcases hs.found with ⟨-, hempty⟩ | ⟨hfound, -⟩
          · change found = ∅ at hempty
            rw [hempty] at hx
            exact absurd hx (Finset.notMem_empty x)
          · exact ⟨found, hfound, hx⟩
      · intro q hq
        rcases List.mem_append.mp hq with hq | hq
        · obtain ⟨hmem, hq⟩ := hout.complete q hq
          refine ⟨hsub hmem, hq.imp_right ?_⟩
          rintro ⟨f, hf, hfo⟩
          exact ⟨f, hf, hfo.trans hsub⟩
        · obtain rfl := List.mem_singleton.mp hq
          refine ⟨Finset.mem_union_left _ (Finset.mem_insert_self q out), ?_⟩
          rcases hs.found with ⟨hstack, -⟩ | ⟨hfound, -⟩
          · exact .inl hstack
          · exact .inr ⟨found, hfound, Finset.subset_union_right⟩
    obtain ⟨result, hfold, hgathered, hkept, hholds⟩ :=
      ih hs.holds (fun q hq => hsearch q (List.mem_cons_of_mem p hq)) (done ++ [p]) _ hnext
    refine ⟨result, ?_, ?_, fun k o h => hkept k o (hs.kept k o h), hholds⟩
    · rw [List.foldlM_cons, visit, hp]
      exact hfold
    · rwa [List.append_assoc] at hgathered

theorem dfs_spec {Q : Finset α → α → Prop} {P : α → Finset α → Prop}
    (hQ : ∀ stack node parent, Q stack node → node ∉ stack → Edge direct node parent → Q (insert node stack) parent)
    (hP : ∀ stack node out, Q stack node → node ∉ stack →
      Gathered P (insert node stack) (parentsOf direct node) out → P node out)
    (hfuel : (nodes direct \ stack).card < fuel) (hstack : Q stack node)
    (hmemo : ∀ k out, memo.lookup k = some out → P k out) :
    ∃ result, dfs direct fuel stack node memo = some result ∧ Searched P stack node memo result := by
  induction fuel generalizing stack node memo with
  | zero => exact absurd hfuel (Nat.not_lt_zero _)
  | succ fuel ih =>
    rw [dfs]
    cases hnode : memo.lookup node with
    | some hit =>
      exact ⟨_, rfl, fun _ _ h => h, hmemo, .inr ⟨hmemo node hit hnode, hnode⟩⟩
    | none =>
      dsimp only
      split_ifs with hon
      · exact ⟨_, rfl, fun _ _ h => h, hmemo, .inl ⟨hon, rfl⟩⟩
      · have hsearch : ∀ p ∈ parentsOf direct node, ∀ memo : Memo α,
            (∀ k out, memo.lookup k = some out → P k out) →
            ∃ result, dfs direct fuel (insert node stack) p memo = some result ∧
              Searched P (insert node stack) p memo result := by
          intro p hp memo hmemo
          exact ih (card_sdiff_insert_lt hp hon hfuel) (hQ stack node p hstack hon hp) hmemo
        obtain ⟨⟨out, memo'⟩, hfold, hgathered, hkept, hholds⟩ :=
          gather (parentsOf direct node) hmemo hsearch [] ∅
            ⟨fun x hx => absurd hx (Finset.notMem_empty x), fun p hp => absurd hp List.not_mem_nil⟩
        have hfound : P node out := hP stack node out hstack hon hgathered
        have hne : ∀ k out', memo.lookup k = some out' → k ≠ node := by
          rintro k out' hk rfl
          rw [hnode] at hk
          exact nomatch hk
        rw [hfold]
        refine ⟨_, rfl, ?_, ?_, .inr ⟨hfound, Finmap.lookup_insert _⟩⟩
        · intro k out' hk
          change (memo'.insert node out).lookup k = _
          rw [Finmap.lookup_insert_of_ne _ (hne k out' hk)]
          exact hkept k out' hk
        · intro k out' hk
          change (memo'.insert node out).lookup k = _ at hk
          rw [HashMap.lookup_insert_ite] at hk
          split_ifs at hk with hkn
          · rw [hkn, ← Option.some.inj hk]
            exact hfound
          · exact hholds k out' hk

theorem ancestors_spec {P : α → Finset α → Prop}
    (hsearch : ∀ node memo, (∀ k out, memo.lookup k = some out → P k out) →
      ∃ result, dfs direct ((nodes direct).card + 1) ∅ node memo = some result ∧ Searched P ∅ node memo result)
    (order : List α) (memo : Memo α) (out : Ancestors α) (hmemo : ∀ k out, memo.lookup k = some out → P k out) :
    ∃ memo' out', order.foldlM (ancestorsStep direct) (memo, out) = some (memo', out') ∧
      (∀ k found, memo.lookup k = some found → memo'.lookup k = some found) ∧
      (∀ node ∈ order, ∃ found, P node found ∧ memo'.lookup node = some found ∧
        out'.lookup node = some (found.erase node)) ∧
      ∀ node ∉ order, out'.lookup node = out.lookup node := by
  induction order generalizing memo out with
  | nil => exact ⟨memo, out, rfl, fun _ _ h => h, fun _ h => absurd h List.not_mem_nil, fun _ _ => rfl⟩
  | cons first order ih =>
    obtain ⟨⟨found, memo₁⟩, hfirst, hs⟩ := hsearch first memo hmemo
    obtain ⟨hfound, hentry⟩ : P first found ∧ memo₁.lookup first = some found :=
      hs.found.resolve_left fun h => Finset.notMem_empty _ h.1
    obtain ⟨memo', out', hfold, hkept, hlisted, hother⟩ := ih memo₁ (out.insert first (found.erase first)) hs.holds
    refine ⟨memo', out', ?_, fun k f h => hkept k f (hs.kept k f h), ?_, ?_⟩
    · rw [List.foldlM_cons, ancestorsStep, hfirst]
      exact hfold
    · intro node hnode
      by_cases hrest : node ∈ order
      · exact hlisted node hrest
      · obtain rfl : node = first := (List.mem_cons.mp hnode).resolve_right hrest
        refine ⟨found, hfound, hkept node found hentry, ?_⟩
        rw [hother node hrest, Finmap.lookup_insert]
    · intro node hnode
      rw [List.mem_cons, not_or] at hnode
      rw [hother node hnode.2, Finmap.lookup_insert_of_ne _ hnode.1]

end Spec

section Exactness

variable {direct : Parents α} {stack : Finset α} {u v w : α}

def Around (direct : Parents α) (stack : Finset α) (u w : α) : Prop :=
  ∃ last, ReflTransGen (fun a b => Edge direct a b ∧ b ∉ stack) u last ∧ Edge direct last w

/-- No node needs one of the nodes on a chain down to it in order to reach its ancestors. -/
def NoDetour (direct : Parents α) : Prop :=
  ∀ (path : List α) (node : α), (path ++ [node]).IsChain (Edge direct) → (path ++ [node]).Nodup →
    ∀ w, TransGen (Edge direct) node w → w ≠ node → Around direct path.toFinset node w

structure Exact (direct : Parents α) (out : Ancestors α) : Prop where
  keys : ∀ node, node ∈ out ↔ node ∈ nodes direct
  ancestors : ∀ node found, out.lookup node = some found →
    ∀ w, w ∈ found ↔ w ≠ node ∧ TransGen (Edge direct) node w

theorem around_parent (h : Edge direct u v) : Around direct stack u v := ⟨u, .refl, h⟩

theorem Around.cons (he : Edge direct u v) (hv : v ∉ stack) (h : Around direct stack v w) :
    Around direct stack u w := by
  obtain ⟨last, hpath, hlast⟩ := h
  exact ⟨last, .head ⟨he, hv⟩ hpath, hlast⟩

theorem Around.leave (h : Around direct stack u w) :
    Edge direct u w ∨ ∃ p, Edge direct u p ∧ p ∉ insert u stack ∧ TransGen (Edge direct) p w := by
  obtain ⟨last, hpath, hlast⟩ := h
  have hleft : last = u ∨ ∃ p, Edge direct u p ∧ p ∉ insert u stack ∧ ReflTransGen (Edge direct) p last := by
    clear hlast
    induction hpath with
    | refl => exact .inl rfl
    | @tail b c _ hbc ih =>
      by_cases hc : c = u
      · exact .inl hc
      · right
        rcases ih with rfl | ⟨p, hp, hout, hreach⟩
        · refine ⟨c, hbc.1, ?_, .refl⟩
          rw [Finset.mem_insert, not_or]
          exact ⟨hc, hbc.2⟩
        · exact ⟨p, hp, hout, hreach.tail hbc.1⟩
  rcases hleft with rfl | ⟨p, hp, hout, hreach⟩
  · exact .inl hlast
  · exact .inr ⟨p, hp, hout, .tail' hreach hlast⟩

def OnChain (direct : Parents α) (stack : Finset α) (node : α) : Prop :=
  ∃ path : List α, path.toFinset = stack ∧ path.Nodup ∧ (path ++ [node]).IsChain (Edge direct)

def Complete (direct : Parents α) (node : α) (found : Finset α) : Prop :=
  (∀ w ∈ found, TransGen (Edge direct) node w) ∧ ∀ w, TransGen (Edge direct) node w → w ≠ node → w ∈ found

theorem OnChain.push (h : OnChain direct stack u) (hu : u ∉ stack) (he : Edge direct u v) :
    OnChain direct (insert u stack) v := by
  obtain ⟨path, rfl, hnodup, hchain⟩ := h
  rw [List.mem_toFinset] at hu
  refine ⟨path ++ [u], ?_, ?_, ?_⟩
  · rw [List.toFinset_append, Finset.union_comm]
    rfl
  · exact List.nodup_append.mpr ⟨hnodup, List.nodup_singleton u, fun a ha b hb hab =>
      hu (List.mem_singleton.mp hb ▸ hab ▸ ha)⟩
  · rw [List.isChain_append]
    refine ⟨hchain, .singleton v, ?_⟩
    intro x hx y hy
    rw [List.getLast?_concat, Option.mem_some_iff] at hx
    obtain rfl : v = y := by simpa using hy
    exact hx ▸ he

theorem complete_of_gathered (hdirect : NoDetour direct) (hchain : OnChain direct stack u) (hu : u ∉ stack)
    {out : Finset α} (h : Gathered (Complete direct) (insert u stack) (parentsOf direct u) out) :
    Complete direct u out := by
  constructor
  · intro w hw
    obtain ⟨p, hp, rfl | ⟨found, hfound, hmem⟩⟩ := h.sound w hw
    · exact .single hp
    · exact .head hp (hfound.1 w hmem)
  · intro w hreach hne
    obtain ⟨path, rfl, hnodup, hpath⟩ := hchain
    rw [List.mem_toFinset] at hu
    have hsimple : (path ++ [u]).Nodup := List.nodup_append.mpr ⟨hnodup, List.nodup_singleton u,
      fun a ha b hb hab => hu (List.mem_singleton.mp hb ▸ hab ▸ ha)⟩
    rcases (hdirect path u hpath hsimple w hreach hne).leave with hp | ⟨p, hp, hoff, hpw⟩
    · exact (h.complete w hp).1
    · obtain ⟨hmem, hstack | ⟨found, hfound, hsub⟩⟩ := h.complete p hp
      · exact absurd hstack hoff
      · by_cases hpeq : w = p
        · exact hpeq ▸ hmem
        · exact hsub (hfound.2 w hpw hpeq)

theorem exact_inOrder (hdirect : NoDetour direct) {order : List α} (horder : ∀ node, node ∈ order ↔ node ∈ nodes direct) :
    ∃ out, ancestorsInOrder order direct = some out ∧ Exact direct out := by
  have hsearch : ∀ node memo, (∀ k out, memo.lookup k = some out → Complete direct k out) →
      ∃ result, dfs direct ((nodes direct).card + 1) ∅ node memo = some result ∧
        Searched (Complete direct) ∅ node memo result := by
    intro node memo hmemo
    have hfuel : (nodes direct \ ∅).card < (nodes direct).card + 1 := by
      rw [Finset.sdiff_empty]
      exact Nat.lt_succ_self _
    exact dfs_spec (fun _ _ _ h hu he => h.push hu he) (fun _ _ _ h hu hg => complete_of_gathered hdirect h hu hg)
      hfuel ⟨[], rfl, List.nodup_nil, .singleton node⟩ hmemo
  obtain ⟨memo, out, hfold, -, hlisted, hother⟩ := ancestors_spec hsearch order ∅ ∅
    fun k found h => by rw [Finmap.lookup_empty] at h; exact nomatch h
  refine ⟨out, by rw [ancestorsInOrder, hfold]; rfl, ?_, ?_⟩
  · intro node
    rw [← horder, ← Finmap.lookup_isSome]
    by_cases hnode : node ∈ order
    · obtain ⟨found, -, -, hlookup⟩ := hlisted node hnode
      rw [hlookup]
      exact iff_of_true rfl hnode
    · rw [hother node hnode, Finmap.lookup_empty]
      exact iff_of_false Bool.false_ne_true hnode
  · intro node set hset w
    by_cases hnode : node ∈ order
    · obtain ⟨found, hfound, -, hlookup⟩ := hlisted node hnode
      rw [hlookup] at hset
      rw [← Option.some.inj hset, Finset.mem_erase]
      exact and_congr_right fun hne => ⟨hfound.1 w, fun h => hfound.2 w h hne⟩
    · rw [hother node hnode, Finmap.lookup_empty] at hset
      exact nomatch hset

end Exactness

section Order

variable {direct : Parents α} {stack : Finset α} {u v w : α}

def LeadsOn (direct : Parents α) : List α → Prop
  | u :: v :: rest => (∃ more, parentsOf direct u = v :: more) ∧ LeadsOn direct (v :: rest)
  | _ => True

theorem dfs_total (stack : Finset α) {fuel : ℕ} (hfuel : (nodes direct \ stack).card < fuel) (node : α)
    (memo : Memo α) :
    ∃ result, dfs direct fuel stack node memo = some result ∧ Searched (fun _ _ => True) stack node memo result :=
  dfs_spec (Q := fun _ _ => True) (fun _ _ _ _ _ _ => trivial) (fun _ _ _ _ _ _ => trivial) hfuel trivial
    fun _ _ _ => trivial

theorem fold_total {fuel : ℕ} (hfuel : (nodes direct \ stack).card < fuel) (parents : List α) (out : Finset α)
    (memo : Memo α) :
    ∃ result, parents.foldlM (visit (dfs direct fuel stack)) (out, memo) = some result ∧
      ∀ k found, memo.lookup k = some found → result.2.lookup k = some found := by
  induction parents generalizing out memo with
  | nil => exact ⟨(out, memo), rfl, fun _ _ h => h⟩
  | cons p parents ih =>
    obtain ⟨⟨found, memo'⟩, hdfs, hs⟩ := dfs_total stack hfuel p memo
    obtain ⟨result, hfold, hkept⟩ := ih (insert p out ∪ found) memo'
    refine ⟨result, ?_, fun k f h => hkept k f (hs.kept k f h)⟩
    rw [List.foldlM_cons, visit, hdfs]
    exact hfold

theorem dfs_around {fuel : ℕ} (hfuel : (nodes direct \ stack).card < fuel) (hv : v ∉ stack) :
    ∃ result, dfs direct fuel stack v ∅ = some result ∧ result.2.lookup v = some result.1 ∧
      ∀ x ∈ result.1, Around direct stack v x := by
  obtain ⟨result, hresult, hs⟩ : ∃ result, dfs direct fuel stack v ∅ = some result ∧
      Searched (fun p found => p ∉ stack ∧ ∀ x ∈ found, Around direct stack p x) stack v ∅ result := by
    refine dfs_spec (Q := fun s _ => stack ⊆ s) ?_ ?_ hfuel (subset_refl stack) ?_
    · exact fun s _ _ hs _ _ => hs.trans (Finset.subset_insert _ s)
    · intro s node out hs hnode hg
      refine ⟨fun h => hnode (hs h), fun x hx => ?_⟩
      obtain ⟨p, hp, rfl | ⟨found, ⟨hoff, haround⟩, hmem⟩⟩ := hg.sound x hx
      · exact around_parent hp
      · exact (haround x hmem).cons hp hoff
    · intro k found h
      rw [Finmap.lookup_empty] at h
      exact nomatch h
  obtain ⟨⟨-, haround⟩, hentry⟩ := hs.found.resolve_left fun h => hv h.1
  exact ⟨result, hresult, hentry, haround⟩

theorem descend (path : List α) (first : α) {fuel : ℕ} (hfuel : (nodes direct \ stack).card < fuel)
    (hleads : LeadsOn direct (path ++ [v])) (hnodup : (path ++ [v]).Nodup)
    (hstack : ∀ c ∈ path ++ [v], c ∉ stack) (hfirst : (path ++ [v]).head? = some first) :
    ∃ result, dfs direct fuel stack first ∅ = some result ∧
      ∃ out, result.2.lookup v = some out ∧ ∀ x ∈ out, Around direct (stack ∪ path.toFinset) v x := by
  induction path generalizing stack first fuel with
  | nil =>
    obtain rfl : v = first := by simpa using hfirst
    obtain ⟨result, hresult, hentry, haround⟩ := dfs_around hfuel (hstack v List.mem_cons_self)
    refine ⟨result, hresult, result.1, hentry, ?_⟩
    rw [List.toFinset_nil, Finset.union_empty]
    exact haround
  | cons c path ih =>
    obtain rfl : c = first := by simpa using hfirst
    obtain ⟨d, rest, hd⟩ : ∃ d rest, path ++ [v] = d :: rest :=
      List.exists_cons_of_ne_nil (List.append_ne_nil_of_right_ne_nil _ (List.cons_ne_nil v []))
    rw [List.cons_append, hd] at hleads
    obtain ⟨⟨more, hmore⟩, hleads⟩ := hleads
    rw [← hd] at hleads
    rw [List.cons_append, List.nodup_cons] at hnodup
    have hc : c ∉ stack := hstack c List.mem_cons_self
    have hedge : Edge direct c d := by
      rw [Edge, hmore]
      exact List.mem_cons_self
    obtain ⟨fuel, rfl⟩ : ∃ k, fuel = k + 1 := Nat.exists_eq_succ_of_ne_zero (by omega)
    have hless := card_sdiff_insert_lt hedge hc hfuel
    have hoff : ∀ x ∈ path ++ [v], x ∉ insert c stack := by
      intro x hx hmem
      rcases Finset.mem_insert.mp hmem with rfl | hmem
      · exact hnodup.1 hx
      · exact hstack x (List.mem_cons_of_mem c hx) hmem
    obtain ⟨⟨found, memo₁⟩, hdfs, out, hout, haround⟩ := ih d hless hleads hnodup.2 hoff (by rw [hd]; rfl)
    obtain ⟨⟨all, memo₂⟩, hfold, hkept⟩ := fold_total hless more (insert d ∅ ∪ found) memo₁
    have hvc : v ≠ c := by
      rintro rfl
      exact hnodup.1 (List.mem_append_right _ List.mem_cons_self)
    refine ⟨(all, memo₂.insert c all), ?_, out, ?_, ?_⟩
    · rw [dfs, Finmap.lookup_empty]
      dsimp only
      rw [if_neg hc, hmore, List.foldlM_cons, visit, hdfs]
      change Option.map _ (List.foldlM (visit (dfs direct fuel (insert c stack))) (insert d ∅ ∪ found, memo₁) more) = _
      rw [hfold]
      rfl
    · change (memo₂.insert c all).lookup v = _
      rw [Finmap.lookup_insert_of_ne _ hvc]
      exact hkept v out hout
    · rw [List.toFinset_cons, Finset.union_insert, ← Finset.insert_union]
      exact haround

structure SameParents (direct direct' : Parents α) : Prop where
  keys : direct'.keys = direct.keys
  perm : ∀ node, (parentsOf direct' node).Perm (parentsOf direct node)

theorem SameParents.edge {direct' : Parents α} (h : SameParents direct direct') :
    Edge direct' = Edge direct := by
  funext a b
  exact propext (h.perm a).mem_iff

theorem SameParents.nodes {direct' : Parents α} (h : SameParents direct direct') :
    nodes direct' = nodes direct := by
  have hsets : ∀ node, (parentsOf direct' node).toFinset = (parentsOf direct node).toFinset :=
    fun node => List.toFinset_eq_of_perm _ _ (h.perm node)
  rw [Yago.nodes, Yago.nodes, h.keys]
  simp only [hsets]

theorem SameParents.noDetour {direct' : Parents α} (h : SameParents direct direct') :
    NoDetour direct' ↔ NoDetour direct := by
  rw [NoDetour, NoDetour]
  simp only [Around, h.edge]

def leadWith (direct : Parents α) : List α → Parents α
  | u :: v :: rest => (leadWith direct (v :: rest)).insert u (v :: (parentsOf direct u).erase v)
  | _ => direct

theorem parentsOf_insert (direct : Parents α) (u node : α) (ps : List α) :
    parentsOf (direct.insert u ps) node = if node = u then ps else parentsOf direct node := by
  rw [parentsOf, HashMap.lookup_insert_ite]
  split_ifs
  · rfl
  · rfl

theorem sameParents_leadWith {l : List α} (hchain : l.IsChain (Edge direct)) :
    SameParents direct (leadWith direct l) := by
  induction l with
  | nil => exact ⟨rfl, fun _ => .refl _⟩
  | cons c l ih =>
    cases l with
    | nil => exact ⟨rfl, fun _ => .refl _⟩
    | cons d l =>
      rw [List.isChain_cons_cons] at hchain
      have hrest := ih hchain.2
      refine ⟨?_, fun node => ?_⟩
      · rw [leadWith]
        ext node
        rw [Finmap.mem_keys, Finmap.mem_insert, ← Finmap.mem_keys, hrest.keys]
        exact or_iff_right_of_imp fun h => h ▸ mem_keys_of_edge hchain.1
      · rw [leadWith, parentsOf_insert]
        split_ifs with hnode
        · rw [hnode]
          exact (List.perm_cons_erase hchain.1).symm
        · exact hrest.perm node

theorem leadsOn_congr {direct' : Parents α} {l : List α} (h : ∀ c ∈ l, parentsOf direct' c = parentsOf direct c)
    (hleads : LeadsOn direct l) : LeadsOn direct' l := by
  induction l with
  | nil => trivial
  | cons c l ih =>
    cases l with
    | nil => trivial
    | cons d l =>
      refine ⟨?_, ih (fun x hx => h x (List.mem_cons_of_mem c hx)) hleads.2⟩
      rw [h c List.mem_cons_self]
      exact hleads.1

theorem leadsOn_leadWith {l : List α} (hnodup : l.Nodup) : LeadsOn (leadWith direct l) l := by
  induction l with
  | nil => trivial
  | cons c l ih =>
    cases l with
    | nil => trivial
    | cons d l =>
      rw [List.nodup_cons] at hnodup
      refine ⟨⟨(parentsOf direct c).erase d, ?_⟩, leadsOn_congr ?_ (ih hnodup.2)⟩
      · rw [leadWith, parentsOf_insert, if_pos rfl]
      · intro x hx
        rw [leadWith, parentsOf_insert, if_neg]
        rintro rfl
        exact hnodup.1 hx

theorem nodup_first {s : Finset α} (first : α) : (first :: (s.erase first).toList).Nodup := by
  rw [List.nodup_cons, Finset.mem_toList]
  exact ⟨Finset.notMem_erase first _, Finset.nodup_toList _⟩

theorem mem_first_iff {s : Finset α} {first : α} (hfirst : first ∈ s) (node : α) :
    node ∈ first :: (s.erase first).toList ↔ node ∈ s := by
  rw [List.mem_cons, Finset.mem_toList, Finset.mem_erase]
  constructor
  · rintro (rfl | h)
    · exact hfirst
    · exact h.2
  · intro hmem
    exact or_iff_not_imp_left.mpr fun hnf => ⟨hnf, hmem⟩

theorem noDetour_of_exact
    (h : ∀ direct' order, SameParents direct direct' → order.Nodup → (∀ node, node ∈ order ↔ node ∈ nodes direct) →
      ∃ out, ancestorsInOrder order direct' = some out ∧ Exact direct' out) : NoDetour direct := by
  intro path v hchain hnodup w hreach hne
  rcases path with - | ⟨first, rest⟩
  · obtain ⟨last, hpath, hlast⟩ := TransGen.tail'_iff.mp hreach
    exact ⟨last, ReflTransGen.mono (fun a b hab => ⟨hab, Finset.notMem_empty b⟩) v last hpath, hlast⟩
  obtain ⟨path, hpath⟩ : ∃ path, path = first :: rest := ⟨_, rfl⟩
  rw [← hpath] at hchain hnodup ⊢
  obtain ⟨direct', hdirect'⟩ : ∃ d, d = leadWith direct (path ++ [v]) := ⟨_, rfl⟩
  have hsame : SameParents direct direct' := hdirect' ▸ sameParents_leadWith hchain
  have hleads : LeadsOn direct' (path ++ [v]) := hdirect' ▸ leadsOn_leadWith hnodup
  obtain ⟨q, hvq, -⟩ := TransGen.head'_iff.mp hreach
  have hnode : v ∈ nodes direct := mem_nodes_left hvq
  have hhead : first ∈ nodes direct := by
    obtain ⟨d, l, hd⟩ : ∃ d l, rest ++ [v] = d :: l :=
      List.exists_cons_of_ne_nil (List.append_ne_nil_of_right_ne_nil _ (List.cons_ne_nil v []))
    rw [hpath, List.cons_append, hd, List.isChain_cons_cons] at hchain
    exact mem_nodes_left hchain.1
  have hvfirst : v ≠ first := by
    rintro rfl
    rw [hpath, List.cons_append, List.nodup_cons] at hnodup
    exact hnodup.1 (List.mem_append_right _ List.mem_cons_self)
  have hfuel : (nodes direct' \ ∅).card < (nodes direct').card + 1 := by
    rw [Finset.sdiff_empty]
    exact Nat.lt_succ_self _
  obtain ⟨⟨found, memo₁⟩, hdfs, entry, hentry, haround⟩ := descend path first hfuel hleads hnodup
    (fun c _ => Finset.notMem_empty c) (by rw [hpath]; rfl)
  obtain ⟨memo', out', hfold, hkept, hlisted, -⟩ := ancestors_spec (P := fun _ _ => True)
    (fun node memo _ => dfs_total ∅ hfuel node memo) ((nodes direct).erase first).toList memo₁
    ((∅ : Ancestors α).insert first (found.erase first)) fun _ _ _ => trivial
  obtain ⟨out, hout, hexact⟩ := h direct' _ hsame (nodup_first first) (mem_first_iff hhead)
  have hrun : ancestorsInOrder (first :: ((nodes direct).erase first).toList) direct' = some out' := by
    rw [ancestorsInOrder, List.foldlM_cons, ancestorsStep, hdfs]
    change Option.map _ (List.foldlM (ancestorsStep direct') (memo₁, (∅ : Ancestors α).insert first (found.erase first))
      ((nodes direct).erase first).toList) = _
    rw [hfold]
    rfl
  obtain rfl : out' = out := Option.some.inj (hrun.symm.trans hout)
  obtain ⟨foundv, -, hmemov, hlookup⟩ := hlisted v
    (Finset.mem_toList.mpr (Finset.mem_erase.mpr ⟨hvfirst, hnode⟩))
  obtain rfl : entry = foundv := Option.some.inj ((hkept v entry hentry).symm.trans hmemov)
  have hw : w ∈ entry.erase v := (hexact.ancestors v _ hlookup w).mpr ⟨hne, hsame.edge ▸ hreach⟩
  have hgoal := haround w (Finset.mem_of_mem_erase hw)
  rwa [Finset.empty_union, Around, hsame.edge] at hgoal

theorem exact_iff_noDetour (direct : Parents α) :
    (∀ direct' order, SameParents direct direct' → order.Nodup → (∀ node, node ∈ order ↔ node ∈ nodes direct) →
      ∃ out, ancestorsInOrder order direct' = some out ∧ Exact direct' out) ↔ NoDetour direct := by
  refine ⟨noDetour_of_exact, fun h direct' order hsame _ horder => ?_⟩
  refine exact_inOrder (hsame.noDetour.mpr h) fun node => ?_
  rw [horder, hsame.nodes]

theorem transitiveAncestors_exact (h : NoDetour direct) :
    ∃ out, transitiveAncestors direct = some out ∧ Exact direct out :=
  exact_inOrder h fun _ => Finset.mem_sort _

end Order

def looped : Parents ℕ := Finmap.insert (2 : ℕ) [1] (Finmap.insert (1 : ℕ) ([2, 3] : List ℕ) (∅ : Parents ℕ))

theorem ancestor_missed :
    (transitiveAncestors looped).map (fun out => (out.lookup 1, out.lookup 2)) = some (some {2, 3}, some {1}) ∧
      TransGen (Edge looped) 2 3 := by
  have hnodes : nodes looped = [1, 2, 3].toFinset := by decide +kernel
  have horder : (nodes looped).sort (· ≤ ·) = [1, 2, 3] := by
    rw [hnodes]
    exact (List.toFinset_sort (· ≤ ·) (by decide)).mpr (by decide)
  constructor
  · rw [transitiveAncestors, horder]
    decide +kernel
  · have hup : Edge looped 2 1 := by decide +kernel
    exact .head hup (.single (by decide +kernel))

end Fluent.CommonCore.Yago
