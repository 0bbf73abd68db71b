import Mathlib.Algebra.BigOperators.Group.Finset.Piecewise
import Mathlib.Algebra.Order.BigOperators.Group.Finset
import Mathlib.Data.List.Sort
import Fluent.Library.GreedyOrder
import Fluent.Library.HashContainers

namespace Fluent.Dag

open Fluent.Library

variable {K : Type*} [LinearOrder K]

def release (st : HashMap K ℕ × List K) (dep : K) : HashMap K ℕ × List K :=
  match st.1.lookup dep with
  | none => st
  -- an edge `in_degree` has not counted would overflow here; `kahnInv_step` rules it out
  | some 0 => st
  | some (deg + 1) =>
    (st.1.insert dep deg, if deg = 0 then (st.2 ++ [dep]).insertionSort (· ≤ ·) else st.2)

def pendingDegree (inDegree : HashMap K ℕ) : ℕ :=
  ∑ k ∈ inDegree.keys, (inDegree.lookup k).getD 0

theorem pendingDegree_insert (inDegree : HashMap K ℕ) (dep : K) (deg : ℕ)
    (h : inDegree.lookup dep = some (deg + 1)) :
    pendingDegree (inDegree.insert dep deg) + 1 = pendingDegree inDegree := by
  have hmem : dep ∈ inDegree.keys := Finmap.mem_keys.mpr (Finmap.mem_of_lookup_eq_some h)
  have hkeys : (inDegree.insert dep deg).keys = inDegree.keys := by
    ext x
    rw [Finmap.mem_keys, Finmap.mem_insert, Finmap.mem_keys]
    exact ⟨fun hx => hx.elim (fun he => he ▸ Finmap.mem_keys.mp hmem) id, Or.inr⟩
  unfold pendingDegree
  rw [hkeys, ← Finset.add_sum_erase _ _ hmem, ← Finset.add_sum_erase inDegree.keys _ hmem]
  have hrest : ∑ k ∈ inDegree.keys.erase dep, ((inDegree.insert dep deg).lookup k).getD 0 =
      ∑ k ∈ inDegree.keys.erase dep, (inDegree.lookup k).getD 0 := by
    apply Finset.sum_congr rfl
    intro k hk
    rw [HashMap.lookup_insert_ite, if_neg (Finset.ne_of_mem_erase hk)]
  rw [hrest, Finmap.lookup_insert, h]
  simp only [Option.getD_some]
  omega

theorem release_measure (st : HashMap K ℕ × List K) (dep : K) :
    (release st dep).2.length + pendingDegree (release st dep).1 ≤
      st.2.length + pendingDegree st.1 := by
  unfold release
  split
  · rfl
  · rfl
  · rename_i deg h
    have := pendingDegree_insert st.1 dep deg h
    split_ifs <;> simp only [List.length_insertionSort, List.length_append, List.length_singleton] <;>
      omega

theorem foldl_release_measure (deps : List K) (st : HashMap K ℕ × List K) :
    (deps.foldl release st).2.length + pendingDegree (deps.foldl release st).1 ≤
      st.2.length + pendingDegree st.1 := by
  induction deps generalizing st with
  | nil => rfl
  | cons dep deps ih => exact (ih _).trans (release_measure st dep)

def dependents (adj : HashMap K (List K)) (k : K) : List K := (adj.lookup k).getD []

def kahnLoop (adj : HashMap K (List K)) (inDegree : HashMap K ℕ) (queue order : List K) : List K :=
  match queue with
  | [] => order
  | current :: rest =>
    kahnLoop adj ((dependents adj current).foldl release (inDegree, rest)).1
      ((dependents adj current).foldl release (inDegree, rest)).2 (order ++ [current])
termination_by queue.length + pendingDegree inDegree
decreasing_by
  have := foldl_release_measure (dependents adj current) (inDegree, rest)
  simp only [List.length_cons]
  simp only at this
  omega

def kahnSort (hash : HashOrder K) (inDegree : HashMap K ℕ) (adj : HashMap K (List K)) (total : ℕ) :
    Except (List K) (List K) :=
  let ready := (hash.iter inDegree.keys).filter (fun k => inDegree.lookup k = some 0)
  let order := kahnLoop adj inDegree (ready.insertionSort (· ≤ ·)) []
  if order.length ≠ total then .error order else .ok order

def AdjEdge (adj : HashMap K (List K)) (p n : K) : Prop := n ∈ dependents adj p

structure Released (deps : List K) (st st' : HashMap K ℕ × List K) : Prop where
  lookup : ∀ n, st'.1.lookup n = (st.1.lookup n).map (fun deg => deg - deps.count n)
  mem_queue : ∀ n, n ∈ st'.2 ↔ n ∈ st.2 ∨ n ∈ deps ∧ st.1.lookup n = some (deps.count n)
  nodup : st'.2.Nodup
  sorted : st'.2.Pairwise (· ≤ ·)

section Release

variable {st : HashMap K ℕ × List K} {dep : K} {deg : ℕ} (hdeg : st.1.lookup dep = some (deg + 1))
include hdeg

theorem release_eq : release st dep =
    (st.1.insert dep deg, if deg = 0 then (st.2 ++ [dep]).insertionSort (· ≤ ·) else st.2) := by
  simp [release, hdeg]

theorem mem_release (n : K) : n ∈ (release st dep).2 ↔ n ∈ st.2 ∨ n = dep ∧ deg = 0 := by
  rw [release_eq hdeg]
  by_cases hz : deg = 0
  · simp [hz, or_comm]
  · simp [hz]

theorem nodup_release (hd : st.2.Nodup) (hnot : dep ∉ st.2) : (release st dep).2.Nodup := by
  rw [release_eq hdeg]
  by_cases hz : deg = 0
  · simp only [hz, ↓reduceIte]
    exact (List.perm_insertionSort _ _).nodup_iff.mpr (List.concat_eq_append ▸ hd.concat hnot)
  · simpa [hz] using hd

theorem sorted_release (hs : st.2.Pairwise (· ≤ ·)) : (release st dep).2.Pairwise (· ≤ ·) := by
  rw [release_eq hdeg]
  by_cases hz : deg = 0
  · simp only [hz, ↓reduceIte]
    exact List.pairwise_insertionSort _ _
  · simpa [hz] using hs

theorem lookup_release (n : K) : (release st dep).1.lookup n = if n = dep then some deg else st.1.lookup n := by
  rw [release_eq hdeg, HashMap.lookup_insert_ite]

end Release

theorem foldl_release (deps : List K) (st : HashMap K ℕ × List K)
    (hcount : ∀ n, n ∈ deps → ∃ deg, st.1.lookup n = some deg ∧ deps.count n ≤ deg)
    (hq : ∀ n ∈ st.2, n ∉ deps) (hd : st.2.Nodup) (hs : st.2.Pairwise (· ≤ ·)) :
    Released deps st (deps.foldl release st) := by
  induction deps generalizing st with
  | nil => exact ⟨by simp, by simp, hd, hs⟩
  | cons dep deps ih =>
    obtain ⟨deg, hdeg, hle⟩ := hcount dep (by simp)
    rw [List.count_cons_self] at hle
    obtain ⟨deg, rfl⟩ : ∃ k, deg = k + 1 := ⟨deg - 1, by omega⟩
    have hnot : dep ∉ st.2 := fun h => hq dep h (by simp)
    have hlast : deg = 0 → dep ∉ deps := fun h hm => by
      have := List.count_pos_iff.mpr hm
      omega
    have hR : Released deps (release st dep) (deps.foldl release (release st dep)) := by
      refine ih _ (fun n hn => ?_) (fun n hn => ?_) (nodup_release hdeg hd hnot) (sorted_release hdeg hs)
      · rw [lookup_release hdeg]
        by_cases he : n = dep
        · subst he
          exact ⟨deg, by simp, by omega⟩
        · obtain ⟨d, h₁, h₂⟩ := hcount n (List.mem_cons_of_mem _ hn)
          rw [List.count_cons_of_ne (Ne.symm he)] at h₂
          exact ⟨d, by simp [he, h₁], h₂⟩
      · rcases (mem_release hdeg n).mp hn with h | ⟨rfl, hz⟩
        · exact fun hm => hq n h (List.mem_cons_of_mem _ hm)
        · exact hlast hz
    refine ⟨fun n => ?_, fun n => ?_, hR.nodup, hR.sorted⟩
    · rw [List.foldl_cons, hR.lookup, lookup_release hdeg]
      by_cases he : n = dep
      · subst he
        simp [hdeg]
      · simp [he, List.count_cons_of_ne (Ne.symm he)]
    · rw [List.foldl_cons, hR.mem_queue, mem_release hdeg, lookup_release hdeg]
      by_cases he : n = dep
      · subst he
        by_cases hm : n ∈ deps
        · have hz : deg ≠ 0 := fun h => hlast h hm
          simp [hm, hdeg, hz, hnot]
        · simp [hm, hdeg, hnot, List.count_eq_zero_of_not_mem hm]
      · simp [he, List.count_cons_of_ne (Ne.symm he)]

def waitingFor (N : Finset K) (adj : HashMap K (List K)) (order : List K) (n : K) : ℕ :=
  ∑ p ∈ N \ order.toFinset, (dependents adj p).count n

theorem waitingFor_eq_zero_iff {N : Finset K} {adj : HashMap K (List K)}
    (hE : ∀ p n, AdjEdge adj p n → p ∈ N ∧ n ∈ N) (order : List K) (n : K) :
    waitingFor N adj order n = 0 ↔ ∀ p, AdjEdge adj p n → p ∈ order := by
  simp only [waitingFor, Finset.sum_eq_zero_iff, Finset.mem_sdiff, List.mem_toFinset, List.count_eq_zero,
    and_imp]
  exact ⟨fun h p hp => by_contra fun ho => h p (hE p n hp).1 ho hp,
    fun h p _ ho hp => ho (h p hp)⟩

theorem waitingFor_snoc {N : Finset K} (adj : HashMap K (List K)) {order : List K} {c : K}
    (hc : c ∈ N) (ho : c ∉ order) (n : K) :
    waitingFor N adj order n = (dependents adj c).count n + waitingFor N adj (order ++ [c]) n := by
  have hsplit : N \ order.toFinset = insert c (N \ (order ++ [c]).toFinset) := by
    ext p
    by_cases hp : p = c
    · subst hp; simp [hc, ho]
    · simp [hp]
  rw [waitingFor, hsplit, Finset.sum_insert (by simp), waitingFor]

structure KahnInv (N : Finset K) (adj : HashMap K (List K)) (inDegree : HashMap K ℕ)
    (queue order : List K) : Prop where
  lookup : ∀ n, inDegree.lookup n = if n ∈ N then some (waitingFor N adj order n) else none
  mem_queue : ∀ n, n ∈ queue ↔ Available (AdjEdge adj) N order n
  nodup : queue.Nodup
  sorted : queue.Pairwise (· ≤ ·)
  closed : ∀ p n, AdjEdge adj p n → n ∈ order → p ∈ order

section Step

variable {N : Finset K} {adj : HashMap K (List K)} {inDegree : HashMap K ℕ} {current : K} {rest order : List K}
  (hE : ∀ p n, AdjEdge adj p n → p ∈ N ∧ n ∈ N) (h : KahnInv N adj inDegree (current :: rest) order)
include hE h

theorem KahnInv.available_snoc (n : K) : Available (AdjEdge adj) N (order ++ [current]) n ↔
    n ∈ rest ∨ n ∈ dependents adj current ∧ inDegree.lookup n = some ((dependents adj current).count n) := by
  have hcur : Available (AdjEdge adj) N order current := (h.mem_queue current).mp (by simp)
  have hsplit := waitingFor_snoc adj hcur.1 hcur.2.1
  have hzero := waitingFor_eq_zero_iff hE
  constructor
  · rintro ⟨hnN, hno, hall⟩
    simp only [List.mem_append, List.mem_singleton, not_or] at hno
    have hw := (hzero (order ++ [current]) n).mpr hall
    by_cases hdep : n ∈ dependents adj current
    · refine Or.inr ⟨hdep, ?_⟩
      rw [h.lookup, if_pos hnN, hsplit n, hw, Nat.add_zero]
    · have hav : Available (AdjEdge adj) N order n := by
        refine ⟨hnN, hno.1, (hzero order n).mp ?_⟩
        rw [hsplit n, hw, List.count_eq_zero_of_not_mem hdep]
      exact Or.inl ((List.mem_cons.mp ((h.mem_queue n).mpr hav)).resolve_left hno.2)
  · rintro (hn | ⟨hn, hdeg⟩)
    · have hav := (h.mem_queue n).mp (List.mem_cons_of_mem _ hn)
      refine ⟨hav.1, ?_, fun p hp => List.mem_append_left _ (hav.2.2 p hp)⟩
      have hne : n ≠ current := fun he => (List.nodup_cons.mp h.nodup).1 (he ▸ hn)
      simp [hav.2.1, hne]
    · have hnN := (hE current n hn).2
      have hw : waitingFor N adj (order ++ [current]) n = 0 := by
        have h₁ := hsplit n
        rw [h.lookup, if_pos hnN, Option.some_inj] at hdeg
        omega
      refine ⟨hnN, fun hm => ?_, (hzero _ n).mp hw⟩
      rcases List.mem_append.mp hm with ho | hc
      · exact hcur.2.1 (h.closed current n hn ho)
      · rw [List.mem_singleton.mp hc] at hn
        exact hcur.2.1 (hcur.2.2 current hn)

theorem kahnInv_step : KahnInv N adj ((dependents adj current).foldl release (inDegree, rest)).1
    ((dependents adj current).foldl release (inDegree, rest)).2 (order ++ [current]) := by
  have hcur : Available (AdjEdge adj) N order current := (h.mem_queue current).mp (by simp)
  have hsplit := waitingFor_snoc adj hcur.1 hcur.2.1
  have hR : Released (dependents adj current) (inDegree, rest)
      ((dependents adj current).foldl release (inDegree, rest)) := by
    apply foldl_release
    · intro n hn
      refine ⟨_, (h.lookup n).trans (if_pos (hE current n hn).2), ?_⟩
      rw [hsplit n]
      omega
    · intro n hn hdep
      have hav := (h.mem_queue n).mp (List.mem_cons_of_mem _ hn)
      exact hcur.2.1 (hav.2.2 current hdep)
    · exact (List.nodup_cons.mp h.nodup).2
    · exact (List.pairwise_cons.mp h.sorted).2
  refine ⟨fun n => ?_, fun n => ?_, hR.nodup, hR.sorted, fun p n hp hn => ?_⟩
  · rw [hR.lookup, h.lookup]
    by_cases hn : n ∈ N
    · simp [hn, hsplit n]
    · simp [hn]
  · rw [hR.mem_queue]
    exact (h.available_snoc hE n).symm
  · rcases List.mem_append.mp hn with ho | hc
    · exact List.mem_append_left _ (h.closed p n hp ho)
    · rw [List.mem_singleton.mp hc] at hp
      exact List.mem_append_left _ (hcur.2.2 p hp)

end Step

theorem kahnLoop_greedy {N : Finset K} {adj : HashMap K (List K)} {inDegree : HashMap K ℕ}
    {queue order : List K} (hE : ∀ p n, AdjEdge adj p n → p ∈ N ∧ n ∈ N)
    (h : KahnInv N adj inDegree queue order) :
    ∃ rest, kahnLoop adj inDegree queue order = order ++ rest ∧
      Greedy (AdjEdge adj) N order rest := by
  fun_induction kahnLoop adj inDegree queue order with
  | case1 inDegree order =>
    exact ⟨[], by simp, .stop (fun x hx => by simpa using (h.mem_queue x).mpr hx)⟩
  | case2 inDegree order current queue ih =>
    obtain ⟨rest, heq, hg⟩ := ih (kahnInv_step hE h)
    refine ⟨current :: rest, by rw [heq]; simp, .take ⟨(h.mem_queue current).mp (by simp), ?_⟩ hg⟩
    intro x hx
    rcases List.mem_cons.mp ((h.mem_queue x).mpr hx) with he | hm
    · exact he.ge
    · exact (List.pairwise_cons.mp h.sorted).1 x hm

structure Counted (N : Finset K) (adj : HashMap K (List K)) (inDegree : HashMap K ℕ) : Prop where
  keys : inDegree.keys = N
  lookup : ∀ n, inDegree.lookup n =
    if n ∈ N then some (∑ p ∈ N, (dependents adj p).count n) else none
  edges : ∀ p n, AdjEdge adj p n → p ∈ N ∧ n ∈ N

theorem kahnSort_greedy (hash : HashOrder K) {N : Finset K} {adj : HashMap K (List K)}
    {inDegree : HashMap K ℕ} (h : Counted N adj inDegree) (total : ℕ) :
    ∃ order, Greedy (AdjEdge adj) N [] order ∧
      kahnSort hash inDegree adj total = if order.length = total then .ok order else .error order := by
  have hinit : KahnInv N adj inDegree (((hash.iter inDegree.keys).filter
      (fun k => inDegree.lookup k = some 0)).insertionSort (· ≤ ·)) [] := by
    refine ⟨fun n => ?_, fun n => ?_, ?_, List.pairwise_insertionSort _ _, by simp⟩
    · simp [h.lookup, waitingFor]
    · have hzero := waitingFor_eq_zero_iff h.edges [] n
      simp only [List.mem_insertionSort, List.mem_filter, hash.mem_iter, h.keys, decide_eq_true_eq,
        h.lookup, Available, List.not_mem_nil, not_false_eq_true, true_and]
      apply and_congr_right
      intro hn
      rw [if_pos hn, Option.some_inj]
      simpa [waitingFor] using hzero
    · exact (List.perm_insertionSort _ _).nodup_iff.mpr ((hash.nodup _).filter _)
  obtain ⟨order, heq, hg⟩ := kahnLoop_greedy h.edges hinit
  refine ⟨order, hg, ?_⟩
  simp only [kahnSort, heq, List.nil_append]
  split_ifs <;> simp_all

def addEdge (st : HashMap K (List K) × HashMap K ℕ) (e : K × K) : HashMap K (List K) × HashMap K ℕ :=
  (HashMap.pushEntry st.1 e.1 e.2, st.2.insert e.2 ((st.2.lookup e.2).getD 0 + 1))

def zeroDegrees (nodes : List K) : HashMap K ℕ := nodes.foldl (fun m n => m.insert n 0) ∅

def edgeTables (nodes : List K) (edges : List (K × K)) : HashMap K (List K) × HashMap K ℕ :=
  edges.foldl addEdge (∅, zeroDegrees nodes)

theorem lookup_zeroDegrees (nodes : List K) (n : K) :
    (zeroDegrees nodes).lookup n = if n ∈ nodes then some 0 else none := by
  have H : ∀ m : HashMap K ℕ, (nodes.foldl (fun m n => m.insert n 0) m).lookup n =
      if n ∈ nodes then some 0 else m.lookup n := by
    induction nodes with
    | nil => simp
    | cons k nodes ih =>
      intro m
      rw [List.foldl_cons, ih, HashMap.lookup_insert_ite]
      by_cases hk : n = k
      · simp [hk]
      · by_cases hn : n ∈ nodes <;> simp [hk, hn]
  rw [zeroDegrees, H ∅]
  simp

theorem dependents_addEdge (st : HashMap K (List K) × HashMap K ℕ) (e : K × K) (p : K) :
    dependents (addEdge st e).1 p = dependents st.1 p ++ if p = e.1 then [e.2] else [] := by
  simp only [dependents, addEdge, HashMap.lookup_pushEntry]
  split_ifs with hp
  · rw [hp]; rfl
  · simp

theorem Counted.of_lookup {N : Finset K} {adj : HashMap K (List K)} {inDegree : HashMap K ℕ}
    (hl : ∀ n, inDegree.lookup n = if n ∈ N then some (∑ p ∈ N, (dependents adj p).count n) else none)
    (hE : ∀ p n, AdjEdge adj p n → p ∈ N ∧ n ∈ N) : Counted N adj inDegree := by
  refine ⟨?_, hl, hE⟩
  ext n
  rw [Finmap.mem_keys, Finmap.mem_iff]
  simp [hl]

theorem counted_addEdge {N : Finset K} {st : HashMap K (List K) × HashMap K ℕ} {e : K × K}
    (h : Counted N st.1 st.2) (h₁ : e.1 ∈ N) (h₂ : e.2 ∈ N) :
    Counted N (addEdge st e).1 (addEdge st e).2 := by
  apply Counted.of_lookup
  · intro n
    have hcount : ∀ p, (dependents (addEdge st e).1 p).count n =
        (dependents st.1 p).count n + if p = e.1 then (if n = e.2 then 1 else 0) else 0 := by
      intro p
      rw [dependents_addEdge, List.count_append]
      by_cases hp : p = e.1
      · by_cases hn : n = e.2
        · simp [hp, hn]
        · have hne : ¬e.2 = n := Ne.symm hn
          simp [hp, hn, hne]
      · simp [hp]
    simp only [hcount, Finset.sum_add_distrib, Finset.sum_ite_eq', h₁, ↓reduceIte]
    simp only [addEdge, HashMap.lookup_insert_ite, h.lookup]
    by_cases hn : n = e.2
    · simp [hn, h₂]
    · simp [hn]
  · intro p n hp
    rw [AdjEdge, dependents_addEdge] at hp
    rcases List.mem_append.mp hp with hold | hnew
    · exact h.edges p n hold
    · split_ifs at hnew with he
      · rw [List.mem_singleton.mp hnew, he]
        exact ⟨h₁, h₂⟩
      · simp at hnew

theorem adjEdge_foldl_addEdge (edges : List (K × K)) (st : HashMap K (List K) × HashMap K ℕ)
    (p n : K) : AdjEdge (edges.foldl addEdge st).1 p n ↔ AdjEdge st.1 p n ∨ (p, n) ∈ edges := by
  induction edges generalizing st with
  | nil => simp
  | cons e edges ih =>
    rw [List.foldl_cons, ih]
    have hstep : AdjEdge (addEdge st e).1 p n ↔ AdjEdge st.1 p n ∨ (p, n) = e := by
      rw [AdjEdge, AdjEdge, dependents_addEdge, List.mem_append]
      by_cases hp : p = e.1
      · simp [hp, Prod.ext_iff]
      · simp [hp, Prod.ext_iff]
    rw [hstep, List.mem_cons, or_assoc]

theorem edgeTables_adjEdge (nodes : List K) (edges : List (K × K)) (p n : K) :
    AdjEdge (edgeTables nodes edges).1 p n ↔ (p, n) ∈ edges := by
  rw [edgeTables, adjEdge_foldl_addEdge]
  simp [AdjEdge, dependents]

theorem edgeTables_counted {nodes : List K} {edges : List (K × K)}
    (h : ∀ e ∈ edges, e.1 ∈ nodes ∧ e.2 ∈ nodes) :
    Counted nodes.toFinset (edgeTables nodes edges).1 (edgeTables nodes edges).2 := by
  have H : ∀ st : HashMap K (List K) × HashMap K ℕ, Counted nodes.toFinset st.1 st.2 →
      Counted nodes.toFinset (edges.foldl addEdge st).1 (edges.foldl addEdge st).2 := by
    induction edges with
    | nil => exact fun st hst => hst
    | cons e edges ih =>
      intro st hst
      have he := h e (by simp)
      apply ih (fun e' he' => h e' (List.mem_cons_of_mem _ he'))
      exact counted_addEdge hst (List.mem_toFinset.mpr he.1) (List.mem_toFinset.mpr he.2)
  apply H
  apply Counted.of_lookup
  · intro n
    rw [lookup_zeroDegrees]
    simp [dependents]
  · intro p n hp
    simp [AdjEdge, dependents] at hp

theorem kahnSort_edgeTables (hash : HashOrder K) (nodes : List K) (edges : List (K × K))
    (h : ∀ e ∈ edges, e.1 ∈ nodes ∧ e.2 ∈ nodes) (total : ℕ) :
    ∃ order, Greedy (fun p n => (p, n) ∈ edges) nodes.toFinset [] order ∧
      kahnSort hash (edgeTables nodes edges).2 (edgeTables nodes edges).1 total =
        if order.length = total then .ok order else .error order := by
  obtain ⟨order, hg, heq⟩ := kahnSort_greedy hash (edgeTables_counted h) total
  exact ⟨order, greedy_congr (edgeTables_adjEdge nodes edges) hg, heq⟩

end Fluent.Dag
