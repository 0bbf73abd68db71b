import Mathlib.Algebra.GroupWithZero.Nat
import Mathlib.Algebra.BigOperators.Group.List.Basic
import Mathlib.Data.Finset.Card
import Mathlib.Data.Finset.Union
import Fluent.Dag.GraphIndices

namespace Fluent.Dag.DependencyGraph

open Fluent.Library

variable {K : Type*} [DecidableEq K]

structure DependentsState (K : Type*) where
  result : List K
  visited : Finset K
  activePath : Finset K
  enqueued : Finset K
  stack : List (K × Bool)

def offerDependent (st : DependentsState K) (dep : K) : DependentsState K :=
  if dep ∈ st.activePath then st
  else if dep ∈ st.enqueued then st
  else { st with
    enqueued := insert dep st.enqueued
    result := st.result ++ [dep]
    stack := (dep, false) :: st.stack }

def consumers (g : DependencyGraph K) (node : K) : List K :=
  ((g.provides.lookup node).getD []).flatMap
    (fun provided => (g.providesToDependents.lookup provided).getD [])

def indexedNodes (g : DependencyGraph K) : Finset K :=
  g.providesToDependents.keys.biUnion
    (fun a => ((g.providesToDependents.lookup a).getD []).toFinset)

theorem consumers_indexed (g : DependencyGraph K) {node dep : K} (h : dep ∈ g.consumers node) :
    dep ∈ g.indexedNodes := by
  obtain ⟨a, -, hd⟩ := List.mem_flatMap.mp h
  refine Finset.mem_biUnion.mpr ⟨a, ?_, List.mem_toFinset.mpr hd⟩
  cases hl : g.providesToDependents.lookup a with
  | none => simp [hl] at hd
  | some ms => exact Finmap.mem_keys.mpr (Finmap.mem_of_lookup_eq_some hl)

def stackWeight (stack : List (K × Bool)) : ℕ := (stack.map (fun e => if e.2 then 1 else 2)).sum

def dependentsMeasure (g : DependencyGraph K) (st : DependentsState K) : ℕ :=
  2 * (g.indexedNodes \ st.enqueued).card + stackWeight st.stack

theorem offerDependent_measure (g : DependencyGraph K) (st : DependentsState K) {dep : K}
    (h : dep ∈ g.indexedNodes) :
    g.dependentsMeasure (offerDependent st dep) ≤ g.dependentsMeasure st := by
  unfold offerDependent
  split_ifs with ha he
  · rfl
  · rfl
  · have hmem : dep ∈ g.indexedNodes \ st.enqueued := Finset.mem_sdiff.mpr ⟨h, he⟩
    have hcard := Finset.card_erase_add_one hmem
    simp only [dependentsMeasure, stackWeight, Finset.sdiff_insert, List.map_cons, List.sum_cons,
      Bool.false_eq_true, ↓reduceIte]
    omega

theorem foldl_offerDependent_measure (g : DependencyGraph K) (deps : List K)
    (h : ∀ dep ∈ deps, dep ∈ g.indexedNodes) (st : DependentsState K) :
    g.dependentsMeasure (deps.foldl offerDependent st) ≤ g.dependentsMeasure st := by
  induction deps generalizing st with
  | nil => rfl
  | cons dep deps ih =>
    exact (ih (fun d hd => h d (List.mem_cons_of_mem _ hd)) _).trans
      (offerDependent_measure g st (h dep (by simp)))

def dependentsLoop (g : DependencyGraph K) (st : DependentsState K) : List K :=
  match _hs : st.stack with
  | [] => st.result
  | (current, true) :: rest =>
    dependentsLoop g { st with activePath := st.activePath.erase current, stack := rest }
  | (current, false) :: rest =>
    if current ∈ st.visited then dependentsLoop g { st with stack := rest }
    else dependentsLoop g ((g.consumers current).foldl offerDependent { st with
      visited := insert current st.visited
      activePath := insert current st.activePath
      stack := (current, true) :: rest })
termination_by g.dependentsMeasure st
decreasing_by
  · simp [dependentsMeasure, stackWeight, _hs]
  · simp [dependentsMeasure, stackWeight, _hs]
  · apply lt_of_le_of_lt (foldl_offerDependent_measure g _ (fun d hd => g.consumers_indexed hd) _)
    simp [dependentsMeasure, stackWeight, _hs]

def dependentsOf (g : DependencyGraph K) (node : K) : List K :=
  g.dependentsLoop ⟨[], ∅, ∅, {node}, [(node, false)]⟩

structure Searched (g : DependencyGraph K) (start : K) (owed : List K) (st : DependentsState K) : Prop where
  start_mem : start ∈ st.enqueued
  reported : ∀ x ∈ st.enqueued, x = start ∨ x ∈ st.result
  pending : ∀ x ∈ st.enqueued, x ∈ st.visited ∨ (x, false) ∈ st.stack
  expanded : ∀ x ∈ st.visited, ∀ y ∈ g.consumers x, y ∈ st.enqueued ∨ y ∈ owed
  active : ∀ x ∈ st.activePath, x ∈ st.enqueued
  stacked : ∀ e ∈ st.stack, e.1 ∈ st.enqueued

variable {g : DependencyGraph K} {start : K} {st : DependentsState K}

theorem Searched.offer {dep : K} {owed : List K} (h : Searched g start (dep :: owed) st) :
    Searched g start owed (offerDependent st dep) := by
  have hmet (hdep : dep ∈ st.enqueued) : Searched g start owed st := by
    refine ⟨h.start_mem, h.reported, h.pending, fun x hx y hy => ?_, h.active, h.stacked⟩
    rcases h.expanded x hx y hy with hy | hy
    · exact .inl hy
    · exact (List.mem_cons.mp hy).imp_left (by rintro rfl; exact hdep)
  unfold offerDependent
  split_ifs with ha he
  · exact hmet (h.active dep ha)
  · exact hmet he
  · refine ⟨Finset.mem_insert_of_mem h.start_mem, fun x hx => ?_, fun x hx => ?_, fun x hx y hy => ?_,
      fun x hx => Finset.mem_insert_of_mem (h.active x hx), fun e he => ?_⟩
    · rcases Finset.mem_insert.mp hx with rfl | hx
      · exact .inr (by simp)
      · exact (h.reported x hx).imp_right (List.mem_append_left _)
    · rcases Finset.mem_insert.mp hx with rfl | hx
      · exact .inr (by simp)
      · exact (h.pending x hx).imp_right (List.mem_cons_of_mem _)
    · rcases h.expanded x hx y hy with hy | hy
      · exact .inl (Finset.mem_insert_of_mem hy)
      · exact (List.mem_cons.mp hy).imp_left (by rintro rfl; exact Finset.mem_insert_self _ _)
    · rcases List.mem_cons.mp he with rfl | he
      · exact Finset.mem_insert_self _ _
      · exact Finset.mem_insert_of_mem (h.stacked e he)

theorem Searched.foldl {owed : List K} (h : Searched g start owed st) :
    Searched g start [] (owed.foldl offerDependent st) := by
  induction owed generalizing st with
  | nil => exact h
  | cons dep owed ih => exact ih h.offer

theorem Searched.pop {current : K} {rest : List (K × Bool)} {activePath : Finset K}
    (h : Searched g start [] st) (flag : Bool) (hstack : st.stack = (current, flag) :: rest)
    (hflag : flag = false → current ∈ st.visited) (hactive : activePath ⊆ st.activePath) :
    Searched g start [] { st with activePath := activePath, stack := rest } := by
  refine ⟨h.start_mem, h.reported, fun x hx => ?_, h.expanded, fun x hx => h.active x (hactive hx),
    fun e he => h.stacked e (hstack ▸ List.mem_cons_of_mem _ he)⟩
  rcases h.pending x hx with hx | hx
  · exact .inl hx
  · rw [hstack] at hx
    rcases List.mem_cons.mp hx with hx | hx
    · obtain ⟨rfl, rfl⟩ := Prod.mk.inj hx
      exact .inl (hflag rfl)
    · exact .inr hx

theorem Searched.expand {current : K} {rest : List (K × Bool)} (h : Searched g start [] st)
    (hstack : st.stack = (current, false) :: rest) : Searched g start (g.consumers current) { st with
      visited := insert current st.visited
      activePath := insert current st.activePath
      stack := (current, true) :: rest } := by
  have hcurrent : current ∈ st.enqueued := h.stacked (current, false) (by simp [hstack])
  refine ⟨h.start_mem, h.reported, fun x hx => ?_, fun x hx y hy => ?_, fun x hx => ?_, fun e he => ?_⟩
  · by_cases hxc : x = current
    · exact .inl (hxc ▸ Finset.mem_insert_self _ _)
    · have hpending := h.pending x hx
      rw [hstack, List.mem_cons, Prod.mk.injEq] at hpending
      rcases hpending with hx | ⟨hx, -⟩ | hx
      · exact .inl (Finset.mem_insert_of_mem hx)
      · exact absurd hx hxc
      · exact .inr (List.mem_cons_of_mem _ hx)
  · rcases Finset.mem_insert.mp hx with rfl | hx
    · exact .inr hy
    · exact .inl ((h.expanded x hx y hy).resolve_right (by simp))
  · rcases Finset.mem_insert.mp hx with rfl | hx
    · exact hcurrent
    · exact h.active x hx
  · rcases List.mem_cons.mp he with rfl | he
    · exact hcurrent
    · exact h.stacked e (hstack ▸ List.mem_cons_of_mem _ he)

theorem mem_dependentsLoop (hst : Searched g start [] st) {x : K}
    (hx : Relation.ReflTransGen (fun n d => d ∈ g.consumers n) start x) :
    x = start ∨ x ∈ g.dependentsLoop st := by
  fun_induction dependentsLoop g st with
  | case1 st hs =>
    have hseen : x ∈ st.enqueued := by
      induction hx with
      | refl => exact hst.start_mem
      | tail _ hy ih =>
        rcases hst.pending _ ih with hv | hv
        · exact (hst.expanded _ hv _ hy).resolve_right (by simp)
        · simp [hs] at hv
    exact hst.reported x hseen
  | case2 st current rest hs ih => exact ih (hst.pop true hs (by simp) (Finset.erase_subset _ _))
  | case3 st current rest hs hv ih => exact ih (hst.pop false hs (fun _ => hv) (Finset.Subset.refl _))
  | case4 st current rest hs hv ih => exact ih (hst.expand hs).foldl

theorem mem_dependentsOf (g : DependencyGraph K) {node x : K}
    (hx : Relation.ReflTransGen (fun n d => d ∈ g.consumers n) node x) (hne : x ≠ node) :
    x ∈ g.dependentsOf node := by
  have hstart : Searched g node [] ⟨[], ∅, ∅, {node}, [(node, false)]⟩ := by
    constructor <;> simp
  exact (mem_dependentsLoop hstart hx).resolve_left hne

theorem mem_dependentsOf_of_consumer (g : DependencyGraph K) {node x : K}
    (hx : x ∈ g.consumers node) (hne : x ≠ node) : x ∈ g.dependentsOf node :=
  g.mem_dependentsOf (.single hx) hne

def Feeds (g : DependencyGraph K) (n d : K) : Prop :=
  ∃ a ∈ (g.provides.lookup n).getD [], a ∈ (g.deps.lookup d).getD []

theorem WellIndexed.mem_consumers (hg : WellIndexed g) {n d : K} : d ∈ g.consumers n ↔ g.Feeds n d := by
  simp only [consumers, Feeds, List.mem_flatMap, hg.dependents.mem_iff]

theorem WellIndexed.mem_dependentsOf (hg : WellIndexed g) {n d : K}
    (h : Relation.TransGen g.Feeds n d) (hne : d ≠ n) : d ∈ g.dependentsOf n := by
  apply DependencyGraph.mem_dependentsOf _ _ hne
  exact Relation.ReflTransGen.mono (fun _ _ => hg.mem_consumers.mpr) _ _ h.to_reflTransGen

structure Sound (g : DependencyGraph K) (start : K) (st : DependentsState K) : Prop where
  start_mem : start ∈ st.enqueued
  nodup : st.result.Nodup
  seen : ∀ x ∈ st.result, x ∈ st.enqueued
  fresh : start ∉ st.result
  reached : ∀ x ∈ st.result, Relation.TransGen (fun n d => d ∈ g.consumers n) start x
  stacked : ∀ e ∈ st.stack, Relation.ReflTransGen (fun n d => d ∈ g.consumers n) start e.1

theorem Sound.offer (h : Sound g start st) {dep : K}
    (hdep : Relation.TransGen (fun n d => d ∈ g.consumers n) start dep) : Sound g start (offerDependent st dep) := by
  unfold offerDependent
  split_ifs with ha he
  · exact h
  · exact h
  · have hnew : dep ∉ st.result := fun hmem => he (h.seen dep hmem)
    have hne : start ≠ dep := fun heq => he (heq ▸ h.start_mem)
    refine ⟨Finset.mem_insert_of_mem h.start_mem, ?_, fun x hx => ?_, ?_, fun x hx => ?_, fun e he => ?_⟩
    · exact List.nodup_append.mpr ⟨h.nodup, List.nodup_singleton dep, fun a ha b hb heq => hnew <| by
        rwa [← List.mem_singleton.mp hb, ← heq]⟩
    · rcases List.mem_append.mp hx with hx | hx
      · exact Finset.mem_insert_of_mem (h.seen x hx)
      · exact List.mem_singleton.mp hx ▸ Finset.mem_insert_self _ _
    · simp [h.fresh, hne]
    · rcases List.mem_append.mp hx with hx | hx
      · exact h.reached x hx
      · exact List.mem_singleton.mp hx ▸ hdep
    · rcases List.mem_cons.mp he with rfl | he
      · exact hdep.to_reflTransGen
      · exact h.stacked e he

theorem Sound.foldl (h : Sound g start st) {deps : List K}
    (hdeps : ∀ dep ∈ deps, Relation.TransGen (fun n d => d ∈ g.consumers n) start dep) :
    Sound g start (deps.foldl offerDependent st) := by
  induction deps generalizing st with
  | nil => exact h
  | cons dep deps ih =>
    exact ih (h.offer (hdeps dep List.mem_cons_self)) fun d hd => hdeps d (List.mem_cons_of_mem _ hd)

theorem Sound.dependentsLoop (h : Sound g start st) : (g.dependentsLoop st).Nodup ∧ start ∉ g.dependentsLoop st ∧
    ∀ x ∈ g.dependentsLoop st, Relation.TransGen (fun n d => d ∈ g.consumers n) start x := by
  fun_induction DependencyGraph.dependentsLoop g st with
  | case1 st hs => exact ⟨h.nodup, h.fresh, h.reached⟩
  | case2 st current rest hs ih =>
    exact ih ⟨h.start_mem, h.nodup, h.seen, h.fresh, h.reached,
      fun e he => h.stacked e (hs ▸ List.mem_cons_of_mem _ he)⟩
  | case3 st current rest hs hv ih =>
    exact ih ⟨h.start_mem, h.nodup, h.seen, h.fresh, h.reached,
      fun e he => h.stacked e (hs ▸ List.mem_cons_of_mem _ he)⟩
  | case4 st current rest hs hv ih =>
    have hcurrent := h.stacked (current, false) (hs ▸ List.mem_cons_self)
    apply ih
    apply Sound.foldl
    · refine ⟨h.start_mem, h.nodup, h.seen, h.fresh, h.reached, fun e he => ?_⟩
      rcases List.mem_cons.mp he with rfl | he
      · exact hcurrent
      · exact h.stacked e (hs ▸ List.mem_cons_of_mem _ he)
    · exact fun dep hdep => Relation.TransGen.tail' hcurrent hdep

theorem sound_dependentsOf (g : DependencyGraph K) (node : K) :
    (g.dependentsOf node).Nodup ∧ node ∉ g.dependentsOf node ∧
      ∀ x ∈ g.dependentsOf node, Relation.TransGen (fun n d => d ∈ g.consumers n) node x := by
  apply Sound.dependentsLoop
  constructor <;> simp [Relation.ReflTransGen.refl]

theorem WellIndexed.feeds_registered (hg : WellIndexed g) {n d : K} (h : Relation.TransGen g.Feeds n d) :
    d ∈ g.nodes := by
  obtain ⟨m, -, a, -, hdep⟩ := Relation.TransGen.tail'_iff.mp h
  exact hg.registered_of_deps hdep

theorem dependents_of_exact [Debug K] (g : DependencyGraph K) (hg : Reachable g) (n : K) :
    (g.dependentsOf n).Nodup ∧
      ∀ m, m ∈ g.dependentsOf n ↔ m ∈ g.nodes ∧ m ≠ n ∧ Relation.TransGen g.Feeds n m := by
  have hw := hg.wellIndexed
  obtain ⟨hnodup, hstart, hreached⟩ := g.sound_dependentsOf n
  refine ⟨hnodup, fun m => ⟨fun hm => ?_, fun ⟨_, hne, hfeeds⟩ => hw.mem_dependentsOf hfeeds hne⟩⟩
  have hfeeds : Relation.TransGen g.Feeds n m :=
    Relation.TransGen.mono (fun _ _ => hw.mem_consumers.mp) _ _ (hreached m hm)
  exact ⟨hw.feeds_registered hfeeds, fun heq => hstart (heq ▸ hm), hfeeds⟩

theorem dependents_of_cycle : ∃ g g' : DependencyGraph ℕ,
    new.register 1 [8] [7, 9] = .ok g ∧ g.register 2 [7, 9] [8] = .ok g' ∧ (g'.dependentsOf 1).Nodup ∧
      2 ∈ g'.dependentsOf 1 := by
  refine ⟨_, _, rfl, rfl, ?_⟩
  have hone := @Reachable.register ℕ _ _ _ _ 1 [8] [7, 9] .new rfl
  have htwo := @Reachable.register ℕ _ _ _ _ 2 [7, 9] [8] hone rfl
  obtain ⟨hnodup, hmem⟩ := dependents_of_exact _ htwo 1
  exact ⟨hnodup, (hmem 2).mpr ⟨by decide, by decide, .single ⟨7, by decide, by decide⟩⟩⟩

end Fluent.Dag.DependencyGraph
