import Fluent.Dag.Dependents
import Fluent.Dag.TopoSort
import Fluent.Library.Worklist

namespace Fluent.Dag.DependencyGraph

open Fluent.Library

section Closure

variable {K : Type*} [DecidableEq K]

def suppliers (g : DependencyGraph K) (node : K) : List K :=
  ((g.deps.lookup node).getD []).flatMap fun asset => (g.assetToProviders.lookup asset).getD []

def stackable (g : DependencyGraph K) (roots : List K) : Finset K :=
  roots.toFinset ∪ g.assetToProviders.keys.biUnion fun a => ((g.assetToProviders.lookup a).getD []).toFinset

def visits (g : DependencyGraph K) (roots : List K) : Expansion K Unit where
  expand node := if node ∈ g.stackable roots then .ok (g.suppliers node) else .error ()
  nodes := g.stackable roots
  known node _ h := by
    by_contra hnot
    rw [if_neg hnot] at h
    cases h

def closure (g : DependencyGraph K) (roots : List K) : Finset K :=
  ((g.visits roots).explore roots.reverse ∅).toOption.getD ∅

def Needed (g : DependencyGraph K) (roots : List K) (n : K) : Prop :=
  ∃ root ∈ roots, Relation.ReflTransGen g.Feeds n root

variable {g : DependencyGraph K} {roots : List K}

theorem suppliers_stackable {node p : K} (h : p ∈ g.suppliers node) : p ∈ g.stackable roots := by
  obtain ⟨a, -, hp⟩ := List.mem_flatMap.mp h
  refine Finset.mem_union_right _ (Finset.mem_biUnion.mpr ⟨a, ?_, List.mem_toFinset.mpr hp⟩)
  cases hl : g.assetToProviders.lookup a with
  | none => simp [hl] at hp
  | some ms => exact Finmap.mem_keys.mpr (Finmap.mem_of_lookup_eq_some hl)

theorem visits_ok {node : K} {ns : List K} (h : (g.visits roots).expand node = .ok ns) : ns = g.suppliers node := by
  unfold visits at h
  dsimp only at h
  split_ifs at h
  exact (Except.ok.inj h).symm

theorem reach_stackable {n : K} (h : (g.visits roots).Reach roots n) : n ∈ g.stackable roots := by
  apply h.mem_of_closed (P := (· ∈ g.stackable roots))
  · exact fun n hn => Finset.mem_union_left _ (List.mem_toFinset.mpr hn)
  · intro m ns _ hm n hn
    rw [visits_ok hm] at hn
    exact suppliers_stackable hn

theorem mem_closure_iff_reach {n : K} : n ∈ g.closure roots ↔ (g.visits roots).Reach roots n := by
  unfold closure
  cases hrun : (g.visits roots).explore roots.reverse ∅ with
  | ok result => exact (Expansion.explore_ok (fun _ => List.mem_reverse) hrun n).1
  | error e =>
    obtain ⟨m, hm, herror⟩ := Expansion.explore_error (fun _ => List.mem_reverse) hrun
    rw [show (g.visits roots).expand m = .ok (g.suppliers m) from if_pos (reach_stackable hm)] at herror
    cases herror

theorem WellIndexed.mem_suppliers (hg : WellIndexed g) {n p : K} : p ∈ g.suppliers n ↔ g.Feeds p n := by
  simp only [suppliers, Feeds, List.mem_flatMap, hg.providers.mem_iff]
  exact exists_congr fun a => and_comm

theorem WellIndexed.mem_closure (hg : WellIndexed g) {n : K} : n ∈ g.closure roots ↔ g.Needed roots n := by
  rw [mem_closure_iff_reach]
  constructor
  · intro h
    induction h with
    | seed hn => exact ⟨_, hn, .refl⟩
    | step _ hm hn ih =>
      obtain ⟨root, hroot, hpath⟩ := ih
      rw [visits_ok hm] at hn
      exact ⟨root, hroot, .head (hg.mem_suppliers.mp hn) hpath⟩
  · rintro ⟨root, hroot, hpath⟩
    induction hpath using Relation.ReflTransGen.head_induction_on with
    | refl => exact .seed hroot
    | head hfeeds _ ih => exact .step ih (if_pos (reach_stackable ih)) (hg.mem_suppliers.mpr hfeeds)

end Closure

variable {K : Type*} [LinearOrder K]

def topoSortFrom [Debug K] (g : DependencyGraph K) (hash : HashOrder K) (roots : List K) :
    Except GraphError (List K) :=
  if roots = [] then .ok [] else g.topoSortInner hash (g.nodes.filter (· ∈ g.closure roots))

variable {g : DependencyGraph K} {roots : List K}

theorem Edge.feeds {p n : K} (h : g.Edge p n) : g.Feeds p n := by
  obtain ⟨-, a, had, hap⟩ := (g.edge_iff p n).mp h
  exact ⟨a, hap, had⟩

theorem Needed.source {p n : K} (h : g.Needed roots n) (hp : g.Edge p n) : g.Needed roots p := by
  obtain ⟨root, hroot, hpath⟩ := h
  exact ⟨root, hroot, .head hp.feeds hpath⟩

theorem WellIndexed.topoSortFrom_spec [Debug K] (hg : WellIndexed g) (hash : HashOrder K) {run : List K}
    (hrun : Greedy g.Edge g.nodes.toFinset [] run)
    (hall : ∀ n ∈ g.nodes, g.Needed roots n → n ∈ run) :
    g.topoSortFrom hash roots = .ok (run.filter (· ∈ g.closure roots)) := by
  have hclosed : ∀ p n, g.Edge p n → n ∈ g.nodes.filter (· ∈ g.closure roots) →
      p ∈ g.nodes.filter (· ∈ g.closure roots) := by
    simp only [List.mem_filter, decide_eq_true_eq, hg.mem_closure]
    exact fun p n he hn => ⟨(hg.edge_registered he).1, hn.2.source he⟩
  obtain ⟨order, hgr, hkahn⟩ := hg.kahnOrder_of_closed hash hclosed
  have hsub : (g.nodes.filter (· ∈ g.closure roots)).toFinset ⊆ g.nodes.toFinset := by
    intro n hn
    exact List.mem_toFinset.mpr (List.mem_filter.mp (List.mem_toFinset.mp hn)).1
  have hrestrict := hrun.restrict hsub fun a b he hb =>
    List.mem_toFinset.mpr (hclosed a b he (List.mem_toFinset.mp hb))
  have hsame : run.filter (· ∈ (g.nodes.filter (· ∈ g.closure roots)).toFinset) =
      run.filter (· ∈ g.closure roots) := by
    apply List.filter_congr
    intro n hn
    have hn : n ∈ g.nodes := List.mem_toFinset.mp (hrun.subset hn)
    simp [hn]
  rw [hsame] at hrestrict
  obtain rfl := greedy_unique hgr hrestrict
  have hlength := hgr.length_eq_iff.mpr fun n hn => by
    obtain ⟨hn, hc⟩ := List.mem_filter.mp (List.mem_toFinset.mp hn)
    exact List.mem_filter.mpr ⟨hall n hn (hg.mem_closure.mp (of_decide_eq_true hc)), hc⟩
  rw [List.toFinset_card_of_nodup (hg.nodes_nodup.filter _)] at hlength
  unfold topoSortFrom
  split_ifs with hroots
  · have hnone : g.closure roots = ∅ := by
      ext n
      simp [hg.mem_closure, Needed, hroots]
    simp [hnone]
  · rw [topoSortInner, hkahn, if_pos hlength]

open Classical in
theorem topo_sort_from_restricts [Debug K] (g : DependencyGraph K) (hg : Reachable g) (hash hash' : HashOrder K)
    (roots : List K) :
    (∀ order, g.topoSort hash = .ok order →
        g.topoSortFrom hash' roots = .ok (order.filter fun n => g.Needed roots n)) ∧
      ((∀ c, g.Needed roots c → ¬Relation.TransGen g.Edge c c) →
        ∃ order, g.topoSortFrom hash' roots = .ok order) := by
  have hw := hg.wellIndexed
  obtain ⟨run, hgr, hcases⟩ := hw.topoSort_spec hash
  constructor
  · intro order hok
    rcases hcases with ⟨hall, hrun⟩ | ⟨-, herr⟩
    · obtain rfl := Except.ok.inj (hrun.symm.trans hok)
      rw [hw.topoSortFrom_spec hash' hgr fun n hn _ => hall n hn]
      simp only [hw.mem_closure]
    · rw [topoSort_ok_iff, herr] at hok
      cases hok
  · intro hcycles
    refine ⟨_, hw.topoSortFrom_spec hash' hgr fun n hn hneeded => ?_⟩
    by_contra hout
    have hends : ∀ a b, g.Edge a b → a ∈ g.nodes.toFinset ∧ b ∈ g.nodes.toFinset := fun a b he => by
      simpa only [List.mem_toFinset] using hw.edge_registered he
    obtain ⟨c, hcc, hcn⟩ := (hgr.left_out_iff hends (List.mem_toFinset.mpr hn)).mp hout
    refine hcycles c ?_ hcc
    clear hcc
    induction hcn using Relation.ReflTransGen.head_induction_on with
    | refl => exact hneeded
    | head he _ ih => exact ih.source he

theorem topo_sort_from_link : ∃ g g' : DependencyGraph ℕ,
    new.register 1 [7] [8] = .ok g ∧ g.register 2 [] [7] = .ok g' ∧ g'.topoSort .ascending = .ok [2, 1] ∧
      ∃ order, g'.topoSortFrom .ascending [2] = .ok order := by
  refine ⟨_, _, rfl, rfl, by decide +kernel, ?_⟩
  have hone := @Reachable.register ℕ _ _ _ _ 1 [7] [8] .new rfl
  have htwo := @Reachable.register ℕ _ _ _ _ 2 [] [7] hone rfl
  exact ⟨_, (topo_sort_from_restricts _ htwo .ascending .ascending [2]).1 [2, 1] (by decide +kernel)⟩

theorem dependents_come_later [Debug K] (hg : Reachable g) {hash : HashOrder K} {order : List K}
    (h : g.topoSort hash = .ok order) {n m : K} (hm : m ∈ g.dependentsOf n) : Before order n m := by
  have hw := hg.wellIndexed
  have htop := (hw.topoSort_isLeast h).1
  obtain ⟨-, hstart, hreached⟩ := g.sound_dependentsOf n
  have hstep : ∀ a b, b ∈ g.consumers a → a = b ∨ Before order a b := by
    intro a b hb
    refine or_iff_not_imp_left.mpr fun hne => htop.respects a b ((g.edge_iff a b).mpr ⟨hne, ?_⟩)
    obtain ⟨asset, hprovides, hdeps⟩ := hw.mem_consumers.mp hb
    exact ⟨asset, hdeps, hprovides⟩
  have hlater : ∀ {b}, Relation.TransGen (fun n d => d ∈ g.consumers n) n b → n = b ∨ Before order n b := by
    intro b hb
    induction hb with
    | single hb => exact hstep _ _ hb
    | tail _ hb ih =>
      rcases ih, hstep _ _ hb with ⟨rfl | hab, rfl | hbc⟩
      · exact .inl rfl
      · exact .inr hbc
      · exact .inr hab
      · exact .inr (hab.trans htop.nodup hbc)
  exact (hlater (hreached m hm)).resolve_left fun heq => hstart (heq ▸ hm)

theorem link_before_compile : ∃ g g' : DependencyGraph ℕ,
    new.register 1 [7] [8] = .ok g ∧ g.register 2 [] [7] = .ok g' ∧ 1 ∈ g'.dependentsOf 2 ∧ Before [2, 1] 2 1 := by
  have hone := @Reachable.register ℕ _ _ _ _ 1 [7] [8] .new rfl
  have htwo := @Reachable.register ℕ _ _ _ _ 2 [] [7] hone rfl
  have hdep := htwo.wellIndexed.mem_dependentsOf (n := 2) (d := 1) (.single ⟨7, by decide, by decide⟩) (by decide)
  exact ⟨_, _, rfl, rfl, hdep, @dependents_come_later ℕ _ _ _ htwo .ascending _ (by decide +kernel) 2 1 hdep⟩

end Fluent.Dag.DependencyGraph
