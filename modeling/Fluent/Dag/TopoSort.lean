import Fluent.Dag.GraphIndices

namespace Fluent.Dag.DependencyGraph

open Fluent.Library

variable {K : Type*} [LinearOrder K]

variable (g : DependencyGraph K)

def topoEdges (subset : List K) : List (K × K) :=
  subset.flatMap (fun node => ((g.deps.lookup node).getD []).flatMap (fun asset =>
    (((g.assetToProviders.lookup asset).getD []).filter
      (fun provider => provider ≠ node ∧ provider ∈ subset)).map (fun provider => (provider, node))))

def kahnOrder (hash : HashOrder K) (subset : List K) :
    Except (List K) (List K) :=
  let tables := edgeTables subset (g.topoEdges subset)
  kahnSort hash tables.2 tables.1 subset.length

def topoSortInner [Debug K] (g : DependencyGraph K) (hash : HashOrder K) (subset : List K) :
    Except GraphError (List K) :=
  match g.kahnOrder hash subset with
  | .ok order => .ok order
  | .error ordered => .error (.circularDependency
      (", ".intercalate ((subset.filter (fun n => n ∉ ordered)).map Debug.fmt)))

def topoSort [Debug K] (g : DependencyGraph K) (hash : HashOrder K) : Except GraphError (List K) :=
  g.topoSortInner hash g.nodes

def Edge (p n : K) : Prop :=
  p ≠ n ∧ ∃ a ds ps, g.depsOf n = some ds ∧ a ∈ ds ∧ g.providesOf p = some ps ∧ a ∈ ps

theorem edge_iff (p n : K) :
    g.Edge p n ↔ p ≠ n ∧ ∃ a, a ∈ (g.deps.lookup n).getD [] ∧ a ∈ (g.provides.lookup p).getD [] := by
  simp only [Edge, depsOf, providesOf]
  apply and_congr_right
  intro _
  constructor
  · rintro ⟨a, ds, ps, hd, had, hp, hap⟩
    exact ⟨a, by simpa [hd] using had, by simpa [hp] using hap⟩
  · rintro ⟨a, had, hap⟩
    cases hd : g.deps.lookup n with
    | none => simp [hd] at had
    | some ds =>
      cases hp : g.provides.lookup p with
      | none => simp [hp] at hap
      | some ps => exact ⟨a, ds, ps, rfl, by simpa [hd] using had, rfl, by simpa [hp] using hap⟩

theorem WellIndexed.edge_registered {g : DependencyGraph K} (hg : WellIndexed g) {p n : K}
    (h : g.Edge p n) : p ∈ g.nodes ∧ n ∈ g.nodes := by
  obtain ⟨-, a, had, hap⟩ := (g.edge_iff p n).mp h
  exact ⟨hg.registered_of_provides hap, hg.registered_of_deps had⟩

theorem WellIndexed.mem_topoEdges {g : DependencyGraph K} (hg : WellIndexed g) (subset : List K)
    (p n : K) : (p, n) ∈ g.topoEdges subset ↔ p ∈ subset ∧ n ∈ subset ∧ g.Edge p n := by
  rw [edge_iff]
  simp only [topoEdges, List.mem_flatMap, List.mem_map, List.mem_filter, decide_eq_true_eq,
    Prod.mk.injEq]
  constructor
  · rintro ⟨m, hm, a, ha, q, ⟨hq, hne, hqs⟩, rfl, rfl⟩
    exact ⟨hqs, hm, hne, a, ha, (hg.providers.mem_iff a q).mp hq⟩
  · rintro ⟨hp, hn, hne, a, had, hap⟩
    exact ⟨n, hn, a, had, p, ⟨(hg.providers.mem_iff a p).mpr hap, hne, hp⟩, rfl, rfl⟩

theorem WellIndexed.kahnOrder_of_closed {g : DependencyGraph K} (hg : WellIndexed g) (hash : HashOrder K)
    {subset : List K} (hclosed : ∀ p n, g.Edge p n → n ∈ subset → p ∈ subset) :
    ∃ order, Greedy g.Edge subset.toFinset [] order ∧
      g.kahnOrder hash subset = if order.length = subset.length then .ok order else .error order := by
  have hmem := hg.mem_topoEdges subset
  have hends : ∀ e ∈ g.topoEdges subset, e.1 ∈ subset ∧ e.2 ∈ subset := fun e he =>
    ⟨((hmem e.1 e.2).mp he).1, ((hmem e.1 e.2).mp he).2.1⟩
  obtain ⟨order, hgr, heq⟩ := kahnSort_edgeTables hash subset _ hends subset.length
  refine ⟨order, greedy_congr_on (fun p n hn => ?_) hgr, heq⟩
  have hn : n ∈ subset := List.mem_toFinset.mp hn
  rw [hmem]
  exact ⟨fun h => h.2.2, fun h => ⟨hclosed p n h hn, hn, h⟩⟩

theorem WellIndexed.kahnOrder_greedy {g : DependencyGraph K} (hg : WellIndexed g)
    (hash : HashOrder K) : ∃ order, Greedy g.Edge g.nodes.toFinset [] order ∧
      g.kahnOrder hash g.nodes =
        if order.length = g.nodes.length then .ok order else .error order :=
  hg.kahnOrder_of_closed hash fun _ _ h _ => (hg.edge_registered h).1

theorem topoSort_ok_iff [Debug K] (g : DependencyGraph K) (hash : HashOrder K) (order : List K) :
    g.topoSort hash = .ok order ↔ g.kahnOrder hash g.nodes = .ok order := by
  unfold topoSort topoSortInner
  cases g.kahnOrder hash g.nodes with
  | ok o => simp
  | error o => simp

theorem WellIndexed.topoSort_spec [Debug K] {g : DependencyGraph K} (hg : WellIndexed g)
    (hash : HashOrder K) : ∃ order, Greedy g.Edge g.nodes.toFinset [] order ∧
      ((∀ n ∈ g.nodes, n ∈ order) ∧ g.topoSort hash = .ok order ∨
        (¬∀ n ∈ g.nodes, n ∈ order) ∧ g.kahnOrder hash g.nodes = .error order) := by
  obtain ⟨order, hgr, heq⟩ := hg.kahnOrder_greedy hash
  refine ⟨order, hgr, ?_⟩
  have hlen := hgr.length_eq_iff
  rw [List.toFinset_card_of_nodup hg.nodes_nodup] at hlen
  simp only [List.mem_toFinset] at hlen
  rw [topoSort_ok_iff, heq, ← hlen]
  by_cases h : order.length = g.nodes.length
  · exact Or.inl ⟨h, if_pos h⟩
  · exact Or.inr ⟨h, if_neg h⟩

theorem WellIndexed.topoSort_isLeast [Debug K] {g : DependencyGraph K} (hg : WellIndexed g)
    {hash : HashOrder K} {order : List K} (h : g.topoSort hash = .ok order) :
    IsLeast {l | Topological g.Edge g.nodes.toFinset l} order := by
  obtain ⟨run, hgr, ⟨hall, hok⟩ | ⟨-, herr⟩⟩ := hg.topoSort_spec hash
  · rw [hok, Except.ok.injEq] at h
    rw [← h]
    exact hgr.isLeast (fun x hx => hall x (List.mem_toFinset.mp hx))
      (fun a b he => List.mem_toFinset.mpr (hg.edge_registered he).2)
  · rw [topoSort_ok_iff, herr] at h
    simp at h

theorem WellIndexed.topoSort_ok_iff_acyclic [Debug K] {g : DependencyGraph K} (hg : WellIndexed g)
    (hash : HashOrder K) :
    (∃ order, g.topoSort hash = .ok order) ↔ ∀ n, ¬Relation.TransGen g.Edge n n := by
  obtain ⟨run, hgr, h⟩ := hg.topoSort_spec hash
  have hcov := hgr.covers_iff (fun a b he => by
    simpa only [List.mem_toFinset] using hg.edge_registered he)
  simp only [List.mem_toFinset] at hcov
  rw [← hcov]
  rcases h with ⟨hall, hok⟩ | ⟨hnot, herr⟩
  · exact ⟨fun _ => hall, fun _ => ⟨run, hok⟩⟩
  · refine ⟨fun ⟨order, hok⟩ => ?_, fun hall => absurd hall hnot⟩
    rw [topoSort_ok_iff, herr] at hok
    simp at hok

theorem WellIndexed.left_out [Debug K] {g : DependencyGraph K} (hg : WellIndexed g)
    {hash : HashOrder K} {e : GraphError} (h : g.topoSort hash = .error e) :
    ∃ ordered, g.kahnOrder hash g.nodes = .error ordered ∧
      e = .circularDependency (", ".intercalate
        ((g.nodes.filter (fun n => n ∉ ordered)).map Debug.fmt)) ∧
      ∀ n ∈ g.nodes, n ∉ ordered ↔
        ∃ c, Relation.TransGen g.Edge c c ∧ Relation.ReflTransGen g.Edge c n := by
  obtain ⟨run, hgr, ⟨-, hok⟩ | ⟨-, herr⟩⟩ := hg.topoSort_spec hash
  · rw [hok] at h
    simp at h
  · refine ⟨run, herr, ?_, fun n hn => hgr.left_out_iff (fun a b he => by
      simpa only [List.mem_toFinset] using hg.edge_registered he) (List.mem_toFinset.mpr hn)⟩
    simp only [topoSort, topoSortInner, herr, Except.error.injEq] at h
    exact h.symm

theorem topo_sort_correct [Debug K] (g : DependencyGraph K) (hg : Reachable g)
    (hash : HashOrder K) :
    ((∃ order, g.topoSort hash = .ok order) ↔ ∀ n, ¬Relation.TransGen g.Edge n n) ∧
      (∀ order, g.topoSort hash = .ok order →
        IsLeast {l | Topological g.Edge g.nodes.toFinset l} order) ∧
      (∀ (g' : DependencyGraph K) (hash' : HashOrder K), Reachable g' →
        (∀ n, n ∈ g'.nodes ↔ n ∈ g.nodes) → (∀ p n, g'.Edge p n ↔ g.Edge p n) →
          ∀ order, g.topoSort hash = .ok order → g'.topoSort hash' = .ok order) ∧
      ∀ e, g.topoSort hash = .error e → ∃ ordered, g.kahnOrder hash g.nodes = .error ordered ∧
        e = .circularDependency (", ".intercalate
          ((g.nodes.filter (fun n => n ∉ ordered)).map Debug.fmt)) ∧
        ∀ n ∈ g.nodes, n ∉ ordered ↔
          ∃ c, Relation.TransGen g.Edge c c ∧ Relation.ReflTransGen g.Edge c n := by
  have hw := hg.wellIndexed
  refine ⟨hw.topoSort_ok_iff_acyclic hash, fun order h => hw.topoSort_isLeast h, ?_,
    fun e h => hw.left_out h⟩
  intro g' hash' hg' hnodes hedges order h
  have hw' := hg'.wellIndexed
  have hE : g'.Edge = g.Edge := by funext p n; exact propext (hedges p n)
  have hN : g'.nodes.toFinset = g.nodes.toFinset := by ext n; simp [hnodes]
  obtain ⟨order', h'⟩ := (hw'.topoSort_ok_iff_acyclic hash').mpr
    (hE ▸ (hw.topoSort_ok_iff_acyclic hash).mp ⟨order, h⟩)
  have hleast := hw'.topoSort_isLeast h'
  rw [hE, hN] at hleast
  rw [h', hleast.unique (hw.topoSort_isLeast h)]

theorem topo_sort_link_compile : ∃ g g' : DependencyGraph ℕ,
    new.register 1 [7, 7] [8] = .ok g ∧ g.register 2 [] [7] = .ok g' ∧
      g'.topoSort .ascending = .ok [2, 1] ∧
      IsLeast {l | Topological g'.Edge g'.nodes.toFinset l} [2, 1] := by
  refine ⟨_, _, rfl, rfl, by decide +kernel, ?_⟩
  have hcompile := @Reachable.register ℕ _ _ _ _ 1 [7, 7] [8] .new rfl
  have hlink := @Reachable.register ℕ _ _ _ _ 2 [] [7] hcompile rfl
  exact (topo_sort_correct _ hlink .ascending).2.1 [2, 1] (by decide +kernel)

def satisfiedBy (start : Finset K) (done : List K) : Finset K :=
  start ∪ (done.flatMap fun n => (g.provides.lookup n).getD []).toFinset

theorem isReady_satisfiedBy {n : K} (hn : n ∈ g.deps) (start : Finset K) (done : List K) :
    g.isReady n (g.satisfiedBy start done) = true ↔
      ∀ a ∈ (g.deps.lookup n).getD [], a ∈ start ∨ ∃ p ∈ done, a ∈ (g.provides.lookup p).getD [] := by
  obtain ⟨ds, hds⟩ := Finmap.mem_iff.mp hn
  unfold isReady satisfiedBy
  rw [hds]
  simp

theorem ready_in_turn_iff [Debug K] {g : DependencyGraph K} (hg : Reachable g) {hash : HashOrder K} {order : List K}
    (h : g.topoSort hash = .ok order) (start : Finset K) :
    (∀ done n later, order = done ++ n :: later → g.isReady n (g.satisfiedBy start done) = true) ↔
      ∀ n ∈ g.nodes, ∀ a ∈ (g.deps.lookup n).getD [],
        a ∈ start ∨ ∃ p, p ≠ n ∧ a ∈ (g.provides.lookup p).getD [] := by
  have hw := hg.wellIndexed
  obtain ⟨hnodup, hmem, hrespects⟩ := (hw.topoSort_isLeast h).1
  have hdeps : ∀ n ∈ order, n ∈ g.deps := fun n hn => (hw.mem_nodes n).mp (List.mem_toFinset.mp ((hmem n).mp hn))
  constructor
  · intro hready n hn a ha
    obtain ⟨done, later, rfl⟩ := List.append_of_mem ((hmem n).mpr (List.mem_toFinset.mpr hn))
    have hturn := (g.isReady_satisfiedBy (hdeps n (by simp)) start done).mp (hready done n later rfl) a ha
    refine hturn.imp_right fun ⟨p, hp, hprovides⟩ => ⟨p, fun heq => ?_, hprovides⟩
    exact Before.irrefl hnodup ⟨done, later, rfl, heq ▸ hp⟩
  · intro hall done n later horder
    have hn : n ∈ order := horder ▸ List.mem_append_right done List.mem_cons_self
    refine (g.isReady_satisfiedBy (hdeps n hn) start done).mpr fun a ha => ?_
    refine (hall n ((hw.mem_nodes n).mpr (hdeps n hn)) a ha).imp_right fun ⟨p, hne, hp⟩ => ⟨p, ?_, hp⟩
    obtain ⟨before, after, hsplit, hbefore⟩ := hrespects p n ((g.edge_iff p n).mpr ⟨hne, a, ha, hp⟩)
    rwa [split_unique (horder ▸ hnodup) (horder.symm.trans hsplit)]

theorem link_in_turn : ∃ g g' : DependencyGraph ℕ, new.register 1 [7] [8] = .ok g ∧ g.register 2 [8] [9] = .ok g' ∧
    g'.topoSort .ascending = .ok [1, 2] ∧ g'.isReady 2 (g'.satisfiedBy {7} [1]) = true := by
  have hcompile := @Reachable.register ℕ _ _ _ _ 1 [7] [8] .new rfl
  have hlink := @Reachable.register ℕ _ _ _ _ 2 [8] [9] hcompile rfl
  refine ⟨_, _, rfl, rfl, by decide +kernel, ?_⟩
  refine (@ready_in_turn_iff ℕ _ _ _ hlink .ascending [1, 2] (by decide +kernel) {7}).mpr ?_ [1] 2 [] rfl
  intro n hn a ha
  rcases List.mem_cons.mp hn with rfl | hn
  · exact .inl (Finset.mem_singleton.mpr (List.mem_singleton.mp ha))
  · obtain rfl := List.mem_singleton.mp hn
    obtain rfl := List.mem_singleton.mp ha
    exact .inr ⟨1, by decide, by decide⟩

end Fluent.Dag.DependencyGraph
