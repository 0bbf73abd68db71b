import Fluent.Dag.DependencyGraph

namespace Fluent.Dag

open Fluent.Library

variable {K : Type*} [DecidableEq K]

structure IndexAgrees (index fwd : HashMap K (List K)) : Prop where
  mem_iff : ∀ a n, n ∈ (index.lookup a).getD [] ↔ a ∈ (fwd.lookup n).getD []
  nonempty : ∀ a, index.lookup a ≠ some []

theorem IndexAgrees.empty : IndexAgrees (∅ : HashMap K (List K)) ∅ :=
  ⟨by simp, by simp⟩

theorem IndexAgrees.contains_iff {index fwd : HashMap K (List K)} (h : IndexAgrees index fwd)
    (a : K) : a ∈ index ↔ ∃ n, a ∈ (fwd.lookup n).getD [] := by
  simp only [← h.mem_iff]
  constructor
  · intro ha
    obtain ⟨ms, hms⟩ := Finmap.mem_iff.mp ha
    obtain ⟨n, hn⟩ := List.exists_mem_of_ne_nil ms (fun he => h.nonempty a (he ▸ hms))
    exact ⟨n, by simpa [hms] using hn⟩
  · rintro ⟨n, hn⟩
    cases hms : index.lookup a with
    | none => simp [hms] at hn
    | some ms => exact Finmap.mem_of_lookup_eq_some hms

theorem IndexAgrees.fresh {index fwd : HashMap K (List K)} (h : IndexAgrees index fwd) {n : K}
    (hn : n ∉ fwd) (a : K) : n ∉ (index.lookup a).getD [] := by
  rw [h.mem_iff, Finmap.lookup_eq_none.mpr hn]
  simp

theorem IndexAgrees.push {index fwd : HashMap K (List K)} (h : IndexAgrees index fwd) {n : K}
    (hn : n ∉ fwd) (assets : List K) :
    IndexAgrees (HashMap.pushEntries index assets n) (fwd.insert n assets) := by
  constructor
  · intro a m
    rw [HashMap.lookup_pushEntries, HashMap.lookup_insert_ite]
    have hfresh := h.fresh hn a
    have hm := h.mem_iff a m
    by_cases ha : a ∈ assets <;> by_cases he : m = n
    · subst he
      simp [ha, List.count_eq_zero]
    · simp [ha, he, hm]
    · subst he
      simpa [ha] using hfresh
    · simp [ha, he, hm]
  · intro a
    rw [HashMap.lookup_pushEntries]
    by_cases ha : a ∈ assets
    · simp [ha, List.count_eq_zero]
    · simpa [ha] using h.nonempty a

def scrubbed (node : K) (entry : Option (List K)) : Option (List K) :=
  entry.bind (fun members =>
    if members.filter (· ≠ node) = [] then none else some (members.filter (· ≠ node)))

theorem scrubbed_scrubbed (node : K) (entry : Option (List K)) :
    scrubbed node (scrubbed node entry) = scrubbed node entry := by
  cases entry with
  | none => rfl
  | some members =>
    by_cases he : members.filter (· ≠ node) = []
    · simp only [scrubbed, Option.bind_some, he, ↓reduceIte, Option.bind_none]
    · simp only [scrubbed, Option.bind_some, he, ↓reduceIte, List.filter_filter, Bool.and_self]

theorem mem_scrubbed (node n : K) (entry : Option (List K)) :
    n ∈ (scrubbed node entry).getD [] ↔ n ∈ entry.getD [] ∧ n ≠ node := by
  cases entry with
  | none => simp [scrubbed]
  | some members =>
    have hm : n ∈ members.filter (· ≠ node) ↔ n ∈ members ∧ n ≠ node := by simp
    by_cases he : members.filter (· ≠ node) = []
    · rw [he] at hm
      simp only [scrubbed, Option.bind_some, he, ↓reduceIte, Option.getD_none, Option.getD_some]
      exact hm
    · simp only [scrubbed, Option.bind_some, he, ↓reduceIte, Option.getD_some]
      exact hm

theorem scrubbed_ne_nil (node : K) (entry : Option (List K)) : scrubbed node entry ≠ some [] := by
  cases entry with
  | none => simp [scrubbed]
  | some members =>
    simp only [scrubbed, Option.bind_some]
    split_ifs with he
    · simp
    · simpa using he

theorem scrubbed_of_not_mem {node : K} {entry : Option (List K)} (hn : node ∉ entry.getD [])
    (he : entry ≠ some []) : scrubbed node entry = entry := by
  cases entry with
  | none => rfl
  | some members =>
    have hf : members.filter (· ≠ node) = members := by
      apply List.filter_eq_self.mpr
      intro m hm
      have : m ≠ node := fun h => hn (by simpa [h] using hm)
      simpa using this
    have hne : members ≠ [] := fun h => he (by rw [h])
    simp only [scrubbed, Option.bind_some, hf, hne, ↓reduceIte]

theorem scrubbed_push (node : K) (entry : Option (List K)) (k : ℕ) :
    scrubbed node (some (entry.getD [] ++ List.replicate k node)) = scrubbed node entry := by
  have hrep : (List.replicate k node).filter (· ≠ node) = [] := by simp
  have happ : ∀ l : List K, (l ++ List.replicate k node).filter (· ≠ node) = l.filter (· ≠ node) := by
    intro l
    rw [List.filter_append, hrep, List.append_nil]
  cases entry with
  | none => simp only [scrubbed, Option.bind_some, happ, Option.getD_none, List.filter_nil, ↓reduceIte,
      Option.bind_none]
  | some members => simp only [scrubbed, Option.bind_some, happ, Option.getD_some]

theorem lookup_scrubIndex (index : HashMap K (List K)) (asset node x : K) :
    (DependencyGraph.scrubIndex index asset node).lookup x =
      if x = asset then scrubbed node (index.lookup x) else index.lookup x := by
  unfold DependencyGraph.scrubIndex
  cases hl : index.lookup asset with
  | none =>
    split_ifs with hx
    · rw [hx, hl]; rfl
    · rfl
  | some members =>
    by_cases he : members.filter (· ≠ node) = []
    · simp only [he, ↓reduceIte, HashMap.lookup_erase_ite]
      split_ifs with hx
      · rw [hx, hl]
        simp only [scrubbed, Option.bind_some, he, ↓reduceIte]
      · rfl
    · simp only [he, ↓reduceIte, HashMap.lookup_insert_ite]
      split_ifs with hx
      · rw [hx, hl]
        simp only [scrubbed, Option.bind_some, he, ↓reduceIte]
      · rfl

theorem lookup_foldl_scrubIndex (assets : List K) (index : HashMap K (List K)) (node x : K) :
    (assets.foldl (fun ix a => DependencyGraph.scrubIndex ix a node) index).lookup x =
      if x ∈ assets then scrubbed node (index.lookup x) else index.lookup x := by
  induction assets generalizing index with
  | nil => simp
  | cons a assets ih =>
    rw [List.foldl_cons, ih, lookup_scrubIndex]
    by_cases hx : x = a
    · subst hx
      simp [scrubbed_scrubbed]
    · simp [hx]

theorem IndexAgrees.scrub {index fwd : HashMap K (List K)} (h : IndexAgrees index fwd) (n : K) :
    IndexAgrees (((fwd.lookup n).getD []).foldl
      (fun ix a => DependencyGraph.scrubIndex ix a n) index) (fwd.erase n) := by
  constructor
  · intro a m
    rw [lookup_foldl_scrubIndex, HashMap.lookup_erase_ite]
    have hm := h.mem_iff a m
    have hn := h.mem_iff a n
    by_cases ha : a ∈ (fwd.lookup n).getD []
    · rw [if_pos ha, mem_scrubbed, hm]
      by_cases he : m = n <;> simp [he]
    · rw [if_neg ha, hm]
      by_cases he : m = n
      · subst he; simp [ha]
      · simp [he]
  · intro a
    rw [lookup_foldl_scrubIndex]
    split_ifs
    · exact scrubbed_ne_nil n _
    · exact h.nonempty a

theorem scrub_push {index fwd : HashMap K (List K)} (h : IndexAgrees index fwd) {n : K}
    (hn : n ∉ fwd) (assets : List K) :
    assets.foldl (fun ix a => DependencyGraph.scrubIndex ix a n)
      (HashMap.pushEntries index assets n) = index := by
  apply Finmap.ext_lookup
  intro x
  rw [lookup_foldl_scrubIndex, HashMap.lookup_pushEntries]
  by_cases hx : x ∈ assets
  · rw [if_pos hx, if_pos hx, scrubbed_push]
    exact scrubbed_of_not_mem (h.fresh hn x) (h.nonempty x)
  · rw [if_neg hx, if_neg hx]

namespace DependencyGraph

structure WellIndexed (g : DependencyGraph K) : Prop where
  dependents : IndexAgrees g.providesToDependents g.deps
  providers : IndexAgrees g.assetToProviders g.provides
  nodes_nodup : g.nodes.Nodup
  mem_nodes : ∀ n, n ∈ g.nodes ↔ n ∈ g.deps
  mem_provides : ∀ n, n ∈ g.provides ↔ n ∈ g.deps

theorem wellIndexed_new : WellIndexed (new : DependencyGraph K) :=
  ⟨.empty, .empty, List.nodup_nil, by simp [new, Finmap.notMem_empty],
    by simp [new, Finmap.notMem_empty]⟩

theorem register_ok [Debug K] {g g' : DependencyGraph K} {node : K} {deps provides : List K}
    (h : g.register node deps provides = .ok g') :
    node ∉ g.deps ∧ g' = {
      nodes := g.nodes ++ [node]
      deps := g.deps.insert node deps
      provides := g.provides.insert node provides
      providesToDependents := HashMap.pushEntries g.providesToDependents deps node
      assetToProviders := HashMap.pushEntries g.assetToProviders provides node } := by
  unfold register at h
  split_ifs at h with hn
  exact ⟨hn, (Except.ok.inj h).symm⟩

theorem WellIndexed.register [Debug K] {g g' : DependencyGraph K} (hg : WellIndexed g) {node : K}
    {deps provides : List K} (h : g.register node deps provides = .ok g') : WellIndexed g' := by
  obtain ⟨hn, rfl⟩ := register_ok h
  have hp : node ∉ g.provides := fun hm => hn ((hg.mem_provides node).mp hm)
  have hnodes : node ∉ g.nodes := fun hm => hn ((hg.mem_nodes node).mp hm)
  refine ⟨hg.dependents.push hn deps, hg.providers.push hp provides, ?_, fun n => ?_, fun n => ?_⟩
  · exact List.concat_eq_append ▸ hg.nodes_nodup.concat hnodes
  · simp [Finmap.mem_insert, hg.mem_nodes, or_comm]
  · simp [Finmap.mem_insert, hg.mem_provides]

theorem WellIndexed.unregister {g : DependencyGraph K} (hg : WellIndexed g) (node : K) :
    WellIndexed (g.unregister node).1 := by
  unfold DependencyGraph.unregister
  cases hl : g.deps.lookup node with
  | none => exact hg
  | some deps =>
    have hd := hg.dependents.scrub node
    rw [hl] at hd
    refine ⟨hd, hg.providers.scrub node, hg.nodes_nodup.filter _, fun n => ?_, fun n => ?_⟩
    · simp [Finmap.mem_erase, hg.mem_nodes, and_comm]
    · simp [Finmap.mem_erase, hg.mem_provides]

theorem Reachable.wellIndexed [Debug K] {g : DependencyGraph K} (hg : Reachable g) :
    WellIndexed g := by
  induction hg with
  | new => exact wellIndexed_new
  | register _ h ih => exact ih.register h
  | unregister node _ ih => exact ih.unregister node

theorem WellIndexed.unregister_register [Debug K] {g g' : DependencyGraph K} (hg : WellIndexed g)
    {node : K} {deps provides : List K} (h : g.register node deps provides = .ok g') :
    g'.unregister node = (g, true) := by
  obtain ⟨hn, rfl⟩ := register_ok h
  have hp : node ∉ g.provides := fun hm => hn ((hg.mem_provides node).mp hm)
  have hnodes : node ∉ g.nodes := fun hm => hn ((hg.mem_nodes node).mp hm)
  have herase : ∀ (m : HashMap K (List K)) (v : List K), node ∉ m → (m.insert node v).erase node = m := by
    intro m v hm
    apply Finmap.ext_lookup
    intro x
    rw [HashMap.lookup_erase_ite, HashMap.lookup_insert_ite]
    split_ifs with hx
    · rw [hx, Finmap.lookup_eq_none.mpr hm]
    · rfl
  have hfilter : (g.nodes ++ [node]).filter (· ≠ node) = g.nodes := by
    rw [List.filter_append]
    simp only [ne_eq, decide_not, decide_true, Bool.not_true, Bool.false_eq_true, not_false_eq_true,
      List.filter_cons_of_neg, List.filter_nil, List.append_nil, List.filter_eq_self]
    intro x hx
    simpa using fun he : x = node => hnodes (he ▸ hx)
  simp only [DependencyGraph.unregister, Finmap.lookup_insert, Option.getD_some,
    scrub_push hg.dependents hn, scrub_push hg.providers hp, herase _ _ hn, herase _ _ hp, hfilter]

theorem WellIndexed.registered_of_deps {g : DependencyGraph K} (hg : WellIndexed g) {n a : K}
    (ha : a ∈ (g.deps.lookup n).getD []) : n ∈ g.nodes := by
  rw [hg.mem_nodes]
  cases hl : g.deps.lookup n with
  | none => simp [hl] at ha
  | some ds => exact Finmap.mem_of_lookup_eq_some hl

theorem WellIndexed.registered_of_provides {g : DependencyGraph K} (hg : WellIndexed g) {n a : K}
    (ha : a ∈ (g.provides.lookup n).getD []) : n ∈ g.nodes := by
  rw [hg.mem_nodes, ← hg.mem_provides]
  cases hl : g.provides.lookup n with
  | none => simp [hl] at ha
  | some ds => exact Finmap.mem_of_lookup_eq_some hl

theorem foldl_report (index : HashMap K (List K)) (deps out : List K) (hd : out.Nodup) :
    (deps.foldl (report index) out).Nodup ∧
      ∀ a, a ∈ deps.foldl (report index) out ↔ a ∈ out ∨ a ∈ deps ∧ a ∉ index := by
  induction deps generalizing out with
  | nil => simpa using hd
  | cons dep deps ih =>
    rw [List.foldl_cons]
    by_cases hnew : dep ∉ index ∧ dep ∉ out
    · have hstep : report index out dep = out ++ [dep] := if_pos hnew
      rw [hstep]
      obtain ⟨hn, hm⟩ := ih (out ++ [dep]) (List.concat_eq_append ▸ hd.concat hnew.2)
      refine ⟨hn, fun a => (hm a).trans ?_⟩
      by_cases ha : a = dep
      · subst ha; simp [hnew.1]
      · simp [ha]
    · have hstep : report index out dep = out := if_neg hnew
      rw [hstep]
      obtain ⟨hn, hm⟩ := ih out hd
      refine ⟨hn, fun a => (hm a).trans ?_⟩
      by_cases ha : a = dep
      · subst ha
        by_cases hi : a ∈ index
        · simp [hi]
        · have : a ∈ out := by simpa [hi] using hnew
          simp [this]
      · simp [ha]

theorem foldl_report_nodes (g : DependencyGraph K) (ns out : List K) (hd : out.Nodup) :
    (ns.foldl (fun out n => ((g.deps.lookup n).getD []).foldl (report g.assetToProviders) out) out).Nodup ∧
      ∀ a, a ∈ ns.foldl
          (fun out n => ((g.deps.lookup n).getD []).foldl (report g.assetToProviders) out) out ↔
        a ∈ out ∨ (∃ n ∈ ns, a ∈ (g.deps.lookup n).getD []) ∧ a ∉ g.assetToProviders := by
  induction ns generalizing out with
  | nil => simpa using hd
  | cons n ns ih =>
    rw [List.foldl_cons]
    obtain ⟨hn, hm⟩ := foldl_report g.assetToProviders ((g.deps.lookup n).getD []) out hd
    obtain ⟨hn', hm'⟩ := ih _ hn
    refine ⟨hn', fun a => ?_⟩
    rw [hm', hm]
    simp only [List.mem_cons, exists_eq_or_imp]
    tauto

theorem WellIndexed.mem_unresolvedDeps {g : DependencyGraph K} (hg : WellIndexed g) (a : K) :
    a ∈ g.unresolvedDeps ↔ (∃ n ∈ g.nodes, a ∈ (g.deps.lookup n).getD []) ∧
      ∀ n ∈ g.nodes, a ∉ (g.provides.lookup n).getD [] := by
  have h := (foldl_report_nodes g g.nodes [] List.nodup_nil).2 a
  change a ∈ g.unresolvedDeps ↔ _ at h
  rw [h, hg.providers.contains_iff]
  simp only [List.not_mem_nil, false_or, not_exists]
  exact and_congr_right fun _ => ⟨fun hp n _ => hp n,
    fun hp n ha => hp n (hg.registered_of_provides ha) ha⟩

theorem unresolvedDeps_nodup (g : DependencyGraph K) : g.unresolvedDeps.Nodup :=
  (foldl_report_nodes g g.nodes [] List.nodup_nil).1

theorem indices_agree [Debug K] (g : DependencyGraph K) (hg : Reachable g) :
    (∀ a n, (∃ ms, g.providesToDependents.lookup a = some ms ∧ n ∈ ms) ↔
        ∃ ds, g.depsOf n = some ds ∧ a ∈ ds) ∧
      (∀ a n, (∃ ms, g.assetToProviders.lookup a = some ms ∧ n ∈ ms) ↔
        ∃ ps, g.providesOf n = some ps ∧ a ∈ ps) ∧
      (∀ a, g.providesToDependents.lookup a ≠ some [] ∧ g.assetToProviders.lookup a ≠ some []) ∧
      (g.nodes.Nodup ∧ ∀ n, n ∈ g.nodes ↔ ∃ ds, g.depsOf n = some ds) ∧
      (g.unresolvedDeps.Nodup ∧ ∀ a, a ∈ g.unresolvedDeps ↔
        (∃ n ∈ g.nodes, ∃ ds, g.depsOf n = some ds ∧ a ∈ ds) ∧
          ¬∃ n ∈ g.nodes, ∃ ps, g.providesOf n = some ps ∧ a ∈ ps) ∧
      ∀ node deps provides g', g.register node deps provides = .ok g' →
        g'.unregister node = (g, true) := by
  have hw := hg.wellIndexed
  have hget : ∀ (m : HashMap K (List K)) (k x : K),
      (∃ xs, m.lookup k = some xs ∧ x ∈ xs) ↔ x ∈ (m.lookup k).getD [] := by
    intro m k x
    cases m.lookup k <;> simp
  refine ⟨fun a n => ?_, fun a n => ?_, fun a => ⟨hw.dependents.nonempty a, hw.providers.nonempty a⟩,
    ⟨hw.nodes_nodup, fun n => ?_⟩, ⟨unresolvedDeps_nodup g, fun a => ?_⟩,
    fun node deps provides g' h => hw.unregister_register h⟩
  · simp only [depsOf, hget]
    exact hw.dependents.mem_iff a n
  · simp only [providesOf, hget]
    exact hw.providers.mem_iff a n
  · rw [hw.mem_nodes]
    exact Finmap.mem_iff
  · simp only [depsOf, providesOf, hget, hw.mem_unresolvedDeps]
    push Not
    rfl

theorem indices_agree_link : ∃ g g' : DependencyGraph ℕ,
    new.register 1 [] [7] = .ok g ∧ g.register 2 [7, 7] [8] = .ok g' ∧ g'.unregister 2 = (g, true) :=
  ⟨_, _, rfl, rfl, (indices_agree _ (.register .new rfl)).2.2.2.2.2 2 [7, 7] [8] _ rfl⟩

end DependencyGraph

end Fluent.Dag
