import Fluent.Dag.Resolver

namespace Fluent.Dag.DependencyResolver

open Fluent.Library

variable (r : DependencyResolver)

def PlanEdge (needed : Finset ℕ) (provider bit : ℕ) : Prop :=
  provider ∈ needed ∧ bit ∈ needed ∧ provider ≠ bit ∧ ∃ target, r.registry.getByBitIndex bit = some target ∧
    ∃ cap ∈ target.depends.iterOnes, ∃ p ∈ r.registry.getProviders cap, p.bitIdx = provider

variable {r}

theorem incoming_ok {needed : Finset ℕ} {bit : ℕ} {edges : List (ℕ × ℕ)}
    (h : r.incoming needed bit = .ok edges) (hbit : bit ∈ needed) (e : ℕ × ℕ) :
    e ∈ edges ↔ e.2 = bit ∧ r.PlanEdge needed e.1 bit := by
  unfold incoming at h
  cases hb : r.registry.getByBitIndex bit with
  | none => simp [hb] at h
  | some target =>
    rw [hb] at h
    rw [← Except.ok.inj h]
    simp only [PlanEdge, List.mem_map, List.mem_flatMap, List.mem_filter, decide_eq_true_eq, hb,
      Option.some.injEq]
    constructor
    · rintro ⟨p, ⟨cap, hcap, ⟨q, hq, rfl⟩, hmem, hne⟩, rfl⟩
      exact ⟨rfl, hmem, hbit, hne, target, rfl, cap, hcap, q, hq, rfl⟩
    · rintro ⟨he, hmem, -, hne, _, rfl, cap, hcap, q, hq, hqe⟩
      exact ⟨e.1, ⟨cap, hcap, ⟨q, hq, hqe⟩, hmem, hne⟩, by rw [← he]⟩

theorem incoming_of_registered {needed : Finset ℕ} {bit : ℕ}
    (h : ∃ target, r.registry.getByBitIndex bit = some target) :
    ∃ edges, r.incoming needed bit = .ok edges := by
  obtain ⟨target, ht⟩ := h
  exact ⟨_, by unfold incoming; rw [ht]⟩

theorem registered_of_incoming {needed : Finset ℕ} {bit : ℕ}
    (h : ∃ edges, r.incoming needed bit = .ok edges) :
    ∃ target, r.registry.getByBitIndex bit = some target := by
  obtain ⟨edges, he⟩ := h
  unfold incoming at he
  cases hb : r.registry.getByBitIndex bit with
  | none => simp [hb] at he
  | some target => exact ⟨target, rfl⟩

theorem collect_incoming {hash : HashOrders} {needed : Finset ℕ} {edges : List (ℕ × ℕ)}
    (h : collect (r.incoming needed) (hash.needed.iter needed) = .ok edges) (e : ℕ × ℕ) :
    e ∈ edges ↔ r.PlanEdge needed e.1 e.2 := by
  obtain ⟨hall, hmem⟩ := collect_ok h
  rw [hmem]
  constructor
  · rintro ⟨bit, hbit, es, hes, he⟩
    obtain ⟨rfl, hedge⟩ := (incoming_ok hes ((hash.needed.mem_iter _ _).mp hbit) e).mp he
    exact hedge
  · intro hedge
    have hbit := (hash.needed.mem_iter needed e.2).mpr hedge.2.1
    obtain ⟨es, hes⟩ := hall e.2 hbit
    exact ⟨e.2, hbit, es, hes, (incoming_ok hes hedge.2.1 e).mpr ⟨rfl, hedge⟩⟩

theorem planFromSet_spec (hash : HashOrders) {needed : Finset ℕ}
    (h : ∀ bit ∈ needed, ∃ target, r.registry.getByBitIndex bit = some target) :
    ∃ order, Greedy (r.PlanEdge needed) needed [] order ∧ r.planFromSet hash needed =
      if order.length = needed.card then .ok ⟨order, order.map r.nameOf⟩ else .error .circularDependency := by
  have hnodes : (hash.needed.iter needed).toFinset = needed := by
    ext bit
    rw [List.mem_toFinset, hash.needed.mem_iter]
  obtain ⟨edges, hc⟩ : ∃ edges, collect (r.incoming needed) (hash.needed.iter needed) = .ok edges := by
    apply exists_collect_ok_iff.mpr
    intro bit hbit
    exact incoming_of_registered (h bit ((hash.needed.mem_iter _ _).mp hbit))
  have hedges := collect_incoming hc
  have hends : ∀ e ∈ edges, e.1 ∈ hash.needed.iter needed ∧ e.2 ∈ hash.needed.iter needed := by
    intro e he
    have hedge := (hedges e).mp he
    exact ⟨(hash.needed.mem_iter _ _).mpr hedge.1, (hash.needed.mem_iter _ _).mpr hedge.2.1⟩
  obtain ⟨order, hg, heq⟩ := kahnSort_edgeTables hash.inDegree _ edges hends needed.card
  rw [hnodes] at hg
  refine ⟨order, greedy_congr (fun p b => hedges (p, b)) hg, ?_⟩
  simp only [planFromSet, hc, bind, Except.bind, heq]
  split_ifs <;> rfl

theorem planFromSet_registered {hash : HashOrders} {needed : Finset ℕ} {plan : ExecutionPlan}
    (h : r.planFromSet hash needed = .ok plan) :
    ∀ bit ∈ needed, ∃ target, r.registry.getByBitIndex bit = some target := by
  obtain ⟨edges, hc, -⟩ := bind_ok h
  intro bit hbit
  exact registered_of_incoming ((collect_ok hc).1 bit ((hash.needed.mem_iter _ _).mpr hbit))

theorem planFromSet_ok {hash : HashOrders} {needed : Finset ℕ} {plan : ExecutionPlan}
    (h : r.planFromSet hash needed = .ok plan) :
    Greedy (r.PlanEdge needed) needed [] plan.order ∧ (∀ bit, bit ∈ plan.order ↔ bit ∈ needed) ∧
      plan.order.Nodup ∧ plan.targetNames = plan.order.map r.nameOf := by
  obtain ⟨order, hg, heq⟩ := planFromSet_spec hash (planFromSet_registered h)
  rw [heq] at h
  split_ifs at h with hlen
  rw [← Except.ok.inj h]
  exact ⟨hg, fun bit => ⟨hg.subset, hg.length_eq_iff.mp hlen bit⟩, by simpa using hg.nodup List.nodup_nil,
    rfl⟩

theorem planFromSet_eq (hash hash' : HashOrders) {needed : Finset ℕ}
    (h : ∀ bit ∈ needed, ∃ target, r.registry.getByBitIndex bit = some target) :
    r.planFromSet hash needed = r.planFromSet hash' needed := by
  obtain ⟨order, hg, heq⟩ := planFromSet_spec hash h
  obtain ⟨order', hg', heq'⟩ := planFromSet_spec hash' h
  rw [heq, heq', greedy_unique hg hg']

theorem planFromSet_cycle (hash : HashOrders) {needed : Finset ℕ}
    (h : ∀ bit ∈ needed, ∃ target, r.registry.getByBitIndex bit = some target) :
    (∃ c, Relation.TransGen (r.PlanEdge needed) c c) ∧
        r.planFromSet hash needed = .error .circularDependency ∨
      (∀ c, ¬Relation.TransGen (r.PlanEdge needed) c c) ∧ ∃ plan, r.planFromSet hash needed = .ok plan := by
  obtain ⟨order, hg, heq⟩ := planFromSet_spec hash h
  have hcov := hg.length_eq_iff.trans (hg.covers_iff fun a b he => ⟨he.1, he.2.1⟩)
  by_cases hlen : order.length = needed.card
  · exact Or.inr ⟨hcov.mp hlen, _, heq.trans (if_pos hlen)⟩
  · refine Or.inl ⟨?_, heq.trans (if_neg hlen)⟩
    by_contra hno
    exact hlen (hcov.mpr fun c hc => hno ⟨c, hc⟩)

theorem planFromSet_hash (hash hash' : HashOrders) (needed : Finset ℕ) :
    (r.planFromSet hash needed).toOption = (r.planFromSet hash' needed).toOption := by
  by_cases h : ∀ bit ∈ needed, ∃ target, r.registry.getByBitIndex bit = some target
  · rw [planFromSet_eq hash hash' h]
  · have herr : ∀ hash, (r.planFromSet hash needed).toOption = none := by
      intro hash
      cases hp : r.planFromSet hash needed with
      | error e => rfl
      | ok plan => exact absurd (planFromSet_registered hp) h
    rw [herr, herr]

theorem planFromSet_empty (hash : HashOrders) : r.planFromSet hash ∅ = .ok ⟨[], []⟩ := by
  obtain ⟨order, hg, heq⟩ := planFromSet_spec (r := r) hash (by simp : ∀ bit ∈ (∅ : Finset ℕ), _)
  obtain rfl : order = [] := List.eq_nil_iff_forall_not_mem.mpr fun bit hb => by simpa using hg.subset hb
  simpa using heq

variable (r)

def selectNarrowOne (caps : CapabilityRegistry) (hash : HashOrders) (seeds : List ℕ) (names : List String) :
    Except ResolverError (Finset ℕ) := do
  let closureSet ← ClosureCtx.transitiveClosure ⟨r.registry, some caps, r.strict⟩ seeds none none
  if !r.hasAbstractSeed names && !(hash.closureSet.iter closureSet).any r.multiProvider then
    ClosureCtx.transitiveClosure ⟨r.registry, none, r.strict⟩ seeds none none
  else r.narrowSelection caps hash seeds

def selected (hash : HashOrders) (names : List String) : Except ResolverError (Finset ℕ) :=
  if names = [] then .ok ∅
  else do
    let seeds ← r.seedBits names
    match r.selection with
    | .all => ClosureCtx.transitiveClosure ⟨r.registry, none, r.strict⟩ seeds none none
    | .narrowOne =>
      match r.caps with
      | none => .error (.missingDependency "NarrowOne requires a CapabilityRegistry")
      | some caps => r.selectNarrowOne caps hash seeds names

theorem resolveNarrowOne_eq (caps : CapabilityRegistry) (hash : HashOrders) (seeds : List ℕ)
    (names : List String) : r.resolveNarrowOne caps hash seeds names =
      r.selectNarrowOne caps hash seeds names >>= r.planFromSet hash := by
  unfold resolveNarrowOne selectNarrowOne
  rw [bind_assoc]
  refine bind_congr fun closureSet => ?_
  split_ifs <;> rfl

theorem resolve_eq (hash : HashOrders) (names : List String) :
    r.resolve hash names = r.selected hash names >>= r.planFromSet hash := by
  unfold resolve selected
  split_ifs
  · exact (planFromSet_empty hash).symm
  · rw [bind_assoc]
    refine bind_congr fun seeds => ?_
    cases r.selection with
    | all => rfl
    | narrowOne =>
      cases r.caps with
      | none => rfl
      | some caps => exact r.resolveNarrowOne_eq caps hash seeds names

variable {r}

theorem resolve_ok {hash : HashOrders} {names : List String} {plan : ExecutionPlan}
    (h : r.resolve hash names = .ok plan) :
    ∃ needed, r.selected hash names = .ok needed ∧ r.planFromSet hash needed = .ok plan := by
  rw [resolve_eq] at h
  exact bind_ok h

theorem seedBits_ok {names : List String} {seeds : List ℕ} (h : r.seedBits names = .ok seeds) :
    (∀ name ∈ names, ∃ t, r.registry.get name = some t) ∧
      ∀ bit, bit ∈ seeds ↔ ∃ name ∈ names, ∃ t, r.registry.get name = some t ∧ t.bitIdx = bit := by
  obtain ⟨hall, hmem⟩ := collect_ok h
  refine ⟨fun name hname => ?_, fun bit => ?_⟩
  · obtain ⟨bs, hbs⟩ := hall name hname
    cases hg : r.registry.get name with
    | none => simp [hg] at hbs
    | some t => exact ⟨t, rfl⟩
  · rw [hmem]
    constructor
    · rintro ⟨name, hname, bs, hbs, hbit⟩
      cases hg : r.registry.get name with
      | none => simp [hg] at hbs
      | some t =>
        rw [hg] at hbs
        rw [← Except.ok.inj hbs, List.mem_singleton] at hbit
        exact ⟨name, hname, t, hg, hbit.symm⟩
    · rintro ⟨name, hname, t, ht, rfl⟩
      exact ⟨name, hname, [t.bitIdx], by rw [ht], List.mem_singleton_self _⟩

theorem narrowLoop_mono {caps : CapabilityRegistry} {hash : HashOrders} {st st' : NarrowState}
    (h : r.narrowLoop caps hash st = .ok st') : st.resolved ⊆ st'.resolved := by
  fun_induction r.narrowLoop caps hash st with
  | case1 st e he => simp at h
  | case2 st mid hmid hc ih => exact Finset.Subset.trans (grows_narrowRound hmid).mono (ih h)
  | case3 st mid hmid hc =>
    rw [← Except.ok.inj h]
    exact (grows_narrowRound hmid).mono

theorem seeds_subset_narrowSelection {caps : CapabilityRegistry} {hash : HashOrders} {seeds : List ℕ}
    {needed : Finset ℕ} (h : r.narrowSelection caps hash seeds = .ok needed) : ∀ bit ∈ seeds, bit ∈ needed := by
  obtain ⟨st, hl, h⟩ := bind_ok h
  obtain ⟨expansion, -, h⟩ := bind_ok h
  obtain rfl : st.resolved ∪ expansion = needed := Except.ok.inj h
  intro bit hbit
  exact Finset.mem_union_left _ (narrowLoop_mono hl (List.mem_toFinset.mpr hbit))

theorem seeds_subset_selectNarrowOne {caps : CapabilityRegistry} {hash : HashOrders} {seeds : List ℕ}
    {names : List String} {needed : Finset ℕ} (h : r.selectNarrowOne caps hash seeds names = .ok needed) :
    ∀ bit ∈ seeds, bit ∈ needed := by
  obtain ⟨closureSet, -, h⟩ := bind_ok h
  split_ifs at h
  · exact ClosureCtx.seeds_subset h
  · exact seeds_subset_narrowSelection h

theorem selected_seeds {hash : HashOrders} {names : List String} {needed : Finset ℕ}
    (h : r.selected hash names = .ok needed) :
    ∀ name ∈ names, ∃ t, r.registry.get name = some t ∧ t.bitIdx ∈ needed := by
  intro name hname
  unfold selected at h
  rw [if_neg (List.ne_nil_of_mem hname)] at h
  obtain ⟨seeds, hs, h⟩ := bind_ok h
  obtain ⟨hall, hbits⟩ := seedBits_ok hs
  obtain ⟨t, ht⟩ := hall name hname
  have hseed : t.bitIdx ∈ seeds := (hbits _).mpr ⟨name, hname, t, ht, rfl⟩
  refine ⟨t, ht, ?_⟩
  split at h
  · exact ClosureCtx.seeds_subset h _ hseed
  · split at h
    · simp at h
    · exact seeds_subset_selectNarrowOne h _ hseed

variable (r)

def NameMatch (bit cap : ℕ) : Prop :=
  r.selection = .narrowOne ∧ r.registry.getProviders cap = [] ∧
    ∃ caps p, r.caps = some caps ∧ r.implicit caps cap = some p ∧ p.bitIdx = bit

def Supplies (bit cap : ℕ) : Prop :=
  (∃ p, r.registry.getByBitIndex bit = some p ∧ cap ∈ p.provides.iterOnes) ∨ r.NameMatch bit cap

def AfterSuppliers (order : List ℕ) : Prop :=
  ∀ bit ∈ order, ∀ target, r.registry.getByBitIndex bit = some target →
    ∀ cap ∈ target.depends.iterOnes, ∀ supplier ∈ order, supplier ≠ bit → r.Supplies supplier cap →
      Before order supplier bit

/-- A name match is sorted in front of its dependent although no edge says so. -/
def NameMatchesForced (needed : Finset ℕ) : Prop :=
  ∀ bit ∈ needed, ∀ target, r.registry.getByBitIndex bit = some target →
    ∀ cap ∈ target.depends.iterOnes, ∀ supplier ∈ needed, supplier ≠ bit → r.NameMatch supplier cap →
      Forced (r.PlanEdge needed) needed supplier bit

theorem plan_after_suppliers_iff (hash : HashOrders) (names : List String) (plan : ExecutionPlan)
    (h : r.resolve hash names = .ok plan) :
    ∃ needed, r.selected hash names = .ok needed ∧
      (r.AfterSuppliers plan.order ↔ r.NameMatchesForced needed) := by
  obtain ⟨needed, hsel, hplan⟩ := resolve_ok h
  obtain ⟨hg, hmem, hnodup, -⟩ := planFromSet_ok hplan
  refine ⟨needed, hsel, fun hafter => ?_, fun hforced => ?_⟩
  · intro bit hbit target ht cap hcap supplier hs hne hmatch
    apply hg.before_forced
    exact hafter bit ((hmem bit).mpr hbit) target ht cap hcap supplier ((hmem supplier).mpr hs) hne
      (Or.inr hmatch)
  · intro bit hbit target ht cap hcap supplier hs hne hsup
    rcases hsup with ⟨p, hp, hprov⟩ | hmatch
    · have hedge : r.PlanEdge needed supplier bit :=
        ⟨(hmem supplier).mp hs, (hmem bit).mp hbit, hne, target, ht, cap, hcap, p,
          TargetRegistry.mem_getProviders_of_provides hp hprov, (TargetRegistry.mem_of_getByBitIndex hp).2⟩
      exact hg.source_before hbit hedge
    · exact hg.forced_before (hforced bit ((hmem bit).mp hbit) target ht cap hcap supplier
        ((hmem supplier).mp hs) hne hmatch) hbit

theorem app_before_lib :
    let registry := (TargetRegistry.new.registerEach
      [⟨0, "app", .abstract, [true], [], false⟩, ⟨1, "lib", .file, [], [], false⟩]).1
    let r := withNarrowing registry (CapabilityRegistry.new.internList ["lib"])
    r.resolve .ascending ["app"] = .ok ⟨[0, 1], ["app", "lib"]⟩ ∧ ¬r.AfterSuppliers [0, 1] := by
  intro registry r
  refine ⟨by decide +kernel, fun h => ?_⟩
  have hbefore := h 0 (by simp) ⟨0, "app", .abstract, [true], [], false⟩ (by decide +kernel) 0 (by decide)
    1 (by simp) (by simp) (Or.inr ⟨rfl, by decide +kernel, _, ⟨1, "lib", .file, [], [], false⟩, rfl,
      by decide +kernel, by decide⟩)
  obtain ⟨l₁, l₂, hl, h1⟩ := hbefore
  cases l₁ with
  | nil => simp at h1
  | cons x l₁ =>
    simp only [List.cons_append, List.cons.injEq] at hl
    have : 0 ∈ [1] := by
      rw [hl.2]
      simp
    simp at this

theorem lib_before_app :
    let registry := (TargetRegistry.new.registerEach
      [⟨0, "lib", .file, [], [], false⟩, ⟨1, "app", .abstract, [true], [], false⟩]).1
    let r := withNarrowing registry (CapabilityRegistry.new.internList ["lib"])
    r.resolve .ascending ["app"] = .ok ⟨[0, 1], ["lib", "app"]⟩ ∧ r.AfterSuppliers [0, 1] := by
  intro registry r
  have hplan : r.resolve .ascending ["app"] = .ok ⟨[0, 1], ["lib", "app"]⟩ := by decide +kernel
  obtain ⟨needed, hsel, hiff⟩ := r.plan_after_suppliers_iff .ascending ["app"] _ hplan
  obtain rfl : {0, 1} = needed := Except.ok.inj ((by decide +kernel : _ = .ok {0, 1}).symm.trans hsel)
  have hlib : r.registry.getByBitIndex 0 = some ⟨0, "lib", .file, [], [], false⟩ := by decide +kernel
  refine ⟨hplan, hiff.mpr fun bit hbit target ht cap hcap supplier hs hne _ => ?_⟩
  rcases Finset.mem_insert.mp hbit with rfl | hbit
  · obtain rfl := Option.some.inj (hlib.symm.trans ht)
    simp [Bits.iterOnes] at hcap
  · obtain rfl := Finset.mem_singleton.mp hbit
    obtain rfl := (Finset.mem_insert.mp hs).resolve_right (by simpa using hne)
    refine .smaller hs (by decide) fun p hp => ?_
    obtain ⟨-, -, -, target', ht', cap', hcap', -⟩ := hp
    obtain rfl := Option.some.inj (hlib.symm.trans ht')
    simp [Bits.iterOnes] at hcap'

variable {r}

theorem resolve_seeds {hash : HashOrders} {names : List String} {plan : ExecutionPlan}
    (h : r.resolve hash names = .ok plan) :
    ∀ name ∈ names, ∃ t, r.registry.get name = some t ∧ t.bitIdx ∈ plan.order := by
  obtain ⟨needed, hsel, hplan⟩ := resolve_ok h
  intro name hname
  obtain ⟨t, ht, hmem⟩ := selected_seeds hsel name hname
  exact ⟨t, ht, ((planFromSet_ok hplan).2.1 _).mpr hmem⟩

theorem resolve_targetNames {hash : HashOrders} {names : List String} {plan : ExecutionPlan}
    (h : r.resolve hash names = .ok plan) : plan.targetNames = plan.order.map r.nameOf := by
  obtain ⟨needed, -, hplan⟩ := resolve_ok h
  exact (planFromSet_ok hplan).2.2.2

/-- Each accepted target is found under its id, is listed once under every capability it provides
and under no other, and is part of the plan for its own name. -/
def ResolveAsThemselves (registry : TargetRegistry) (accepted : List Target) : Prop :=
  (∀ t ∈ accepted, registry.getByBitIndex t.bitIdx = some t) ∧
    (∀ cap, (registry.getProviders cap).Nodup ∧
      ∀ t, t ∈ registry.getProviders cap ↔ t ∈ accepted ∧ cap ∈ t.provides.iterOnes) ∧
    ∀ t ∈ accepted, ∀ caps selection hash plan,
      resolve ⟨registry, false, caps, selection⟩ hash [t.name] = .ok plan →
        t.bitIdx ∈ plan.order ∧ t.name ∈ plan.targetNames

theorem registered_resolve_iff_distinct (calls : List Target) :
    ResolveAsThemselves (TargetRegistry.new.registerEach calls).1
        (TargetRegistry.new.registerEach calls).2 ↔
      ((TargetRegistry.new.registerEach calls).2.map Target.id).Nodup := by
  have htargets := TargetRegistry.new.registerEach_targets calls
  generalize (TargetRegistry.new.registerEach calls).1 = registry at htargets ⊢
  generalize (TargetRegistry.new.registerEach calls).2 = accepted at htargets ⊢
  obtain rfl : registry.targets = accepted := htargets
  constructor
  · rintro ⟨hbits, -, -⟩
    apply List.Nodup.map_on _ registry.targets_nodup
    intro s hs t ht hid
    have hbit : s.bitIdx = t.bitIdx := congrArg (fun id : Int64 => id.toUInt64.toNat) hid
    have hs' := hbits s hs
    rw [hbit, hbits t ht] at hs'
    exact (Option.some.inj hs').symm
  · intro hids
    have hdist : registry.DistinctIds := hids
    refine ⟨fun t ht => hdist.getByBitIndex ht, fun cap => ?_, fun t ht caps selection hash plan h => ?_⟩
    · rw [hdist.getProviders]
      refine ⟨registry.targets_nodup.filter _, fun t => ?_⟩
      simp
    · obtain ⟨t', ht', hmem⟩ := resolve_seeds h t.name (List.mem_singleton_self _)
      obtain rfl : t = t' := Option.some.inj
        (((registry.get_eq_some_iff _ _).mpr ⟨ht, rfl⟩).symm.trans ht')
      refine ⟨hmem, ?_⟩
      rw [resolve_targetNames h, List.mem_map]
      exact ⟨t.bitIdx, hmem, by simp [nameOf, hdist.getByBitIndex ht]⟩

theorem shared_id_hides_target :
    let accepted : List Target := [⟨5, "a", .file, [], [true], false⟩, ⟨5, "b", .file, [], [], false⟩]
    (TargetRegistry.new.registerEach accepted).2 = accepted ∧
      ¬ResolveAsThemselves (TargetRegistry.new.registerEach accepted).1 accepted := by
  intro accepted
  refine ⟨by decide +kernel, fun h => ?_⟩
  have hfirst := h.1 ⟨5, "a", .file, [], [true], false⟩ (by simp [accepted])
  revert hfirst
  decide +kernel

end Fluent.Dag.DependencyResolver
