import Fluent.Dag.NarrowRound
import Fluent.Dag.PlanOrder

namespace Fluent.Dag

open Fluent.Library Narrowing

theorem TargetRegistry.mem_fullProvides {registry : TargetRegistry} {targetSet : Finset ℕ} {cap : ℕ} :
    cap ∈ registry.fullProvides targetSet ↔
      ∃ bit ∈ targetSet, ∃ p, registry.getByBitIndex bit = some p ∧ cap ∈ p.provides.iterOnes := by
  unfold fullProvides
  rw [Finset.mem_biUnion]
  refine exists_congr fun bit => and_congr_right fun _ => ?_
  cases registry.getByBitIndex bit <;> simp

namespace DependencyResolver

variable (r : DependencyResolver) (caps : CapabilityRegistry)

def Met (needed : Finset ℕ) (cap : ℕ) : Prop :=
  (∃ p ∈ r.registry.getProviders cap, p.bitIdx ∈ needed) ∨
    r.registry.getProviders cap = [] ∧
      ((∃ p, r.implicit caps cap = some p ∧ p.bitIdx ∈ needed) ∨ r.implicit caps cap = none ∧ ¬r.strict)

def AllMet (needed : Finset ℕ) : Prop :=
  ∀ bit ∈ needed, ∃ target, r.registry.getByBitIndex bit = some target ∧
    ∀ cap ∈ target.depends.iterOnes, r.Met caps needed cap

structure Progress (st : NarrowState) : Prop where
  contested : ∀ cap ∈ st.narrowed, r.Contested cap
  won : ∀ cap ∈ st.narrowed, ∃ p ∈ r.registry.getProviders cap, p.bitIdx ∈ st.resolved

variable {r caps}

theorem AllMet.met {needed : Finset ℕ} (h : r.AllMet caps needed) {bit cap : ℕ} {target : Target}
    (hbit : bit ∈ needed) (ht : r.registry.getByBitIndex bit = some target)
    (hcap : cap ∈ target.depends.iterOnes) : r.Met caps needed cap := by
  obtain ⟨target', ht', hcaps⟩ := h bit hbit
  obtain rfl : target' = target := Option.some.inj (ht'.symm.trans ht)
  exact hcaps cap hcap

theorem Met.implicit_mem {needed : Finset ℕ} {cap : ℕ} {p : Target} (h : r.Met caps needed cap)
    (hnil : r.registry.getProviders cap = []) (hp : r.implicit caps cap = some p) : p.bitIdx ∈ needed := by
  rcases h with ⟨q, hq, -⟩ | ⟨-, ⟨q, hq, hqb⟩ | ⟨hnone, -⟩⟩
  · rw [hnil] at hq
    simp at hq
  · obtain rfl : q = p := Option.some.inj (hq.symm.trans hp)
    exact hqb
  · exact absurd (hnone.symm.trans hp) (by simp)

theorem progress_start (seeds : List ℕ) : r.Progress (.start seeds) := by
  constructor <;> simp [NarrowState.start]

theorem mem_getProviders_of_verdict {base : NarrowState} {cap : ℕ} {winner : Target} (hc : r.Contested cap)
    (hv : r.verdict base cap = [winner]) : winner ∈ r.registry.getProviders cap := by
  refine winner_mem ?_ hv
  intro hnil
  simp [Contested, hnil] at hc

theorem Progress.round {hash : HashOrders} {st st' : NarrowState} (hp : r.Progress st)
    (h : r.narrowRound caps hash st = .ok st') : r.Progress st' := by
  obtain ⟨hround, -⟩ := narrowRound_ok hp.contested h
  refine ⟨hround.contested, fun cap hcap => ?_⟩
  by_cases hold : cap ∈ st.narrowed
  · obtain ⟨p, hmem, hbit⟩ := hp.won cap hold
    exact ⟨p, hmem, hround.resolved hbit⟩
  · obtain ⟨w, hv, hle⟩ := hround.decided cap hcap hold
    exact ⟨w, mem_getProviders_of_verdict (hround.contested cap hcap) hv,
      hle.1 (Finset.mem_singleton_self _)⟩

theorem provider_of_mem_fullProvides {needed : Finset ℕ} {cap : ℕ}
    (h : cap ∈ r.registry.fullProvides needed) :
    ∃ p ∈ r.registry.getProviders cap, p.bitIdx ∈ needed := by
  obtain ⟨bit, hbit, p, hp, hc⟩ := TargetRegistry.mem_fullProvides.mp h
  refine ⟨p, TargetRegistry.mem_getProviders_of_provides hp hc, ?_⟩
  rwa [(TargetRegistry.mem_of_getByBitIndex hp).2]

theorem met_of_gain {st st' : NarrowState} (hp : r.Progress st) (hsub : st.resolved ⊆ st'.resolved)
    {target : Target} {cap : ℕ} (hd : ¬r.Fails caps st (.dep target cap))
    (hle : r.gain caps st (.dep target cap) ≤ st') : r.Met caps st'.resolved cap := by
  by_cases hfp : cap ∈ r.registry.fullProvides st.resolved
  · obtain ⟨p, hmem, hbit⟩ := provider_of_mem_fullProvides hfp
    exact Or.inl ⟨p, hmem, hsub hbit⟩
  · have hfail : ¬(r.Unmatched caps cap ∨ r.Contested cap ∧ r.Undecided st cap) := fun hf => hd ⟨hfp, hf⟩
    simp only [gain, depGain, if_neg hfp] at hle
    rcases r.contested_cases cap with hnil | ⟨p, hone⟩ | ⟨p, q, ps, hmany, hc⟩
    · refine Or.inr ⟨hnil, ?_⟩
      cases himp : r.implicit caps cap with
      | none => exact Or.inr ⟨rfl, fun hs => hfail (Or.inl ⟨hnil, himp, hs⟩)⟩
      | some p =>
        simp only [hnil, himp] at hle
        exact Or.inl ⟨p, rfl, hle.1 (Finset.mem_singleton_self _)⟩
    · simp only [hone] at hle
      exact Or.inl ⟨p, by simp [hone], hle.1 (Finset.mem_singleton_self _)⟩
    · by_cases hold : cap ∈ st.narrowed
      · obtain ⟨w, hmem, hbit⟩ := hp.won cap hold
        exact Or.inl ⟨w, hmem, hsub hbit⟩
      · obtain ⟨w, hw⟩ := exists_winner hold fun hu => hfail (Or.inr ⟨hc, hu⟩)
        simp only [hmany] at hle
        rw [contestGain_eq hold hw] at hle
        exact Or.inl ⟨w, mem_getProviders_of_verdict hc hw, hle.1 (Finset.mem_singleton_self _)⟩

theorem demanded_dep {st : NarrowState} {bit : ℕ} {target : Target} {cap : ℕ} (hbit : bit ∈ st.resolved)
    (ht : r.registry.getByBitIndex bit = some target) (hcap : cap ∈ target.depends.iterOnes) :
    r.Demanded st (.dep target cap) := by
  refine ⟨bit, hbit, ?_⟩
  unfold demandsOf
  rw [ht]
  exact List.mem_append_left _ (List.mem_map.mpr ⟨cap, hcap, rfl⟩)

theorem allMet_of_unchanged {hash : HashOrders} {st st' : NarrowState} (hp : r.Progress st)
    (h : r.narrowRound caps hash st = .ok st') (hc : ¬st'.changed) : r.AllMet caps st'.resolved := by
  obtain ⟨hround, hall⟩ := narrowRound_ok hp.contested h
  have hsame : ∀ bit ∈ st'.resolved, bit ∈ st.resolved := by
    intro bit hbit
    by_contra hout
    exact hc (hround.changed bit hbit hout)
  intro bit hbit
  cases ht : r.registry.getByBitIndex bit with
  | none =>
    have hdem : r.Demanded st (.absent bit) := ⟨bit, hsame bit hbit, by simp [demandsOf, ht]⟩
    exact absurd trivial (hall _ hdem).1
  | some target =>
    refine ⟨target, rfl, fun cap hcap => ?_⟩
    obtain ⟨hfine, hle⟩ := hall _ (demanded_dep (hsame bit hbit) ht hcap)
    exact met_of_gain hp hround.resolved hfine hle

theorem narrowLoop_allMet {hash : HashOrders} {st st' : NarrowState} (hp : r.Progress st)
    (h : r.narrowLoop caps hash st = .ok st') : r.AllMet caps st'.resolved := by
  fun_induction r.narrowLoop caps hash st with
  | case1 st e he => simp at h
  | case2 st mid hmid hc ih => exact ih (hp.round hmid) h
  | case3 st mid hmid hc =>
    obtain rfl := Except.ok.inj h
    exact allMet_of_unchanged hp hmid hc

theorem mem_fullProvides_of_provider (hids : r.registry.DistinctIds) {needed : Finset ℕ} {cap : ℕ}
    {p : Target} (hp : p ∈ r.registry.getProviders cap) (hbit : p.bitIdx ∈ needed) :
    cap ∈ r.registry.fullProvides needed := by
  rw [hids.getProviders, List.mem_filter] at hp
  exact TargetRegistry.mem_fullProvides.mpr
    ⟨p.bitIdx, hbit, p, hids.getByBitIndex hp.1, of_decide_eq_true hp.2⟩

theorem expansion_subset (hids : r.registry.DistinctIds) {st : NarrowState} (hmet : r.AllMet caps st.resolved)
    {seeds : List ℕ} (hseeds : ∀ bit ∈ seeds, bit ∈ st.resolved) {expansion : Finset ℕ}
    (h : ClosureCtx.transitiveClosure ⟨r.registry, some caps, r.strict⟩ seeds
      (some (r.registry.fullProvides st.resolved)) (some st.rejected) = .ok expansion) :
    expansion ⊆ st.resolved := by
  intro bit hbit
  apply ((ClosureCtx.mem_transitiveClosure h bit).1.mp hbit).mem_of_closed hseeds
  intro m ns hm hv n hn
  obtain ⟨target, ht, cap, hcap, hfp, hasks⟩ := ClosureCtx.mem_visit hv hn
  have hcm := hmet.met hm ht hcap
  rcases hasks with ⟨p, hp, rfl⟩ | ⟨hnil, p, hp, rfl⟩
  · rcases hcm with ⟨q, hq, hqb⟩ | ⟨hnil, -⟩
    · exact absurd (mem_fullProvides_of_provider hids hq hqb) (by simpa using hfp)
    · exact absurd hnil (List.ne_nil_of_mem hp)
  · exact hcm.implicit_mem hnil hp

theorem narrowSelection_allMet (hids : r.registry.DistinctIds) {hash : HashOrders} {seeds : List ℕ}
    {needed : Finset ℕ} (h : r.narrowSelection caps hash seeds = .ok needed) : r.AllMet caps needed := by
  obtain ⟨st, hl, h⟩ := bind_ok h
  obtain ⟨expansion, hexp, h⟩ := bind_ok h
  obtain rfl : st.resolved ∪ expansion = needed := Except.ok.inj h
  have hmet := narrowLoop_allMet (progress_start seeds) hl
  have hsub := expansion_subset hids hmet (fun bit hbit => (hash.resolvedSet.mem_iter _ _).mp hbit) hexp
  rwa [Finset.union_eq_left.mpr hsub]

theorem selectNarrowOne_supplied (hids : r.registry.DistinctIds) {hash : HashOrders} {seeds : List ℕ}
    {names : List String} {needed : Finset ℕ} (h : r.selectNarrowOne caps hash seeds names = .ok needed) :
    ∀ bit ∈ needed, ∃ target, r.registry.getByBitIndex bit = some target ∧
      ∀ cap ∈ target.depends.iterOnes, (∃ p ∈ r.registry.getProviders cap, p.bitIdx ∈ needed) ∨
        r.registry.getProviders cap = [] ∧
          (r.strict → ∃ p, r.implicit caps cap = some p ∧ p.bitIdx ∈ needed) := by
  obtain ⟨closureSet, -, h⟩ := bind_ok h
  intro bit hbit
  split_ifs at h
  · obtain ⟨target, ht⟩ := ClosureCtx.transitiveClosure_registered h hbit
    refine ⟨target, ht, fun cap hcap => ?_⟩
    obtain ⟨hprov, hnone⟩ := ClosureCtx.transitiveClosure_met h hbit ht hcap
    by_cases hnil : r.registry.getProviders cap = []
    · refine Or.inr ⟨hnil, fun hs => ?_⟩
      rcases hnone hnil with ⟨p, hp, -⟩ | ⟨-, hstrict⟩
      · exact absurd hp (by simp [ClosureCtx.implicit])
      · exact absurd hs hstrict
    · obtain ⟨p, hp⟩ := List.exists_mem_of_ne_nil _ hnil
      exact Or.inl ⟨p, hp, hprov p hp⟩
  · obtain ⟨target, ht, hcaps⟩ := narrowSelection_allMet hids h bit hbit
    refine ⟨target, ht, fun cap hcap => ?_⟩
    rcases hcaps cap hcap with hp | ⟨hnil, hp | ⟨-, hstrict⟩⟩
    · exact Or.inl hp
    · exact Or.inr ⟨hnil, fun _ => hp⟩
    · exact Or.inr ⟨hnil, fun hs => absurd hs hstrict⟩

theorem narrow_one_plan_satisfied (r : DependencyResolver) (hids : r.registry.DistinctIds)
    (hsel : r.selection = .narrowOne) (hash : HashOrders) (names : List String) (plan : ExecutionPlan)
    (h : r.resolve hash names = .ok plan) :
    (∀ name ∈ names, ∃ t, r.registry.get name = some t ∧ t.bitIdx ∈ plan.order) ∧ plan.order.Nodup ∧
      ∀ bit ∈ plan.order, ∃ target, r.registry.getByBitIndex bit = some target ∧
        ∀ cap ∈ target.depends.iterOnes,
          ((∃ p ∈ r.registry.targets, cap ∈ p.provides.iterOnes) →
            ∃ p ∈ r.registry.targets, cap ∈ p.provides.iterOnes ∧ p.bitIdx ∈ plan.order) ∧
          (r.strict → (∀ p ∈ r.registry.targets, cap ∉ p.provides.iterOnes) →
            ∃ caps name p, r.caps = some caps ∧ caps.getName cap = some name ∧
              p ∈ r.registry.targets ∧ p.name = name ∧ p.bitIdx ∈ plan.order) := by
  obtain ⟨needed, hneed, hplan⟩ := resolve_ok h
  obtain ⟨-, hmem, hnodup, -⟩ := planFromSet_ok hplan
  refine ⟨resolve_seeds h, hnodup, fun bit hbit => ?_⟩
  rw [hmem] at hbit
  simp only [hmem]
  unfold selected at hneed
  split_ifs at hneed with hnames
  · obtain rfl := Except.ok.inj hneed
    simp at hbit
  · obtain ⟨seeds, -, hneed⟩ := bind_ok hneed
    simp only [hsel] at hneed
    cases hcaps : r.caps with
    | none => simp [hcaps] at hneed
    | some caps =>
      simp only [hcaps] at hneed
      obtain ⟨target, ht, hsup⟩ := selectNarrowOne_supplied hids hneed bit hbit
      refine ⟨target, ht, fun cap hcap => ?_⟩
      rw [← r.registry.getProviders_eq_nil_iff]
      rcases hsup cap hcap with ⟨p, hp, hpb⟩ | ⟨hnil, himp⟩
      · refine ⟨fun _ => ?_, fun _ hnil => absurd hnil (List.ne_nil_of_mem hp)⟩
        rw [hids.getProviders, List.mem_filter] at hp
        exact ⟨p, hp.1, of_decide_eq_true hp.2, hpb⟩
      · refine ⟨fun ⟨p, hp, hc⟩ => ?_, fun hs _ => ?_⟩
        · exact absurd hc ((r.registry.getProviders_eq_nil_iff cap).mp hnil p hp)
        · obtain ⟨p, hp, hpb⟩ := himp hs
          obtain ⟨name, hname, hget⟩ := Option.bind_eq_some_iff.mp hp
          obtain ⟨hmemp, hpn⟩ := (r.registry.get_eq_some_iff name p).mp hget
          exact ⟨caps, name, p, rfl, hname, hmemp, hpn, hpb⟩

theorem narrow_one_essential_db :
    let registry := (TargetRegistry.new.registerEach [⟨1, "sqlite", .file, [], [true], false⟩,
      ⟨2, "postgres", .file, [], [true], true⟩, ⟨3, "app", .abstract, [true, true], [], false⟩,
      ⟨4, "lib", .phony, [], [], false⟩]).1
    let r := withNarrowing registry (CapabilityRegistry.new.internList ["db", "lib"])
    r.resolve .ascending ["app"] = .ok ⟨[2, 3, 4], ["postgres", "app", "lib"]⟩ ∧
      ∃ p ∈ registry.targets, 0 ∈ p.provides.iterOnes ∧ p.bitIdx ∈ [2, 3, 4] := by
  intro registry r
  have hplan : r.resolve .ascending ["app"] = .ok ⟨[2, 3, 4], ["postgres", "app", "lib"]⟩ := by
    decide +kernel
  have hids : r.registry.DistinctIds := by
    unfold TargetRegistry.DistinctIds
    decide +kernel
  obtain ⟨-, -, hmet⟩ := narrow_one_plan_satisfied r hids rfl .ascending ["app"] _ hplan
  obtain ⟨target, ht, hcaps⟩ := hmet 3 (by simp)
  obtain rfl : ⟨3, "app", .abstract, [true, true], [], false⟩ = target :=
    Option.some.inj ((by decide +kernel : _ = some _).symm.trans ht)
  refine ⟨hplan, (hcaps 0 (by decide)).1 ?_⟩
  exact ⟨⟨1, "sqlite", .file, [], [true], false⟩, by decide +kernel, by decide⟩

end DependencyResolver

end Fluent.Dag
