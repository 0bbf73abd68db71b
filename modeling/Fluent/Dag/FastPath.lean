import Fluent.Dag.NarrowFixpoint

namespace Fluent.Dag.DependencyResolver

open Fluent.Library

variable {r : DependencyResolver} {caps : CapabilityRegistry} {seeds : List ℕ} {closureSet : Finset ℕ}

theorem narrowRound_le {hash : HashOrders} {st st' bound : NarrowState}
    (hst : ∀ cap ∈ st.narrowed, r.Contested cap) (h : r.narrowRound caps hash st = .ok st')
    (hstart : { st with changed := false } ≤ bound)
    (hgain : ∀ d, r.Demanded st d → r.gain caps st d ≤ bound) : st' ≤ bound := by
  rcases narrowRound_cases hash hst with ⟨⟨e, he⟩, -⟩ | ⟨hok, -, -⟩
  · rw [he] at h
    simp at h
  · obtain rfl := Except.ok.inj (hok.symm.trans h)
    refine (foldl_sup_le_iff _ _ _ _).mpr ⟨hstart, fun d hd => hgain d ?_⟩
    exact (mem_snapshot_demands hash st d).mp hd

variable (r caps) in
def NoSelfContest (closureSet : Finset ℕ) : Prop :=
  ∀ bit ∈ closureSet, ∀ target, r.registry.getByBitIndex bit = some target → selfProvides target →
    ∀ cap, caps.getIndex target.name = some cap → ¬r.Contested cap

variable (r caps) in
structure Uncontested (seeds : List ℕ) (closureSet : Finset ℕ) : Prop where
  closure : ClosureCtx.transitiveClosure ⟨r.registry, some caps, r.strict⟩ seeds none none = .ok closureSet
  single : ∀ bit ∈ closureSet, ¬r.multiProvider bit
  own : r.NoSelfContest caps closureSet

theorem Uncontested.not_contested (hu : r.Uncontested caps seeds closureSet) {bit : ℕ} {target : Target}
    {cap : ℕ} (hbit : bit ∈ closureSet) (ht : r.registry.getByBitIndex bit = some target)
    (hcap : cap ∈ target.depends.iterOnes) : ¬r.Contested cap := by
  intro hc
  apply hu.single bit hbit
  simp only [multiProvider, ht, Option.any_some, List.any_eq_true, decide_eq_true_eq]
  exact ⟨cap, hcap, hc⟩

theorem Uncontested.met (hu : r.Uncontested caps seeds closureSet) : r.AllMet caps closureSet := by
  intro bit hbit
  obtain ⟨target, ht⟩ := ClosureCtx.transitiveClosure_registered hu.closure hbit
  refine ⟨target, ht, fun cap hcap => ?_⟩
  obtain ⟨hprov, hnone⟩ := ClosureCtx.transitiveClosure_met hu.closure hbit ht hcap
  by_cases hnil : r.registry.getProviders cap = []
  · exact Or.inr ⟨hnil, hnone hnil⟩
  · obtain ⟨p, hp⟩ := List.exists_mem_of_ne_nil _ hnil
    exact Or.inl ⟨p, hp, hprov p hp⟩

structure Inside (closureSet : Finset ℕ) (st : NarrowState) : Prop where
  resolved : st.resolved ⊆ closureSet
  rejected : st.rejected = ∅
  narrowed : st.narrowed = ∅

theorem Uncontested.demand_cases (hu : r.Uncontested caps seeds closureSet) {st : NarrowState}
    (hi : Inside closureSet st) {d : Demand} (hd : r.Demanded st d) :
    (∃ bit target cap, bit ∈ closureSet ∧ r.registry.getByBitIndex bit = some target ∧
      cap ∈ target.depends.iterOnes ∧ d = .dep target cap) ∨
    ∃ target, d = .own target ∧ ∀ cap, caps.getIndex target.name = some cap → ¬r.Contested cap := by
  obtain ⟨bit, hbit, hd⟩ := hd
  have hbit := hi.resolved hbit
  obtain ⟨target, ht⟩ := ClosureCtx.transitiveClosure_registered hu.closure hbit
  simp only [demandsOf, ht, List.mem_append, List.mem_map] at hd
  rcases hd with ⟨cap, hcap, rfl⟩ | hd
  · exact Or.inl ⟨bit, target, cap, hbit, ht, hcap, rfl⟩
  · split_ifs at hd with hself
    · exact Or.inr ⟨target, List.mem_singleton.mp hd, hu.own bit hbit target ht hself⟩
    · simp at hd

theorem Uncontested.not_fails (hu : r.Uncontested caps seeds closureSet) {st : NarrowState}
    (hi : Inside closureSet st) {d : Demand} (hd : r.Demanded st d) : ¬r.Fails caps st d := by
  rcases hu.demand_cases hi hd with ⟨bit, target, cap, hbit, ht, hcap, rfl⟩ | ⟨target, rfl, hown⟩
  · rintro ⟨-, ⟨hnil, himp, hstrict⟩ | ⟨hc, -⟩⟩
    · rcases hu.met.met hbit ht hcap with ⟨p, hp, -⟩ | ⟨-, ⟨p, hp, -⟩ | ⟨-, hlax⟩⟩
      · simp [hnil] at hp
      · simp [himp] at hp
      · exact hlax hstrict
    · exact hu.not_contested hbit ht hcap hc
  · rintro ⟨cap, hi, hc, -⟩
    exact hown cap hi hc

theorem adoption_le {st : NarrowState} {bit : ℕ} (h : bit ∈ closureSet) :
    adoption st bit ≤ ⟨closureSet, ∅, ∅, true⟩ :=
  ⟨Finset.singleton_subset_iff.mpr h, Finset.Subset.refl _, Finset.Subset.refl _, fun _ => rfl⟩

theorem unchanged_le : NarrowState.unchanged ≤ ⟨closureSet, ∅, ∅, true⟩ :=
  ⟨Finset.empty_subset _, Finset.Subset.refl _, Finset.Subset.refl _, fun _ => rfl⟩

theorem Uncontested.gain_le (hu : r.Uncontested caps seeds closureSet) {st : NarrowState}
    (hi : Inside closureSet st) {d : Demand} (hd : r.Demanded st d) :
    r.gain caps st d ≤ ⟨closureSet, ∅, ∅, true⟩ := by
  rcases hu.demand_cases hi hd with ⟨bit, target, cap, hbit, ht, hcap, rfl⟩ | ⟨target, rfl, hown⟩
  · obtain ⟨hprov, hnone⟩ := ClosureCtx.transitiveClosure_met hu.closure hbit ht hcap
    simp only [gain, depGain]
    split_ifs
    · exact unchanged_le
    · rcases r.contested_cases cap with hnil | ⟨p, hone⟩ | ⟨-, -, -, -, hc⟩
      · simp only [hnil]
        cases himp : r.implicit caps cap with
        | none => exact unchanged_le
        | some p =>
          rcases hnone hnil with ⟨p', hp', hmem⟩ | ⟨hno, -⟩
          · obtain rfl : p = p' := Option.some.inj (himp.symm.trans hp')
            exact adoption_le hmem
          · exact absurd (himp.symm.trans hno) (by simp)
      · simp only [hone]
        exact adoption_le (hprov p (by simp [hone]))
      · exact absurd hc (hu.not_contested hbit ht hcap)
  · simp only [gain]
    cases hidx : caps.getIndex target.name with
    | none => exact unchanged_le
    | some cap =>
      simp only [if_neg (show ¬1 < (r.registry.getProviders cap).length from hown cap hidx)]
      exact unchanged_le

theorem Uncontested.round (hu : r.Uncontested caps seeds closureSet) (hash : HashOrders) {st : NarrowState}
    (hi : Inside closureSet st) :
    ∃ st', r.narrowRound caps hash st = .ok st' ∧ Inside closureSet st' := by
  have hst : ∀ cap ∈ st.narrowed, r.Contested cap := by simp [hi.narrowed]
  rcases narrowRound_cases hash hst with ⟨-, d, hd, hf⟩ | ⟨hok, -, -⟩
  · exact absurd hf (hu.not_fails hi hd)
  · have hstart : { st with changed := false } ≤ (⟨closureSet, ∅, ∅, true⟩ : NarrowState) :=
      ⟨hi.resolved, by simp [hi.rejected], by simp [hi.narrowed], fun _ => rfl⟩
    obtain ⟨hres, hrej, hnar, -⟩ := narrowRound_le hst hok hstart fun d hd => hu.gain_le hi hd
    exact ⟨_, hok, hres, Finset.subset_empty.mp hrej, Finset.subset_empty.mp hnar⟩

theorem Uncontested.loop (hu : r.Uncontested caps seeds closureSet) (hash : HashOrders) {st : NarrowState}
    (hi : Inside closureSet st) :
    ∃ st', r.narrowLoop caps hash st = .ok st' ∧ Inside closureSet st' := by
  fun_induction r.narrowLoop caps hash st with
  | case1 st e he =>
    obtain ⟨st', hok, -⟩ := hu.round hash hi
    rw [he] at hok
    simp at hok
  | case2 st mid hmid hc ih =>
    obtain ⟨st', hok, hi'⟩ := hu.round hash hi
    obtain rfl := Except.ok.inj (hmid.symm.trans hok)
    exact ih hi'
  | case3 st mid hmid hc =>
    obtain ⟨st', hok, hi'⟩ := hu.round hash hi
    obtain rfl := Except.ok.inj (hmid.symm.trans hok)
    exact ⟨mid, rfl, hi'⟩

theorem Uncontested.registered (hu : r.Uncontested caps seeds closureSet) :
    ∀ bit ∈ closureSet, ∃ target, r.registry.getByBitIndex bit = some target :=
  fun _ hbit => ClosureCtx.transitiveClosure_registered hu.closure hbit

theorem Uncontested.loop_eq (hu : r.Uncontested caps seeds closureSet) {hash : HashOrders} {st : NarrowState}
    (h : r.narrowLoop caps hash (.start seeds) = .ok st) (hi : Inside closureSet st) :
    st.resolved = closureSet := by
  have hmet := narrowLoop_allMet (progress_start seeds) h
  refine Finset.Subset.antisymm hi.resolved fun bit hbit => ?_
  apply ((ClosureCtx.mem_transitiveClosure hu.closure bit).1.mp hbit).mem_of_closed
  · intro b hb
    exact narrowLoop_mono h (List.mem_toFinset.mpr hb)
  · intro m ns hm hv n hn
    obtain ⟨target, ht, cap, hcap, -, hasks⟩ := ClosureCtx.mem_visit hv hn
    have hcm := hmet.met hm ht hcap
    rcases hasks with ⟨p, hp, rfl⟩ | ⟨hnil, p, hp, rfl⟩
    · rcases hcm with ⟨q, hq, hqb⟩ | ⟨hnil, -⟩
      · rcases r.contested_cases cap with hnil | ⟨o, hone⟩ | ⟨-, -, -, -, hc⟩
        · exact absurd hnil (List.ne_nil_of_mem hp)
        · rw [hone] at hp hq
          obtain rfl := List.mem_singleton.mp hq
          rwa [List.mem_singleton.mp hp]
        · exact absurd hc (hu.not_contested (hi.resolved hm) ht hcap)
      · exact absurd hnil (List.ne_nil_of_mem hp)
    · exact hcm.implicit_mem hnil hp

theorem required_guarded {ctx : ClosureCtx} (satisfied : Finset ℕ) (target : Target) (cap : ℕ) :
    ctx.required (some satisfied) (some ∅) target cap =
      if cap ∈ satisfied then .ok [] else ctx.required none none target cap := by
  have hkeep : ∀ bits, ClosureCtx.unlessRejected (some ∅) bits = bits := by simp [ClosureCtx.unlessRejected]
  have hkeep' : ∀ bits, ClosureCtx.unlessRejected none bits = bits := by simp [ClosureCtx.unlessRejected]
  simp only [ClosureCtx.required, hkeep, hkeep', Option.any_some, Option.any_none, Bool.false_eq_true,
    ↓reduceIte, decide_eq_true_eq]

theorem Uncontested.visit_guarded (hu : r.Uncontested caps seeds closureSet) (satisfied : Finset ℕ) {bit : ℕ}
    (hbit : bit ∈ closureSet) : ∃ ns, ClosureCtx.visit ⟨r.registry, some caps, r.strict⟩ (some satisfied)
      (some ∅) bit = .ok ns ∧ ∀ n ∈ ns, n ∈ closureSet := by
  obtain ⟨bits, hv⟩ := (ClosureCtx.mem_transitiveClosure hu.closure bit).2 hbit
  have hmem := ClosureCtx.mem_of_visit hu.closure hbit hv
  obtain ⟨target, ht, hall, hbits⟩ := ClosureCtx.visit_ok hv
  obtain ⟨ns, hns⟩ : ∃ ns, collect (ClosureCtx.required ⟨r.registry, some caps, r.strict⟩ (some satisfied)
      (some ∅) target) target.depends.iterOnes = .ok ns := by
    apply exists_collect_ok_iff.mpr
    intro cap hcap
    rw [required_guarded]
    split_ifs
    · exact ⟨[], rfl⟩
    · exact hall cap hcap
  refine ⟨ns, ?_, fun n hn => ?_⟩
  · unfold ClosureCtx.visit
    simp only [ht]
    exact hns
  · obtain ⟨cap, hcap, bs, hreq, hnb⟩ := ((collect_ok hns).2 n).mp hn
    rw [required_guarded] at hreq
    split_ifs at hreq
    · obtain rfl := Except.ok.inj hreq
      simp at hnb
    · exact hmem n ((hbits n).mpr ⟨cap, hcap, bs, hreq, hnb⟩)

theorem Uncontested.expansion (hu : r.Uncontested caps seeds closureSet) (satisfied : Finset ℕ) {stack : List ℕ}
    (hstack : ∀ bit ∈ stack, bit ∈ closureSet) :
    ∃ expansion, ClosureCtx.transitiveClosure ⟨r.registry, some caps, r.strict⟩ stack (some satisfied)
      (some ∅) = .ok expansion ∧ expansion ⊆ closureSet := by
  have hinside : ∀ bit, (ClosureCtx.walk ⟨r.registry, some caps, r.strict⟩ (some satisfied)
      (some ∅)).Reach stack bit → bit ∈ closureSet := by
    intro bit hreach
    apply hreach.mem_of_closed hstack
    intro m ns hm hv n hn
    obtain ⟨ns', hv', hsub⟩ := hu.visit_guarded satisfied hm
    obtain rfl := Except.ok.inj (hv.symm.trans hv')
    exact hsub n hn
  cases h : ClosureCtx.transitiveClosure ⟨r.registry, some caps, r.strict⟩ stack (some satisfied)
    (some ∅) with
  | ok expansion =>
    exact ⟨expansion, rfl, fun bit hbit => hinside bit ((ClosureCtx.mem_transitiveClosure h bit).1.mp hbit)⟩
  | error e =>
    obtain ⟨bit, hreach, he⟩ := Expansion.explore_error (fun _ => List.mem_reverse) h
    obtain ⟨ns, hv, -⟩ := hu.visit_guarded satisfied (hinside bit hreach)
    exact absurd (he.symm.trans hv) (by simp)

theorem Uncontested.narrowSelection (hu : r.Uncontested caps seeds closureSet) (hash : HashOrders) :
    r.narrowSelection caps hash seeds = .ok closureSet := by
  have hstart : Inside closureSet (.start seeds) := by
    refine ⟨fun bit hbit => ?_, rfl, rfl⟩
    exact ClosureCtx.seeds_subset hu.closure bit (List.mem_toFinset.mp hbit)
  obtain ⟨st, hl, hi⟩ := hu.loop hash hstart
  have hres := hu.loop_eq hl hi
  have hstack : ∀ bit ∈ hash.resolvedSet.iter st.resolved, bit ∈ closureSet := fun bit hbit =>
    hres ▸ (hash.resolvedSet.mem_iter _ _).mp hbit
  obtain ⟨expansion, hexp, hsub⟩ := hu.expansion (r.registry.fullProvides st.resolved) hstack
  unfold DependencyResolver.narrowSelection
  rw [hl]
  change (ClosureCtx.transitiveClosure _ _ _ (some st.rejected) >>= _) = _
  rw [hi.rejected, hexp]
  change Except.ok (st.resolved ∪ expansion) = _
  rw [hres, Finset.union_eq_left.mpr hsub]

section Fast

variable (r) (caps) (seeds)

inductive Needs : ℕ → Prop
  | seed {bit : ℕ} (h : bit ∈ seeds) : Needs bit
  | provider {bit cap : ℕ} {target p : Target} (hb : Needs bit)
      (ht : r.registry.getByBitIndex bit = some target) (hcap : cap ∈ target.depends.iterOnes)
      (hp : p ∈ r.registry.getProviders cap) : Needs p.bitIdx

def NameFallback (bit : ℕ) (p : Target) : Prop :=
  ∃ target, r.registry.getByBitIndex bit = some target ∧ ∃ cap ∈ target.depends.iterOnes,
    r.registry.getProviders cap = [] ∧ r.implicit caps cap = some p

def ProviderEdge (provider bit : ℕ) : Prop :=
  provider ≠ bit ∧ ∃ target, r.registry.getByBitIndex bit = some target ∧
    ∃ cap ∈ target.depends.iterOnes, ∃ p ∈ r.registry.getProviders cap, p.bitIdx = provider

/-- Nothing needed falls back to a name; a lenient resolver may, when the target found that way is
needed anyway, or when the needed targets are circular without it. -/
def NoFallback : Prop :=
  (r.strict → ∀ bit, r.Needs seeds bit → ∀ p, ¬r.NameFallback caps bit p) ∧
    (¬r.strict → (∀ bit, r.Needs seeds bit → ∀ p, r.NameFallback caps bit p → r.Needs seeds p.bitIdx) ∨
      ∃ c, r.Needs seeds c ∧ Relation.TransGen r.ProviderEdge c c)

end Fast

theorem implicit_none_caps (strict : Bool) (cap : ℕ) :
    ClosureCtx.implicit ⟨r.registry, none, strict⟩ cap = none := rfl

theorem needs_of_reach {bit : ℕ}
    (h : (ClosureCtx.walk ⟨r.registry, none, r.strict⟩ none none).Reach seeds bit) : r.Needs seeds bit := by
  apply h.mem_of_closed fun b hb => .seed hb
  intro m ns hm hv n hn
  obtain ⟨target, ht, cap, hcap, -, ⟨p, hp, rfl⟩ | ⟨-, p, hp, -⟩⟩ := ClosureCtx.mem_visit hv hn
  · exact .provider hm ht hcap hp
  · rw [implicit_none_caps] at hp
    simp at hp

theorem mem_fast_iff {needed : Finset ℕ}
    (h : ClosureCtx.transitiveClosure ⟨r.registry, none, r.strict⟩ seeds none none = .ok needed) (bit : ℕ) :
    bit ∈ needed ↔ r.Needs seeds bit := by
  constructor
  · intro hbit
    exact needs_of_reach ((ClosureCtx.mem_transitiveClosure h bit).1.mp hbit)
  · intro hneeds
    induction hneeds with
    | seed hb => exact ClosureCtx.seeds_subset h _ hb
    | provider _ ht hcap hp ih =>
      exact (ClosureCtx.transitiveClosure_met h ih ht hcap).1 _ hp

theorem Uncontested.mem_of_needs (hu : r.Uncontested caps seeds closureSet) {bit : ℕ}
    (h : r.Needs seeds bit) : bit ∈ closureSet := by
  induction h with
  | seed hb => exact ClosureCtx.seeds_subset hu.closure _ hb
  | provider _ ht hcap hp ih =>
    exact (ClosureCtx.transitiveClosure_met hu.closure ih ht hcap).1 _ hp

theorem Uncontested.mem_of_fallback (hu : r.Uncontested caps seeds closureSet) {bit : ℕ} {p : Target}
    (hbit : bit ∈ closureSet) (h : r.NameFallback caps bit p) : p.bitIdx ∈ closureSet := by
  obtain ⟨target, ht, cap, hcap, hnil, himp⟩ := h
  exact (hu.met.met hbit ht hcap).implicit_mem hnil himp

theorem Uncontested.needs_of_mem (hu : r.Uncontested caps seeds closureSet)
    (h : ∀ bit, r.Needs seeds bit → ∀ p, r.NameFallback caps bit p → r.Needs seeds p.bitIdx) {bit : ℕ}
    (hbit : bit ∈ closureSet) : r.Needs seeds bit := by
  apply ((ClosureCtx.mem_transitiveClosure hu.closure bit).1.mp hbit).mem_of_closed fun b hb => .seed hb
  intro m ns hm hv n hn
  obtain ⟨target, ht, cap, hcap, -, ⟨p, hp, rfl⟩ | ⟨hnil, p, himp, rfl⟩⟩ := ClosureCtx.mem_visit hv hn
  · exact .provider hm ht hcap hp
  · exact h m hm p ⟨target, ht, cap, hcap, hnil, himp⟩

theorem Uncontested.fast_error (hu : r.Uncontested caps seeds closureSet) {e : ResolverError}
    (h : ClosureCtx.transitiveClosure ⟨r.registry, none, r.strict⟩ seeds none none = .error e) :
    r.strict ∧ e ≠ .circularDependency ∧ ∃ bit p, r.Needs seeds bit ∧ r.NameFallback caps bit p := by
  obtain ⟨bit, hreach, hv⟩ := Expansion.explore_error (fun _ => List.mem_reverse) h
  have hneeds := needs_of_reach hreach
  obtain ⟨target, ht⟩ := hu.registered bit (hu.mem_of_needs hneeds)
  have hv : ClosureCtx.visit ⟨r.registry, none, r.strict⟩ none none bit = .error e := hv
  simp only [ClosureCtx.visit, ht] at hv
  obtain ⟨cap, hcap, hreq⟩ := collect_error hv
  by_cases hnil : r.registry.getProviders cap = []
  · rw [ClosureCtx.required_unmatched target hnil (implicit_none_caps r.strict cap)] at hreq
    split_ifs at hreq with hstrict
    refine ⟨hstrict, ?_, ?_⟩
    · rw [← Except.error.inj hreq]
      simp [Narrowing.missingProviderError]
    · rcases hu.met.met (hu.mem_of_needs hneeds) ht hcap with ⟨p, hp, -⟩ | ⟨-, ⟨p, hp, -⟩ | ⟨-, hlax⟩⟩
      · simp [hnil] at hp
      · exact ⟨bit, p, hneeds, target, ht, cap, hcap, hnil, hp⟩
      · exact absurd hstrict hlax
  · rw [ClosureCtx.required_providers target hnil] at hreq
    simp at hreq

theorem no_fallback_of_fast {needed : Finset ℕ}
    (h : ClosureCtx.transitiveClosure ⟨r.registry, none, r.strict⟩ seeds none none = .ok needed)
    (hstrict : r.strict) {bit : ℕ} (hneeds : r.Needs seeds bit) (p : Target) : ¬r.NameFallback caps bit p := by
  rintro ⟨target, ht, cap, hcap, hnil, -⟩
  have hmet := ClosureCtx.transitiveClosure_met h ((mem_fast_iff h bit).mpr hneeds) ht hcap
  rcases hmet.2 hnil with ⟨p', hp', -⟩ | ⟨-, hlax⟩
  · rw [implicit_none_caps] at hp'
    simp at hp'
  · exact hlax hstrict

theorem planEdge_of_providerEdge {S : Finset ℕ} (hclosed : ∀ p bit, bit ∈ S → r.ProviderEdge p bit → p ∈ S)
    {a c : ℕ} (h : Relation.TransGen r.ProviderEdge a c) (hc : c ∈ S) :
    a ∈ S ∧ Relation.TransGen (r.PlanEdge S) a c := by
  induction h using Relation.TransGen.head_induction_on with
  | single he => exact ⟨hclosed _ _ hc he, .single ⟨hclosed _ _ hc he, hc, he.1, he.2⟩⟩
  | head he _ ih =>
    obtain ⟨hmid, htrans⟩ := ih
    exact ⟨hclosed _ _ hmid he, .head ⟨hclosed _ _ hmid he, hmid, he.1, he.2⟩ htrans⟩

theorem Uncontested.providers_closed (hu : r.Uncontested caps seeds closureSet) (p bit : ℕ)
    (hbit : bit ∈ closureSet) (he : r.ProviderEdge p bit) : p ∈ closureSet := by
  obtain ⟨-, target, ht, cap, hcap, q, hq, rfl⟩ := he
  exact (ClosureCtx.transitiveClosure_met hu.closure hbit ht hcap).1 q hq

theorem needs_closed (p bit : ℕ) (hbit : r.Needs seeds bit) (he : r.ProviderEdge p bit) : r.Needs seeds p := by
  obtain ⟨-, target, ht, cap, hcap, q, hq, rfl⟩ := he
  exact .provider hbit ht hcap hq

theorem Uncontested.resolveNarrowOne_eq (hu : r.Uncontested caps seeds closureSet) (hash : HashOrders)
    {names : List String} (hseed : r.hasAbstractSeed names = false) :
    r.resolveNarrowOne caps hash seeds names = r.resolveAll hash seeds := by
  have hmulti : (hash.closureSet.iter closureSet).any r.multiProvider = false := by
    rw [List.any_eq_false]
    exact fun bit hbit => hu.single bit ((hash.closureSet.mem_iter _ _).mp hbit)
  unfold resolveNarrowOne
  rw [hu.closure]
  change (if _ then _ else _) = _
  rw [hseed, hmulti]
  rfl

theorem Uncontested.lenient_agrees_iff (hu : r.Uncontested caps seeds closureSet) (hash hash' : HashOrders)
    {needed : Finset ℕ} (hmem : ∀ bit, bit ∈ needed ↔ r.Needs seeds bit) :
    r.planFromSet hash needed = r.planFromSet hash' closureSet ↔
      (∀ bit, r.Needs seeds bit → ∀ p, r.NameFallback caps bit p → r.Needs seeds p.bitIdx) ∨
        ∃ c, r.Needs seeds c ∧ Relation.TransGen r.ProviderEdge c c := by
  have hregN : ∀ bit ∈ needed, ∃ target, r.registry.getByBitIndex bit = some target := fun bit hbit =>
    hu.registered bit (hu.mem_of_needs ((hmem bit).mp hbit))
  constructor
  · intro heq
    rcases planFromSet_cycle hash hregN with ⟨⟨c, hc⟩, -⟩ | ⟨-, plan, hplan⟩
    · obtain ⟨d, hd, -⟩ := Relation.TransGen.head'_iff.mp hc
      exact Or.inr ⟨c, (hmem c).mp hd.1, hc.lift id fun _ _ he => ⟨he.2.2.1, he.2.2.2⟩⟩
    · have hN := (planFromSet_ok hplan).2.1
      have hV := (planFromSet_ok (heq ▸ hplan)).2.1
      refine Or.inl fun bit hbit p hp => ?_
      rw [← hmem, ← hN, hV]
      exact hu.mem_of_fallback (hu.mem_of_needs hbit) hp
  · rintro (hfall | ⟨c, hc, hcycle⟩)
    · obtain rfl : needed = closureSet := by
        ext bit
        rw [hmem]
        exact ⟨hu.mem_of_needs, hu.needs_of_mem hfall⟩
      exact planFromSet_eq hash hash' hu.registered
    · have hclosed : ∀ p bit, bit ∈ needed → r.ProviderEdge p bit → p ∈ needed := fun p bit hbit he =>
        (hmem p).mpr (needs_closed p bit ((hmem bit).mp hbit) he)
      have hcN := (planEdge_of_providerEdge hclosed hcycle ((hmem c).mpr hc)).2
      have hcV := (planEdge_of_providerEdge hu.providers_closed hcycle (hu.mem_of_needs hc)).2
      rcases planFromSet_cycle hash hregN with ⟨-, hN⟩ | ⟨hno, -⟩
      · rcases planFromSet_cycle hash' hu.registered with ⟨-, hV⟩ | ⟨hno, -⟩
        · rw [hN, hV]
        · exact absurd hcV (hno c)
      · exact absurd hcN (hno c)

theorem fast_path_agrees_iff (r : DependencyResolver) (caps : CapabilityRegistry) (names : List String)
    (seeds : List ℕ) (closureSet : Finset ℕ) (hseed : r.hasAbstractSeed names = false)
    (hu : r.Uncontested caps seeds closureSet) (hash hash' : HashOrders) :
    r.resolveNarrowOne caps hash seeds names = r.narrowAndPlan caps hash' seeds ↔
      r.NoFallback caps seeds := by
  have hslow : r.narrowAndPlan caps hash' seeds = r.planFromSet hash' closureSet := by
    unfold narrowAndPlan
    rw [hu.narrowSelection]
    rfl
  rw [hu.resolveNarrowOne_eq hash hseed, hslow]
  unfold resolveAll
  cases hfast : ClosureCtx.transitiveClosure ⟨r.registry, none, r.strict⟩ seeds none none with
  | error e =>
    obtain ⟨hstrict, hne, bit, p, hneeds, hfall⟩ := hu.fast_error hfast
    refine iff_of_false (fun heq => ?_) fun hno => hno.1 hstrict bit hneeds p hfall
    have heq : .error e = r.planFromSet hash' closureSet := heq
    rcases planFromSet_cycle hash' hu.registered with ⟨-, hV⟩ | ⟨-, plan, hV⟩
    · rw [hV] at heq
      exact hne (Except.error.inj heq)
    · rw [hV] at heq
      simp at heq
  | ok needed =>
    have hmem := mem_fast_iff hfast
    refine (hu.lenient_agrees_iff hash hash' hmem).trans ?_
    by_cases hstrict : r.strict
    · have hnone : ∀ bit, r.Needs seeds bit → ∀ p, ¬r.NameFallback caps bit p := fun bit hneeds p =>
        no_fallback_of_fast hfast hstrict hneeds p
      refine iff_of_true (Or.inl fun bit hneeds p hp => absurd hp (hnone bit hneeds p)) ?_
      exact ⟨fun _ => hnone, fun hlax => absurd hstrict hlax⟩
    · exact ⟨fun h => ⟨fun hs => absurd hs hstrict, fun _ => h⟩, fun h => h.2 hstrict⟩

theorem fast_path_misses_lib :
    let registry := (TargetRegistry.new.registerEach
      [⟨0, "app", .file, [true], [], false⟩, ⟨1, "lib", .file, [], [], false⟩]).1
    let caps := CapabilityRegistry.new.internList ["lib"]
    let r := withNarrowing registry caps
    r.seedBits ["app"] = .ok [0] ∧ r.hasAbstractSeed ["app"] = false ∧
      ClosureCtx.transitiveClosure ⟨registry, some caps, true⟩ [0] none none = .ok {1, 0} ∧
      (∀ bit ∈ ({1, 0} : Finset ℕ), ¬r.multiProvider bit) ∧
      r.resolveNarrowOne caps .ascending [0] ["app"] =
        .error (.missingDependency "no provider for 'cap_0' (required by 'app')") ∧
      r.narrowAndPlan caps .ascending [0] = .ok ⟨[0, 1], ["app", "lib"]⟩ := by
  intro registry caps r
  exact ⟨by decide +kernel, by decide +kernel, by decide +kernel, by decide +kernel, by decide +kernel,
    by decide +kernel⟩

theorem fast_path_single_db :
    let registry := (TargetRegistry.new.registerEach
      [⟨0, "app", .file, [true], [], false⟩, ⟨1, "sqlite", .file, [], [true], false⟩]).1
    let caps := CapabilityRegistry.new.internList ["db"]
    let r := withNarrowing registry caps
    r.resolveNarrowOne caps .ascending [0] ["app"] = .ok ⟨[1, 0], ["sqlite", "app"]⟩ ∧
      r.resolveNarrowOne caps .ascending [0] ["app"] = r.narrowAndPlan caps .ascending [0] := by
  intro registry caps r
  have hlist : r.registry.targets =
      [⟨0, "app", .file, [true], [], false⟩, ⟨1, "sqlite", .file, [], [true], false⟩] := by decide +kernel
  have htargets : ∀ bit target, r.registry.getByBitIndex bit = some target →
      target ∈ [(⟨0, "app", .file, [true], [], false⟩ : Target), ⟨1, "sqlite", .file, [], [true], false⟩] := by
    intro bit target ht
    exact hlist ▸ (TargetRegistry.mem_of_getByBitIndex ht).1
  have hu : r.Uncontested caps [0] {1, 0} := by
    refine ⟨by decide +kernel, by decide +kernel, fun bit hbit target ht _ cap hcap => ?_⟩
    rcases List.mem_pair.mp (htargets bit target ht) with rfl | rfl
    · exact absurd (hcap.symm.trans (by decide +kernel : _ = none)) (by simp)
    · exact absurd (hcap.symm.trans (by decide +kernel : _ = none)) (by simp)
  refine ⟨by decide +kernel, (fast_path_agrees_iff r caps ["app"] [0] {1, 0} (by decide +kernel) hu
    .ascending .ascending).mpr ⟨fun _ bit hbit p hp => ?_, fun hlax => absurd rfl hlax⟩⟩
  obtain ⟨target, ht, cap, hcap, hnil, -⟩ := hp
  rcases List.mem_pair.mp (htargets bit target ht) with rfl | rfl
  · obtain rfl : cap = 0 := by simpa [Bits.iterOnes] using hcap
    revert hnil
    decide +kernel
  · simp [Bits.iterOnes] at hcap

end Fluent.Dag.DependencyResolver
