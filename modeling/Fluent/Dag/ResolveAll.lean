import Fluent.Dag.PlanOrder

namespace Fluent.Dag.DependencyResolver

open Fluent.Library

inductive Needed (r : DependencyResolver) (names : List String) : ℕ → Prop
  | seed {name : String} {t : Target} (hname : name ∈ names) (ht : r.registry.get name = some t) :
      Needed r names t.bitIdx
  | provider {bit cap : ℕ} {target p : Target} (h : Needed r names bit)
      (ht : r.registry.getByBitIndex bit = some target) (hcap : cap ∈ target.depends.iterOnes)
      (hp : p ∈ r.registry.getProviders cap) : Needed r names p.bitIdx

def NeededEdge (r : DependencyResolver) (names : List String) (provider bit : ℕ) : Prop :=
  r.Needed names bit ∧ provider ≠ bit ∧ ∃ target, r.registry.getByBitIndex bit = some target ∧
    ∃ cap ∈ target.depends.iterOnes, ∃ p ∈ r.registry.getProviders cap, p.bitIdx = provider

def Supplied (r : DependencyResolver) (names : List String) : Prop :=
  ∀ bit target, r.Needed names bit → r.registry.getByBitIndex bit = some target →
    ∀ cap ∈ target.depends.iterOnes, r.registry.getProviders cap ≠ []

variable {r : DependencyResolver} {hash : HashOrders} {names : List String}

theorem Needed.registered {bit : ℕ} (h : r.Needed names bit) : ∃ t, r.registry.getByBitIndex bit = some t := by
  cases h with
  | seed hname ht => exact TargetRegistry.exists_getByBitIndex ((r.registry.get_eq_some_iff _ _).mp ht).1
  | provider h ht hcap hp => exact ⟨_, TargetRegistry.mem_getProviders hp⟩

theorem needed_of_reach {seeds : List ℕ} (hseeds : r.seedBits names = .ok seeds) {bit : ℕ}
    (h : (ClosureCtx.walk ⟨r.registry, none, r.strict⟩ none none).Reach seeds bit) : r.Needed names bit := by
  refine h.mem_of_closed (fun bit hbit => ?_) fun bit bits hneeded hvisit next hnext => ?_
  · obtain ⟨name, hname, t, ht, rfl⟩ := ((seedBits_ok hseeds).2 bit).mp hbit
    exact .seed hname ht
  · obtain ⟨target, ht, cap, hcap, -, ⟨p, hp, rfl⟩ | ⟨-, p, himplicit, -⟩⟩ := ClosureCtx.mem_visit hvisit hnext
    · exact .provider hneeded ht hcap hp
    · cases himplicit

theorem selected_all (hsel : r.selection = .all) : r.selected hash names =
    r.seedBits names >>= fun seeds => ClosureCtx.transitiveClosure ⟨r.registry, none, r.strict⟩ seeds none none := by
  unfold selected
  split
  · next hnil =>
    subst hnil
    exact (Expansion.explore.eq_1 _ _).symm
  · rw [hsel]

theorem mem_selected_all (hsel : r.selection = .all) {needed : Finset ℕ} (h : r.selected hash names = .ok needed)
    (bit : ℕ) : bit ∈ needed ↔ r.Needed names bit := by
  rw [selected_all hsel] at h
  obtain ⟨seeds, hseeds, hclosure⟩ := bind_ok h
  refine ⟨fun hbit => needed_of_reach hseeds ((ClosureCtx.mem_transitiveClosure hclosure bit).1.mp hbit), ?_⟩
  intro hneeded
  induction hneeded with
  | @seed name t hname ht =>
    exact ClosureCtx.seeds_subset hclosure _ (((seedBits_ok hseeds).2 _).mpr ⟨name, hname, t, ht, rfl⟩)
  | provider h ht hcap hp ih => exact (ClosureCtx.transitiveClosure_met hclosure ih ht hcap).1 _ hp

theorem exists_selected_all_iff (hsel : r.selection = .all) : (∃ needed, r.selected hash names = .ok needed) ↔
    (∀ name ∈ names, ∃ t, r.registry.get name = some t) ∧ (r.strict = true → r.Supplied names) := by
  constructor
  · rintro ⟨needed, h⟩
    refine ⟨fun name hname => (selected_seeds h name hname).imp fun t ht => ht.1, ?_⟩
    intro hstrict bit target hneeded ht cap hcap hnil
    have hbit := (mem_selected_all hsel h bit).mpr hneeded
    rw [selected_all hsel] at h
    obtain ⟨seeds, hseeds, hclosure⟩ := bind_ok h
    rcases (ClosureCtx.transitiveClosure_met hclosure hbit ht hcap).2 hnil with ⟨p, hp, -⟩ | ⟨-, hlax⟩
    · cases hp
    · exact hlax hstrict
  · rintro ⟨hnames, hsupplied⟩
    obtain ⟨seeds, hseeds⟩ : ∃ seeds, r.seedBits names = .ok seeds := by
      refine exists_collect_ok_iff.mpr fun name hname => ?_
      obtain ⟨t, ht⟩ := hnames name hname
      exact ⟨[t.bitIdx], by rw [ht]⟩
    rw [selected_all hsel, hseeds]
    cases hclosure : ClosureCtx.transitiveClosure ⟨r.registry, none, r.strict⟩ seeds none none with
    | ok needed => exact ⟨needed, hclosure⟩
    | error e =>
      obtain ⟨bit, hreach, hvisit⟩ := Expansion.explore_error (fun _ => List.mem_reverse) hclosure
      have hneeded := needed_of_reach hseeds hreach
      obtain ⟨target, ht⟩ := hneeded.registered
      change ClosureCtx.visit _ none none bit = .error e at hvisit
      unfold ClosureCtx.visit at hvisit
      rw [ht] at hvisit
      obtain ⟨cap, hcap, herror⟩ := collect_error hvisit
      by_cases hnil : r.registry.getProviders cap = []
      · rw [ClosureCtx.required_unmatched target hnil rfl] at herror
        split at herror
        · next hstrict => exact absurd hnil (hsupplied hstrict bit target hneeded ht cap hcap)
        · cases herror
      · rw [ClosureCtx.required_providers target hnil] at herror
        cases herror

theorem planEdge_iff (hsel : r.selection = .all) {needed : Finset ℕ} (h : r.selected hash names = .ok needed)
    (provider bit : ℕ) : r.PlanEdge needed provider bit ↔ r.NeededEdge names provider bit := by
  constructor
  · rintro ⟨-, hbit, hne, hdep⟩
    exact ⟨(mem_selected_all hsel h bit).mp hbit, hne, hdep⟩
  · rintro ⟨hbit, hne, target, ht, cap, hcap, p, hp, rfl⟩
    exact ⟨(mem_selected_all hsel h _).mpr (.provider hbit ht hcap hp), (mem_selected_all hsel h bit).mpr hbit, hne,
      target, ht, cap, hcap, p, hp, rfl⟩

theorem resolve_all_iff (resolver : DependencyResolver) (hash : HashOrders) (names : List String) :
    let r := resolver.withSelection .all
    ((∃ plan, r.resolve hash names = .ok plan) ↔ (∀ name ∈ names, ∃ t, r.registry.get name = some t) ∧
      (r.strict = true → r.Supplied names) ∧ ∀ c, ¬Relation.TransGen (r.NeededEdge names) c c) ∧
    ∀ plan, r.resolve hash names = .ok plan →
      plan.order.Nodup ∧ ∀ bit, bit ∈ plan.order ↔ r.Needed names bit := by
  intro r
  have hsel : r.selection = .all := rfl
  constructor
  · rw [← and_assoc, ← @exists_selected_all_iff r hash names hsel]
    constructor
    · rintro ⟨plan, h⟩
      obtain ⟨needed, hneeded, hplan⟩ := resolve_ok h
      refine ⟨⟨needed, hneeded⟩, fun c hc => ?_⟩
      rcases planFromSet_cycle hash (planFromSet_registered hplan) with ⟨-, herror⟩ | ⟨hacyclic, -⟩
      · rw [herror] at hplan
        cases hplan
      · exact hacyclic c (Relation.TransGen.mono (fun p b => (planEdge_iff hsel hneeded p b).mpr) c c hc)
    · rintro ⟨⟨needed, hneeded⟩, hacyclic⟩
      have hregistered : ∀ bit ∈ needed, ∃ t, r.registry.getByBitIndex bit = some t :=
        fun bit hbit => ((mem_selected_all hsel hneeded bit).mp hbit).registered
      rw [resolve_eq, hneeded]
      rcases planFromSet_cycle hash hregistered with ⟨⟨c, hc⟩, -⟩ | ⟨-, hplan⟩
      · exact absurd (Relation.TransGen.mono (fun p b => (planEdge_iff hsel hneeded p b).mp) c c hc) (hacyclic c)
      · exact hplan
  · intro plan h
    obtain ⟨needed, hneeded, hplan⟩ := resolve_ok h
    obtain ⟨-, hmem, hnodup, -⟩ := planFromSet_ok hplan
    exact ⟨hnodup, fun bit => (hmem bit).trans (mem_selected_all hsel hneeded bit)⟩

end Fluent.Dag.DependencyResolver
