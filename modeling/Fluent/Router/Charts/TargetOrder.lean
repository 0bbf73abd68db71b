import Mathlib.Algebra.Order.BigOperators.Group.List
import Fluent.Router.Charts.Select

namespace Fluent.Router.Charts

open Fluent.Library
open Fluent.Spacy (Text)
open Fluent.Dag (Debug)

variable {N F : Type}

section LastOf

variable {α β M : Type*} {f : α → Option β}

def lastOf (f : α → Option β) (l : List α) : Option β := l.reverse.findSome? f

theorem foldl_lastOf {step : M → α → M} (get : M → Option β) (h : ∀ m a, get (step m a) = (f a).or (get m))
    (l : List α) (m : M) : get (l.foldl step m) = (lastOf f l).or (get m) := by
  unfold lastOf
  induction l generalizing m with
  | nil => rfl
  | cons a l ih =>
    rw [List.foldl_cons, ih, h, List.reverse_cons, List.findSome?_append, Option.or_assoc]
    cases hf : f a <;> simp [hf]

theorem lastOf_perm {l l' : List α} (hperm : l.Perm l')
    (hagree : ∀ a ∈ l, ∀ b ∈ l, ∀ x y, f a = some x → f b = some y → x = y) : lastOf f l = lastOf f l' := by
  unfold lastOf
  cases hl : l.reverse.findSome? f with
  | none =>
    have hnone : ∀ a ∈ l, f a = none := by simpa using hl
    rw [eq_comm, List.findSome?_eq_none_iff]
    exact fun a ha => hnone a (hperm.mem_iff.mpr (List.mem_reverse.mp ha))
  | some x =>
    obtain ⟨a, ha, hx⟩ := List.exists_of_findSome?_eq_some hl
    cases hl' : l'.reverse.findSome? f with
    | none =>
      rw [List.findSome?_eq_none_iff] at hl'
      have hnone := hl' a (List.mem_reverse.mpr (hperm.mem_iff.mp (List.mem_reverse.mp ha)))
      rw [hx] at hnone
      cases hnone
    | some y =>
      obtain ⟨b, hb, hy⟩ := List.exists_of_findSome?_eq_some hl'
      exact congrArg some (hagree a (List.mem_reverse.mp ha) b (hperm.mem_iff.mpr (List.mem_reverse.mp hb)) x y hx hy)

theorem lastOf_two (rest : List α) (a b : α) :
    lastOf f (rest ++ [a, b]) = (f b).or ((f a).or (lastOf f rest)) := by
  simp only [lastOf, List.reverse_append, List.reverse_cons, List.reverse_nil, List.nil_append,
    List.cons_append, List.findSome?_cons]
  cases f b <;> cases f a <;> rfl

theorem exists_perm_two {l : List α} {a b : α} (ha : a ∈ l) (hb : b ∈ l) (hne : a ≠ b) :
    ∃ rest, l.Perm (rest ++ [a, b]) := by
  obtain ⟨l₁, l₂, rfl⟩ := List.append_of_mem ha
  have hb' : b ∈ l₁ ++ l₂ := by
    rcases List.mem_append.mp hb with h | h
    · exact List.mem_append_left _ h
    · exact List.mem_append_right _ ((List.mem_cons.mp h).resolve_left hne.symm)
  obtain ⟨m₁, m₂, hm⟩ := List.append_of_mem hb'
  refine ⟨m₁ ++ m₂, ?_⟩
  calc (l₁ ++ a :: l₂).Perm (a :: (l₁ ++ l₂)) := List.perm_middle
    _ = a :: (m₁ ++ b :: m₂) := by rw [hm]
    _ |>.Perm (a :: b :: (m₁ ++ m₂)) := List.perm_middle.cons a
    _ |>.Perm ((m₁ ++ m₂) ++ [a, b]) := (List.perm_append_comm : ([a, b] ++ (m₁ ++ m₂)).Perm _)

end LastOf

def owner (name : Text) (target : ChartTarget F) : Option Text :=
  if name ∈ target.name :: target.provides then some target.name else none

def upstreamOf (providers : HashMap Text Text) (target : ChartTarget F) : DepSpec F → List Text
  | .capability name => (providers.lookup name).toList.filter (· ≠ target.name)
  | .entityMatch .. => []

def upstreams (chart : ChartDef F) : List (Text × List Text) :=
  chart.targets.map fun t => (t.name, t.depends.flatMap (upstreamOf (providerOf chart) t))

def boundBy (num : Numbers N F) (entities : List (Entity N)) (chart : ChartDef F) (target : ChartTarget F)
    (name : Text) : Option (List (Entity N)) :=
  (bindEntitiesImpl num entities target.depends (inGraphAssets chart)).entityMap.lookup name

def reordered (chart : ChartDef F) (targets : List (ChartTarget F)) : ChartDef F := { chart with targets := targets }

@[ext]
structure ChartResult (N : Type) where
  upstream : Option (Multiset (Text × List Text))
  satisfied : Finset Text
  entityMap : HashMap Text (List (Entity N))
  unmatched : Finset Text
  ambiguous : Multiset (AmbiguousDep N)

def chartResult [Debug Text] (num : Numbers N F) (hash : HashOrder Text) (entities : List (Entity N))
    (chart : ChartDef F) : ChartResult N :=
  let bindings := bindChart num entities chart
  { upstream := (compileChartStages num hash entities chart).toOption.map fun out =>
      ((out.1.map fun t => (t.name, t.upstreamIds) : List _) : Multiset (Text × List Text))
    satisfied := bindings.satisfied
    entityMap := bindings.entityMap
    unmatched := bindings.unmatched.toFinset
    ambiguous := bindings.ambiguous }

section Providers

theorem lookup_foldl_insert (assets : List Text) (providers : HashMap Text Text) (owner name : Text) :
    (assets.foldl (fun providers asset => providers.insert asset owner) providers).lookup name =
      if name ∈ assets then some owner else providers.lookup name := by
  induction assets generalizing providers with
  | nil => simp
  | cons a assets ih =>
    rw [List.foldl_cons, ih, HashMap.lookup_insert_ite]
    by_cases hin : name ∈ assets <;> by_cases ha : name = a <;> simp [hin, ha]

theorem lookup_providerOf (chart : ChartDef F) (name : Text) :
    (providerOf chart).lookup name = lastOf (owner name) chart.targets := by
  have hstep : ∀ (providers : HashMap Text Text) (t : ChartTarget F),
      (addProvider providers t).lookup name = (owner name t).or (providers.lookup name) := by
    intro providers t
    rw [addProvider, lookup_foldl_insert, HashMap.lookup_insert_ite, owner]
    by_cases hin : name ∈ t.provides <;> by_cases hname : name = t.name <;> simp [hin, hname]
  rw [providerOf, foldl_lastOf (fun m : HashMap Text Text => m.lookup name) hstep, Finmap.lookup_empty, Option.or_none]

theorem count_upstreamOf (providers : HashMap Text Text) (target : ChartTarget F) {p : Text} (hp : p ≠ target.name)
    (name : Text) : (upstreamOf providers target (.capability name)).count p =
      if providers.lookup name = some p then 1 else 0 := by
  cases hlookup : providers.lookup name with
  | none => simp [upstreamOf, hlookup]
  | some q =>
    by_cases hq : q = p
    · subst hq
      simp [upstreamOf, hlookup, hp]
    · have hout : p ∉ upstreamOf providers target (.capability name) := by
        simp [upstreamOf, hlookup, Ne.symm hq]
      simp [List.count_eq_zero_of_not_mem hout, hq]

end Providers

section Compile

variable {num : Numbers N F} {entities : List (Entity N)} {chart : ChartDef F} {target : ChartTarget F}

theorem resolveDep_eq {bindings : Bindings N} {providers : HashMap Text Text} {chartName : Text} {dep : DepSpec F}
    {ids : List Text} (h : resolveDep target bindings providers chartName dep = .ok ids) :
    ids = upstreamOf providers target dep := by
  cases dep with
  | capability name =>
    rw [resolveDep] at h
    cases hlookup : providers.lookup name with
    | some provider =>
      rw [hlookup] at h
      obtain rfl := Except.ok.inj h
      by_cases hself : provider = target.name <;> simp [upstreamOf, hlookup, hself]
    | none =>
      rw [hlookup] at h
      dsimp only at h
      split at h
      · obtain rfl := Except.ok.inj h
        simp [upstreamOf, hlookup]
      · split at h <;> cases h
  | entityMatch name description predicate required => exact resolveDep_entityMatch h

theorem collect_eq_flatMap {α β ε : Type*} {f : α → Except ε (List β)} {g : α → List β}
    (hfg : ∀ a ys, f a = .ok ys → ys = g a) {as : List α} {ys : List β} (h : collect f as = .ok ys) :
    ys = as.flatMap g := by
  induction as generalizing ys with
  | nil => exact (Except.ok.inj h).symm
  | cons a as ih =>
    cases ha : f a with
    | error e => simp [collect, ha] at h
    | ok bs =>
      cases hr : collect f as with
      | error e => simp [collect, ha, hr] at h
      | ok rest =>
        obtain rfl : bs ++ rest = ys := by simpa [collect, ha, hr] using h
        rw [List.flatMap_cons, ← hfg a bs ha, ← ih hr]

theorem compileTarget_upstream {t : CompiledTarget F} (h : compileTarget num entities chart target = .ok t) :
    (t.name, t.upstreamIds) = (target.name, target.depends.flatMap (upstreamOf (providerOf chart) target)) := by
  obtain ⟨ids, hids, h⟩ := bind_ok h
  obtain rfl := Except.ok.inj h
  exact congrArg _ (collect_eq_flatMap (fun _ _ => resolveDep_eq) hids)

variable [Debug Text] {hash : HashOrder Text}

theorem compile_upstreams {out : List (CompiledTarget F) × List Text}
    (h : compileChartStages num hash entities chart = .ok out) :
    out.1.map (fun t => (t.name, t.upstreamIds)) = upstreams chart := by
  obtain ⟨targets, htargets, h⟩ := bind_ok h
  obtain ⟨order, -, h⟩ := bind_ok h
  obtain rfl := Except.ok.inj h
  have hall := mapM_ok htargets
  have heq : ∀ {l : List (ChartTarget F)} {r : List (CompiledTarget F)},
      List.Forall₂ (fun target t => compileTarget num entities chart target = .ok t) l r →
        r.map (fun t => (t.name, t.upstreamIds)) =
          l.map fun t => (t.name, t.depends.flatMap (upstreamOf (providerOf chart) t)) := by
    intro l r hall
    induction hall with
    | nil => rfl
    | cons hhead _ ih => rw [List.map_cons, List.map_cons, ih, compileTarget_upstream hhead]
  exact heq hall

theorem upstream_of_compiles (h : ∃ out, compileChartStages num hash entities chart = .ok out) :
    (chartResult num hash entities chart).upstream = some (Multiset.ofList (upstreams chart)) := by
  obtain ⟨out, hout⟩ := h
  rw [← compile_upstreams hout]
  unfold chartResult
  rw [hout]
  rfl

theorem upstream_of_not_compiles (h : ¬ ∃ out, compileChartStages num hash entities chart = .ok out) :
    (chartResult num hash entities chart).upstream = none := by
  unfold chartResult
  cases hout : compileChartStages num hash entities chart with
  | error e => rfl
  | ok out => exact absurd ⟨out, hout⟩ h

end Compile

section Reordered

variable {num : Numbers N F} {entities : List (Entity N)} {chart : ChartDef F} {targets : List (ChartTarget F)}
  (hperm : targets.Perm chart.targets)

include hperm

theorem inGraphAssets_reordered : inGraphAssets (reordered chart targets) = inGraphAssets chart :=
  List.toFinset_eq_of_perm _ _ (hperm.flatMap_right _)

theorem lookup_entityMap (name : Text) : (bindChart num entities (reordered chart targets)).entityMap.lookup name =
    lastOf (boundBy num entities chart · name) targets := by
  have hstep : ∀ (agg : Bindings N) (t : ChartTarget F),
      (addTarget num entities (inGraphAssets chart) agg t).entityMap.lookup name =
        (boundBy num entities chart t name).or (agg.entityMap.lookup name) := by
    intro agg t
    unfold addTarget mergeMap boundBy
    by_cases hin : name ∈ (bindEntitiesImpl num entities t.depends (inGraphAssets chart)).entityMap
    · rw [Finmap.lookup_union_left hin]
      obtain ⟨es, hes⟩ := Finmap.mem_iff.mp hin
      rw [hes, Option.some_or]
    · rw [Finmap.lookup_union_right hin, Finmap.lookup_eq_none.mpr hin, Option.none_or]
  unfold bindChart
  rw [inGraphAssets_reordered hperm]
  exact (foldl_lastOf (fun b : Bindings N => b.entityMap.lookup name) hstep targets .empty).trans (Option.or_none ..)

theorem mem_satisfied (x : Text) : x ∈ (bindChart num entities (reordered chart targets)).satisfied ↔
    ∃ t ∈ chart.targets, x ∈ (bindEntitiesImpl num entities t.depends (inGraphAssets chart)).satisfied := by
  unfold bindChart
  rw [inGraphAssets_reordered hperm]
  refine (foldl_iff (P := fun b : Bindings N => x ∈ b.satisfied) (fun _ _ => Finset.mem_union) targets .empty).trans ?_
  refine (or_iff_right (Finset.notMem_empty x)).trans ?_
  exact exists_congr fun t => and_congr_left fun _ => hperm.mem_iff

theorem ambiguous_reordered : (bindChart num entities (reordered chart targets)).ambiguous =
    targets.flatMap fun t => (bindEntitiesImpl num entities t.depends (inGraphAssets chart)).ambiguous := by
  have hfold : ∀ (l : List (ChartTarget F)) (b : Bindings N),
      (l.foldl (addTarget num entities (inGraphAssets chart)) b).ambiguous = b.ambiguous ++
        l.flatMap fun t => (bindEntitiesImpl num entities t.depends (inGraphAssets chart)).ambiguous := by
    intro l
    induction l with
    | nil => simp
    | cons t l ih =>
      intro b
      rw [List.foldl_cons, ih, List.flatMap_cons, ← List.append_assoc]
      rfl
  unfold bindChart
  rw [inGraphAssets_reordered hperm]
  exact hfold targets .empty

theorem mem_unmatched_reordered (name : Text) : name ∈ (bindChart num entities (reordered chart targets)).unmatched ↔
    name ∈ (bindChart num entities chart).unmatched := by
  rw [mem_unmatched_bindChart, mem_unmatched_bindChart, inGraphAssets_reordered hperm]
  exact exists_congr fun t => and_congr_left fun _ => hperm.mem_iff

def SameProviders (chart : ChartDef F) (targets : List (ChartTarget F)) : Prop :=
  ∀ t ∈ chart.targets, ∀ name, .capability name ∈ t.depends →
    (providerOf (reordered chart targets)).lookup name = (providerOf chart).lookup name

theorem compiles_reordered [Debug Text] {hash : HashOrder Text} (h : SameProviders chart targets) :
    (∃ out, compileChartStages num hash entities (reordered chart targets) = .ok out) ↔
      ∃ out, compileChartStages num hash entities chart = .ok out := by
  have hedge : StageEdge (reordered chart targets) = StageEdge chart := by
    funext p n
    refine propext (exists_congr fun t => ?_)
    rw [show t ∈ (reordered chart targets).targets ↔ t ∈ chart.targets from hperm.mem_iff]
    refine and_congr_right fun ht => and_congr_right fun _ => exists_congr fun name => and_congr_right fun hdep => ?_
    rw [h t ht name hdep]
  rw [exists_compile_iff, exists_compile_iff, hedge]
  refine and_congr (forall_congr' fun t => ?_) (and_congr_left fun _ => (hperm.map _).nodup_iff)
  rw [show t ∈ (reordered chart targets).targets ↔ t ∈ chart.targets from hperm.mem_iff]
  unfold Resolves
  rw [inGraphAssets_reordered hperm]

theorem upstreams_reordered (h : SameProviders chart targets) :
    (upstreams (reordered chart targets)).Perm (upstreams chart) := by
  have heq : upstreams (reordered chart targets) =
      targets.map fun t => (t.name, t.depends.flatMap (upstreamOf (providerOf chart) t)) := by
    refine List.map_congr_left fun t ht => ?_
    refine congrArg (Prod.mk t.name) (List.flatMap_congr fun dep hdep => ?_)
    cases dep with
    | capability name => rw [upstreamOf, upstreamOf, h t (hperm.mem_iff.mp ht) name hdep]
    | entityMatch => rfl
  rw [heq]
  exact hperm.map _

end Reordered

def OneProvider (chart : ChartDef F) : Prop :=
  ∀ t ∈ chart.targets, ∀ name, .capability name ∈ t.depends →
    ∀ p ∈ chart.targets, ∀ q ∈ chart.targets, name ∈ p.name :: p.provides → name ∈ q.name :: q.provides →
      p.name = q.name

def OneBinding (num : Numbers N F) (entities : List (Entity N)) (chart : ChartDef F) : Prop :=
  ∀ t ∈ chart.targets, ∀ u ∈ chart.targets, ∀ name es es', boundBy num entities chart t name = some es →
    boundBy num entities chart u name = some es' → es = es'

section Orders

variable {num : Numbers N F} {entities : List (Entity N)} {chart : ChartDef F}

theorem sameProviders_of_one (h : OneProvider chart) {targets : List (ChartTarget F)}
    (hperm : targets.Perm chart.targets) : SameProviders chart targets := by
  intro t ht name hdep
  rw [lookup_providerOf, lookup_providerOf]
  refine (lastOf_perm hperm.symm fun p hp q hq x y hx hy => ?_).symm
  unfold owner at hx hy
  split_ifs at hx with hin
  split_ifs at hy with hin'
  rw [← Option.some.inj hx, ← Option.some.inj hy]
  exact h t ht name hdep p hp q hq hin hin'

theorem count_lt (chart : ChartDef F) (rest : List (ChartTarget F)) {t p q : ChartTarget F} {name : Text}
    (hdep : .capability name ∈ t.depends) (hp : name ∈ p.name :: p.provides) (hq : name ∈ q.name :: q.provides)
    (hne : p.name ≠ q.name) (hself : p.name ≠ t.name) :
    (t.depends.flatMap (upstreamOf (providerOf (reordered chart (rest ++ [p, q]))) t)).count p.name <
      (t.depends.flatMap (upstreamOf (providerOf (reordered chart (rest ++ [q, p]))) t)).count p.name := by
  have hlookup : ∀ (a b : ChartTarget F) (m : Text), (providerOf (reordered chart (rest ++ [a, b]))).lookup m =
      (owner m b).or ((owner m a).or (lastOf (owner m) rest)) := by
    intro a b m
    rw [lookup_providerOf]
    exact lastOf_two rest a b
  rw [List.count_flatMap, List.count_flatMap]
  refine List.sum_lt_sum _ _ (fun dep _ => ?_) ⟨_, hdep, ?_⟩
  · cases dep with
    | capability m =>
      simp only [Function.comp, count_upstreamOf _ _ hself, hlookup]
      by_cases hpm : m ∈ p.name :: p.provides <;> by_cases hqm : m ∈ q.name :: q.provides <;>
        simp [owner, hpm, hqm, Ne.symm hne]
    | entityMatch => exact Nat.le_refl _
  · simp only [Function.comp, count_upstreamOf _ _ hself, hlookup]
    simp [owner, hp, hq, Ne.symm hne]

theorem oneBinding_of_free (hfree : ∀ targets, targets.Perm chart.targets →
    (bindChart num entities (reordered chart targets)).entityMap = (bindChart num entities chart).entityMap) :
    OneBinding num entities chart := by
  intro t ht u hu name es es' hes hes'
  by_contra hne
  obtain ⟨rest, hrest⟩ := exists_perm_two ht hu fun h => hne (Option.some.inj (hes.symm.trans (h ▸ hes')))
  have hswap : (rest ++ [u, t]).Perm chart.targets := ((List.Perm.swap t u []).append_left rest).trans hrest.symm
  have hsame := congrArg (Finmap.lookup name) ((hfree _ hrest.symm).trans (hfree _ hswap).symm)
  rw [lookup_entityMap hrest.symm, lookup_entityMap hswap, lastOf_two, lastOf_two, hes, hes'] at hsame
  exact hne (Option.some.inj hsame).symm

variable [Debug Text] {hash : HashOrder Text}

theorem oneProvider_of_free (hcompiles : ∀ targets, targets.Perm chart.targets →
      ∃ out, compileChartStages num hash entities (reordered chart targets) = .ok out)
    (hfree : ∀ targets, targets.Perm chart.targets →
      (chartResult num hash entities (reordered chart targets)).upstream =
        (chartResult num hash entities chart).upstream) : OneProvider chart := by
  have hnot : ∀ t ∈ chart.targets, ∀ name, .capability name ∈ t.depends → ∀ p ∈ chart.targets, ∀ q ∈ chart.targets,
      name ∈ p.name :: p.provides → name ∈ q.name :: q.provides → p.name ≠ t.name → p.name = q.name := by
    intro t ht name hdep p hp q hq hpn hqn hself
    by_contra hne
    obtain ⟨rest, hrest⟩ := exists_perm_two hp hq fun h => hne (h ▸ rfl)
    have hswap : (rest ++ [q, p]).Perm chart.targets :=
      ((List.Perm.swap p q []).append_left rest).trans hrest.symm
    have hsame := (hfree _ hrest.symm).trans (hfree _ hswap).symm
    rw [upstream_of_compiles (hcompiles _ hrest.symm), upstream_of_compiles (hcompiles _ hswap)] at hsame
    have hperm := Multiset.coe_eq_coe.mp (Option.some.inj hsame)
    have hmem := hperm.mem_iff.mp (List.mem_map_of_mem (hrest.mem_iff.mp ht))
    obtain ⟨t', ht', heq⟩ := List.mem_map.mp hmem
    obtain ⟨hname, hids⟩ := Prod.mk.inj heq
    have hnodup := (exists_compile_iff.mp (hcompiles _ hswap)).2.1
    obtain rfl := List.inj_on_of_nodup_map hnodup ht' (hswap.mem_iff.mpr ht) hname
    have hlt := count_lt chart rest hdep hpn hqn hne hself
    rw [hids] at hlt
    exact Nat.lt_irrefl _ hlt
  intro t ht name hdep p hp q hq hpn hqn
  by_cases hself : p.name = t.name
  · by_contra hne
    exact hne (hnot t ht name hdep q hq p hp hqn hpn fun h => hne (hself.trans h.symm)).symm
  · exact hnot t ht name hdep p hp q hq hpn hqn hself

def Compilable (num : Numbers N F) (entities : List (Entity N)) (chart : ChartDef F) : Prop :=
  (∀ target ∈ chart.targets, ∀ dep ∈ target.depends, Resolves num entities chart target dep) ∧
    (chart.targets.map ChartTarget.name).Nodup ∧ ∀ n, ¬Relation.TransGen (StageEdge chart) n n

theorem order_free_iff (num : Numbers N F) (hash : HashOrder Text) (entities : List (Entity N)) (chart : ChartDef F) :
    (∀ targets, targets.Perm chart.targets →
      chartResult num hash entities (reordered chart targets) = chartResult num hash entities chart) ↔
      ((∃ targets, targets.Perm chart.targets ∧ Compilable num entities (reordered chart targets)) →
        OneProvider chart) ∧ OneBinding num entities chart := by
  have hcompilable (targets : List (ChartTarget F)) : Compilable num entities (reordered chart targets) ↔
      ∃ out, compileChartStages num hash entities (reordered chart targets) = .ok out := exists_compile_iff.symm
  simp only [hcompilable]
  constructor
  · intro hfree
    have hupstream := fun targets hperm => congrArg ChartResult.upstream (hfree targets hperm)
    refine ⟨fun ⟨targets, hperm, hcompiles⟩ => oneProvider_of_free (fun targets' hperm' => ?_) hupstream,
      oneBinding_of_free fun targets hperm => congrArg ChartResult.entityMap (hfree targets hperm)⟩
    by_contra hfails
    have hsame := (hupstream targets hperm).trans (hupstream targets' hperm').symm
    rw [upstream_of_compiles hcompiles, upstream_of_not_compiles hfails] at hsame
    cases hsame
  · rintro ⟨hprovider, hbinding⟩ targets hperm
    have hself := List.Perm.refl chart.targets
    have hupstream : (chartResult num hash entities (reordered chart targets)).upstream =
        (chartResult num hash entities chart).upstream := by
      by_cases hsome : ∃ targets, targets.Perm chart.targets ∧
          ∃ out, compileChartStages num hash entities (reordered chart targets) = .ok out
      · have hone := hprovider hsome
        obtain ⟨targets', hperm', hcompiles'⟩ := hsome
        have hcompiles := (compiles_reordered hperm' (sameProviders_of_one hone hperm')).mp hcompiles'
        have hsame := sameProviders_of_one hone hperm
        rw [upstream_of_compiles hcompiles, upstream_of_compiles ((compiles_reordered hperm hsame).mpr hcompiles)]
        exact congrArg some (Multiset.coe_eq_coe.mpr (upstreams_reordered hperm hsame))
      · have hnone : (chartResult num hash entities chart).upstream = none :=
          upstream_of_not_compiles fun h => hsome ⟨chart.targets, hself, h⟩
        rw [upstream_of_not_compiles fun h => hsome ⟨targets, hperm, h⟩, hnone]
    have hsatisfied : (bindChart num entities (reordered chart targets)).satisfied =
        (bindChart num entities chart).satisfied :=
      Finset.ext fun x => (mem_satisfied hperm x).trans (mem_satisfied hself x).symm
    have hentities : (bindChart num entities (reordered chart targets)).entityMap =
        (bindChart num entities chart).entityMap := by
      refine Finmap.ext_lookup fun name => (lookup_entityMap hperm name).trans ?_
      refine Eq.trans ?_ (lookup_entityMap hself name).symm
      exact (lastOf_perm hperm.symm fun t ht u hu es es' hes hes' => hbinding t ht u hu name es es' hes hes').symm
    have hunmatched : (bindChart num entities (reordered chart targets)).unmatched.toFinset =
        (bindChart num entities chart).unmatched.toFinset := by
      refine Finset.ext fun name => ?_
      rw [List.mem_toFinset, List.mem_toFinset]
      exact mem_unmatched_reordered hperm name
    have hambiguous : (Multiset.ofList (bindChart num entities (reordered chart targets)).ambiguous) =
        Multiset.ofList (bindChart num entities chart).ambiguous := by
      rw [ambiguous_reordered hperm, show (bindChart num entities chart).ambiguous = _ from ambiguous_reordered hself]
      exact Multiset.coe_eq_coe.mpr (hperm.flatMap_right _)
    exact ChartResult.ext hupstream hsatisfied hentities hunmatched hambiguous

end Orders

def assetTarget : ChartTarget Unit := ⟨['a'], [['x']], [], ['p'], false, none⟩

def namedTarget : ChartTarget Unit := ⟨['x'], [['y']], [], ['p'], false, none⟩

def readerTarget : ChartTarget Unit := ⟨['c'], [], [.capability ['x']], ['p'], false, none⟩

def clashChart : ChartDef Unit := ⟨['k'], ['d'], 1, [assetTarget, namedTarget, readerTarget], none⟩

theorem clashChart_compiles [Debug Text] (num : Numbers Unit Unit) (hash : HashOrder Text)
    {targets : List (ChartTarget Unit)} (hperm : targets.Perm clashChart.targets) :
    ∃ out, compileChartStages num hash [] (reordered clashChart targets) = .ok out := by
  have hmem : ∀ t ∈ targets, t = assetTarget ∨ t = namedTarget ∨ t = readerTarget := by
    intro t ht
    simpa [clashChart] using hperm.mem_iff.mp ht
  refine exists_compile_iff.mpr ⟨fun t ht dep hdep => .inl ?_, (hperm.map _).nodup_iff.mpr (by decide), fun n hcycle => ?_⟩
  · rw [inGraphAssets_reordered hperm]
    rcases hmem t ht with rfl | rfl | rfl
    · cases hdep
    · cases hdep
    · rw [List.mem_singleton.mp hdep]
      decide
  · have hedge : ∀ p n, StageEdge (reordered clashChart targets) p n → n = ['c'] ∧ p ≠ ['c'] := by
      rintro p n ⟨t, ht, rfl, name, hdep, -, hne⟩
      rcases hmem t ht with rfl | rfl | rfl
      · cases hdep
      · cases hdep
      · exact ⟨rfl, hne⟩
    obtain ⟨_, -, hlast⟩ := Relation.TransGen.tail'_iff.mp hcycle
    obtain ⟨_, hfirst, -⟩ := Relation.TransGen.head'_iff.mp hcycle
    exact (hedge _ _ hfirst).2 (hedge _ _ hlast).1

open Plain

theorem clash_follows_order : clashChart.validate plainNumbers = .ok [] ∧
    ∀ hash : HashOrder Text,
      (chartResult plainNumbers hash [] clashChart).upstream =
        some (Multiset.ofList [(['a'], []), (['x'], []), (['c'], [['x']])]) ∧
      (chartResult plainNumbers hash [] (reordered clashChart [namedTarget, assetTarget, readerTarget])).upstream =
        some (Multiset.ofList [(['x'], []), (['a'], []), (['c'], [['a']])]) := by
  refine ⟨rfl, fun hash => ⟨?_, ?_⟩⟩
  · exact upstream_of_compiles (clashChart_compiles _ hash (.refl _))
  · exact upstream_of_compiles (clashChart_compiles _ hash (.swap ..))

end Fluent.Router.Charts
