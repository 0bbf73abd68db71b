import Fluent.Dag.Closure
import Fluent.Dag.KahnSort

namespace Fluent.Dag

open Fluent.Library Narrowing

structure ExecutionPlan where
  order : List ℕ
  targetNames : List String
  deriving DecidableEq, Repr

inductive ProviderSelection
  | all
  | narrowOne
  deriving DecidableEq, Repr

structure DependencyResolver where
  registry : TargetRegistry
  strict : Bool
  caps : Option CapabilityRegistry
  selection : ProviderSelection

/-- The orders in which one call enumerates its hash containers. The resolved set is larger in
every round, so one order serves the snapshots of all rounds. -/
structure HashOrders where
  closureSet : HashOrder ℕ
  snapshot : HashOrder ℕ
  resolvedSet : HashOrder ℕ
  needed : HashOrder ℕ
  inDegree : HashOrder ℕ

def HashOrders.ascending : HashOrders := ⟨.ascending, .ascending, .ascending, .ascending, .ascending⟩

structure NarrowState where
  resolved : Finset ℕ
  rejected : Finset ℕ
  narrowed : Finset ℕ
  changed : Bool
  deriving DecidableEq

def NarrowState.start (seeds : List ℕ) : NarrowState := ⟨seeds.toFinset, ∅, ∅, true⟩

def NarrowState.adopt (st : NarrowState) (bit : ℕ) : NarrowState :=
  { st with resolved := insert bit st.resolved, changed := st.changed || bit ∉ st.resolved }

def losers (providers : List Target) (winner : Target) : Finset ℕ :=
  ((providers.filter (·.id ≠ winner.id)).map Target.bitIdx).toFinset

def NarrowState.settle (st : NarrowState) (cap : ℕ) (providers : List Target) (winner : Target) :
    NarrowState :=
  { st.adopt winner.bitIdx with
    rejected := st.rejected ∪ losers providers winner
    narrowed := insert cap st.narrowed }

def TargetRegistry.fullProvides (registry : TargetRegistry) (targetSet : Finset ℕ) : Finset ℕ :=
  targetSet.biUnion fun bit =>
    ((registry.getByBitIndex bit).map (·.provides.iterOnes.toFinset)).getD ∅

namespace DependencyResolver

def new (registry : TargetRegistry) : DependencyResolver := ⟨registry, true, none, .all⟩

def withNarrowing (registry : TargetRegistry) (caps : CapabilityRegistry) : DependencyResolver :=
  ⟨registry, true, some caps, .narrowOne⟩

def withStrict (r : DependencyResolver) (strict : Bool) : DependencyResolver := { r with strict := strict }

def withSelection (r : DependencyResolver) (selection : ProviderSelection) : DependencyResolver :=
  { r with selection := selection }

variable (r : DependencyResolver)

def incoming (needed : Finset ℕ) (bit : ℕ) : Except ResolverError (List (ℕ × ℕ)) :=
  match r.registry.getByBitIndex bit with
  | none => .error (.targetNotFound ("bit_index " ++ toString bit))
  | some target => .ok ((target.depends.iterOnes.flatMap fun cap =>
      ((r.registry.getProviders cap).map Target.bitIdx).filter
        (fun provider => provider ∈ needed ∧ provider ≠ bit)).map (·, bit))

def nameOf (bit : ℕ) : String :=
  ((r.registry.getByBitIndex bit).map Target.name).getD ("bit_" ++ toString bit)

def planFromSet (hash : HashOrders) (needed : Finset ℕ) : Except ResolverError ExecutionPlan := do
  let nodes := hash.needed.iter needed
  let edges ← collect (r.incoming needed) nodes
  let tables := edgeTables nodes edges
  match kahnSort hash.inDegree tables.2 tables.1 needed.card with
  | .error _ => .error .circularDependency
  | .ok order => .ok ⟨order, order.map r.nameOf⟩

def resolveAll (hash : HashOrders) (seeds : List ℕ) : Except ResolverError ExecutionPlan := do
  let needed ← ClosureCtx.transitiveClosure ⟨r.registry, none, r.strict⟩ seeds none none
  r.planFromSet hash needed

section Narrowing

variable (caps : CapabilityRegistry) (fullProvides : Finset ℕ)

def implicit (cap : ℕ) : Option Target := (caps.getName cap).bind r.registry.get

def requireCap (target : Target) (st : NarrowState) (cap : ℕ) : Except ResolverError NarrowState :=
  if cap ∈ st.narrowed ∨ cap ∈ fullProvides then .ok st
  else
    match r.registry.getProviders cap with
    | [] =>
      match r.implicit caps cap with
      | some implicit => .ok (st.adopt implicit.bitIdx)
      | none =>
        if r.strict then .error (missingProviderError (some caps) cap target.name) else .ok st
    | [provider] => .ok (st.adopt provider.bitIdx)
    | provider :: providers =>
      match narrowProviders (provider :: providers) fullProvides with
      | [] => .error (missingProviderError (some caps) cap target.name)
      | [winner] => .ok (st.settle cap (provider :: providers) winner)
      | narrowed => .error (ambiguousError (some caps) cap narrowed)

def requireDepends (target : Target) (st : NarrowState) : Except ResolverError NarrowState :=
  if target.depends.notAny || target.depends.iterOnes.all (· ∈ fullProvides) then .ok st
  else target.depends.iterOnes.foldlM (r.requireCap caps fullProvides target) st

def selfProvide (target : Target) (st : NarrowState) : Except ResolverError NarrowState :=
  match caps.getIndex target.name with
  | none => .ok st
  | some cap =>
    if cap ∈ st.narrowed then .ok st
    else if 1 < (r.registry.getProviders cap).length then
      match narrowProviders (r.registry.getProviders cap) fullProvides with
      | [] => .ok { st with narrowed := insert cap st.narrowed }
      | [winner] => .ok (st.settle cap (r.registry.getProviders cap) winner)
      | narrowed => .error (ambiguousError (some caps) cap narrowed)
    else .ok st

def selfProvides (target : Target) : Bool := target.targetType = .abstract || target.depends.notAny

def narrowTarget (st : NarrowState) (bit : ℕ) : Except ResolverError NarrowState :=
  match r.registry.getByBitIndex bit with
  | none => .error (.targetNotFound ("bit_index " ++ toString bit))
  | some target => do
    let st ← r.requireDepends caps fullProvides target st
    if selfProvides target then r.selfProvide caps fullProvides target st else .ok st

def narrowRound (hash : HashOrders) (st : NarrowState) : Except ResolverError NarrowState :=
  (hash.snapshot.iter st.resolved).foldlM
    (r.narrowTarget caps (r.registry.fullProvides st.resolved)) { st with changed := false }

end Narrowing

structure Grows (st st' : NarrowState) : Prop where
  mono : st.resolved ⊆ st'.resolved
  fresh : st'.changed → st.changed ∨ ∃ bit ∈ r.registry.bits, bit ∉ st.resolved ∧ bit ∈ st'.resolved

variable {r} {caps : CapabilityRegistry} {fullProvides : Finset ℕ}

theorem Grows.refl (st : NarrowState) : r.Grows st st := ⟨Finset.Subset.refl _, Or.inl⟩

theorem Grows.trans {st st' st'' : NarrowState} (h : r.Grows st st') (h' : r.Grows st' st'') :
    r.Grows st st'' := by
  refine ⟨Finset.Subset.trans h.mono h'.mono, fun hc => ?_⟩
  rcases h'.fresh hc with hc | ⟨bit, hbit, hout, hin⟩
  · rcases h.fresh hc with hc | ⟨bit, hbit, hout, hin⟩
    · exact Or.inl hc
    · exact Or.inr ⟨bit, hbit, hout, h'.mono hin⟩
  · exact Or.inr ⟨bit, hbit, fun hm => hout (h.mono hm), hin⟩

theorem grows_adopt (st : NarrowState) {bit : ℕ} (hbit : bit ∈ r.registry.bits) :
    r.Grows st (st.adopt bit) := by
  refine ⟨Finset.subset_insert _ _, fun hc => ?_⟩
  simp only [NarrowState.adopt, Bool.or_eq_true, decide_eq_true_eq] at hc
  rcases hc with hc | hout
  · exact Or.inl hc
  · exact Or.inr ⟨bit, hbit, hout, Finset.mem_insert_self _ _⟩

theorem grows_settle (st : NarrowState) (cap : ℕ) (providers : List Target) {winner : Target}
    (hbit : winner.bitIdx ∈ r.registry.bits) : r.Grows st (st.settle cap providers winner) := by
  obtain ⟨hmono, hfresh⟩ := grows_adopt st hbit
  exact ⟨hmono, hfresh⟩

theorem bits_of_mem_getProviders {cap : ℕ} {p : Target} (h : p ∈ r.registry.getProviders cap) :
    p.bitIdx ∈ r.registry.bits :=
  (r.registry.mem_bits _).mpr ⟨p, TargetRegistry.mem_getProviders h⟩

theorem bits_of_implicit {cap : ℕ} {p : Target} (h : r.implicit caps cap = some p) :
    p.bitIdx ∈ r.registry.bits := by
  obtain ⟨name, -, hget⟩ := Option.bind_eq_some_iff.mp h
  obtain ⟨hmem, -⟩ := (r.registry.get_eq_some_iff name p).mp hget
  exact (r.registry.mem_bits _).mpr (TargetRegistry.exists_getByBitIndex hmem)

theorem winner_mem {providers : List Target} {winner : Target} (h : providers ≠ [])
    (hw : narrowProviders providers fullProvides = [winner]) : winner ∈ providers :=
  (narrowProviders_spec h fullProvides).2 (hw ▸ List.mem_singleton_self winner)

theorem grows_requireCap {target : Target} {st st' : NarrowState} {cap : ℕ}
    (h : r.requireCap caps fullProvides target st cap = .ok st') : r.Grows st st' := by
  unfold requireCap at h
  split at h
  · obtain rfl := Except.ok.inj h
    exact .refl st
  · split at h
    · split at h
      · next p himp =>
        obtain rfl := Except.ok.inj h
        exact grows_adopt st (bits_of_implicit himp)
      · split at h
        · simp at h
        · obtain rfl := Except.ok.inj h
          exact .refl st
    · next p hp =>
      obtain rfl := Except.ok.inj h
      exact grows_adopt st (bits_of_mem_getProviders (hp ▸ List.mem_singleton_self p))
    · next p ps _ hps =>
      split at h
      · simp at h
      · next w hw =>
        obtain rfl := Except.ok.inj h
        have hmem : w ∈ r.registry.getProviders cap := by
          rw [hps]
          exact winner_mem (List.cons_ne_nil p ps) hw
        exact grows_settle st cap _ (bits_of_mem_getProviders hmem)
      · simp at h

theorem grows_selfProvide {target : Target} {st st' : NarrowState}
    (h : r.selfProvide caps fullProvides target st = .ok st') : r.Grows st st' := by
  unfold selfProvide at h
  split at h
  · obtain rfl := Except.ok.inj h
    exact .refl st
  · next cap _ =>
    split_ifs at h with _ hlen
    · obtain rfl := Except.ok.inj h
      exact .refl st
    · split at h
      · obtain rfl := Except.ok.inj h
        exact ⟨Finset.Subset.refl _, Or.inl⟩
      · next w hw =>
        obtain rfl := Except.ok.inj h
        have hmem : w ∈ r.registry.getProviders cap := by
          apply winner_mem _ hw
          intro hnil
          simp [hnil] at hlen
        exact grows_settle st cap _ (bits_of_mem_getProviders hmem)
      · simp at h
    · obtain rfl := Except.ok.inj h
      exact .refl st

theorem grows_narrowTarget {st st' : NarrowState} {bit : ℕ}
    (h : r.narrowTarget caps fullProvides st bit = .ok st') : r.Grows st st' := by
  unfold narrowTarget at h
  split at h
  · simp at h
  · obtain ⟨mid, hmid, h⟩ := bind_ok h
    have hdeps : r.Grows st mid := by
      unfold requireDepends at hmid
      split_ifs at hmid
      · obtain rfl := Except.ok.inj hmid
        exact .refl st
      · exact foldlM_rel Grows.refl (fun _ _ _ => Grows.trans) (fun _ _ _ => grows_requireCap) hmid
    split_ifs at h
    · exact hdeps.trans (grows_selfProvide h)
    · obtain rfl := Except.ok.inj h
      exact hdeps

theorem grows_narrowRound {hash : HashOrders} {st st' : NarrowState}
    (h : r.narrowRound caps hash st = .ok st') : r.Grows { st with changed := false } st' :=
  foldlM_rel Grows.refl (fun _ _ _ => Grows.trans) (fun _ _ _ => grows_narrowTarget) h

theorem narrowRound_measure {hash : HashOrders} {st st' : NarrowState}
    (h : r.narrowRound caps hash st = .ok st') (hc : st'.changed) :
    (r.registry.bits \ st'.resolved).card < (r.registry.bits \ st.resolved).card := by
  obtain ⟨hmono, hfresh⟩ := grows_narrowRound h
  rcases hfresh hc with hfalse | ⟨bit, hbit, hout, hin⟩
  · simp at hfalse
  · apply Finset.card_lt_card
    apply Finset.ssubset_iff_subset_ne.mpr
    refine ⟨Finset.sdiff_subset_sdiff (Finset.Subset.refl _) hmono, fun heq => ?_⟩
    have hmem : bit ∈ r.registry.bits \ st'.resolved := heq ▸ Finset.mem_sdiff.mpr ⟨hbit, hout⟩
    exact (Finset.mem_sdiff.mp hmem).2 hin

variable (r) (caps)

def narrowLoop (hash : HashOrders) (st : NarrowState) : Except ResolverError NarrowState :=
  match _h : r.narrowRound caps hash st with
  | .error e => .error e
  | .ok st' => if _hc : st'.changed then narrowLoop hash st' else .ok st'
  termination_by (r.registry.bits \ st.resolved).card
  decreasing_by exact narrowRound_measure _h _hc

def narrowSelection (hash : HashOrders) (seeds : List ℕ) : Except ResolverError (Finset ℕ) := do
  let st ← r.narrowLoop caps hash (.start seeds)
  let expansion ← ClosureCtx.transitiveClosure ⟨r.registry, some caps, r.strict⟩
    (hash.resolvedSet.iter st.resolved) (some (r.registry.fullProvides st.resolved)) (some st.rejected)
  return st.resolved ∪ expansion

def narrowAndPlan (hash : HashOrders) (seeds : List ℕ) : Except ResolverError ExecutionPlan := do
  let combined ← r.narrowSelection caps hash seeds
  r.planFromSet hash combined

def hasAbstractSeed (names : List String) : Bool :=
  names.any fun name => (r.registry.get name).any (·.targetType = .abstract)

def multiProvider (bit : ℕ) : Bool :=
  (r.registry.getByBitIndex bit).any fun target =>
    target.depends.iterOnes.any fun cap => 1 < (r.registry.getProviders cap).length

def resolveNarrowOne (hash : HashOrders) (seeds : List ℕ) (names : List String) :
    Except ResolverError ExecutionPlan := do
  let closureSet ← ClosureCtx.transitiveClosure ⟨r.registry, some caps, r.strict⟩ seeds none none
  if !r.hasAbstractSeed names && !(hash.closureSet.iter closureSet).any r.multiProvider then
    r.resolveAll hash seeds
  else r.narrowAndPlan caps hash seeds

def seedBits (names : List String) : Except ResolverError (List ℕ) :=
  collect (fun name => match r.registry.get name with
    | some target => .ok [target.bitIdx]
    | none => .error (.targetNotFound name)) names

def resolve (hash : HashOrders) (names : List String) : Except ResolverError ExecutionPlan :=
  if names = [] then .ok ⟨[], []⟩
  else do
    let seeds ← r.seedBits names
    match r.selection with
    | .all => r.resolveAll hash seeds
    | .narrowOne =>
      match r.caps with
      | none => .error (.missingDependency "NarrowOne requires a CapabilityRegistry")
      | some caps => r.resolveNarrowOne caps hash seeds names

end DependencyResolver

end Fluent.Dag
