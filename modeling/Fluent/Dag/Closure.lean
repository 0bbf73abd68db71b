import Fluent.Dag.Narrowing
import Fluent.Library.Fallible
import Fluent.Library.Worklist

namespace Fluent.Dag

open Fluent.Library Narrowing

structure ClosureCtx where
  registry : TargetRegistry
  caps : Option CapabilityRegistry
  strict : Bool

namespace ClosureCtx

variable (ctx : ClosureCtx)

def implicit (cap : ℕ) : Option Target :=
  (ctx.caps.bind (·.getName cap)).bind ctx.registry.get

def unlessRejected (rejected : Option (Finset ℕ)) (bits : List ℕ) : List ℕ :=
  bits.filter (fun bit => !rejected.any (bit ∈ ·))

def required (satisfied rejected : Option (Finset ℕ)) (target : Target) (cap : ℕ) :
    Except ResolverError (List ℕ) :=
  if satisfied.any (cap ∈ ·) then .ok []
  else
    match ctx.registry.getProviders cap with
    | [] =>
      match ctx.implicit cap with
      | some implicit => .ok (unlessRejected rejected [implicit.bitIdx])
      | none =>
        if ctx.strict then .error (missingProviderError ctx.caps cap target.name) else .ok []
    | provider :: providers => .ok (unlessRejected rejected ((provider :: providers).map Target.bitIdx))

def visit (satisfied rejected : Option (Finset ℕ)) (bit : ℕ) : Except ResolverError (List ℕ) :=
  match ctx.registry.getByBitIndex bit with
  | none => .error (.targetNotFound ("bit_index " ++ toString bit))
  | some target => collect (ctx.required satisfied rejected target) target.depends.iterOnes

def walk (satisfied rejected : Option (Finset ℕ)) : Expansion ℕ ResolverError where
  expand := ctx.visit satisfied rejected
  nodes := ctx.registry.bits
  known bit bits h := by
    unfold visit at h
    cases hb : ctx.registry.getByBitIndex bit with
    | none => simp [hb] at h
    | some target => exact (ctx.registry.mem_bits bit).mpr ⟨target, hb⟩

def transitiveClosure (seeds : List ℕ) (satisfied rejected : Option (Finset ℕ)) :
    Except ResolverError (Finset ℕ) :=
  (ctx.walk satisfied rejected).explore seeds.reverse ∅

def Asks (cap bit : ℕ) : Prop :=
  (∃ p ∈ ctx.registry.getProviders cap, p.bitIdx = bit) ∨
    ctx.registry.getProviders cap = [] ∧ ∃ p, ctx.implicit cap = some p ∧ p.bitIdx = bit

variable {ctx} {satisfied rejected : Option (Finset ℕ)}

theorem transitiveClosure_congr {seeds seeds' : List ℕ} (h : ∀ bit, bit ∈ seeds ↔ bit ∈ seeds') :
    (ctx.transitiveClosure seeds satisfied rejected).toOption =
      (ctx.transitiveClosure seeds' satisfied rejected).toOption := by
  apply Expansion.explore_congr
  intro bit
  rw [List.mem_reverse, List.mem_reverse, h]

theorem mem_transitiveClosure {seeds : List ℕ} {result : Finset ℕ}
    (h : ctx.transitiveClosure seeds satisfied rejected = .ok result) (bit : ℕ) :
    (bit ∈ result ↔ (ctx.walk satisfied rejected).Reach seeds bit) ∧
      (bit ∈ result → ∃ bits, ctx.visit satisfied rejected bit = .ok bits) :=
  Expansion.explore_ok (fun _ => List.mem_reverse) h bit

theorem seeds_subset {seeds : List ℕ} {result : Finset ℕ}
    (h : ctx.transitiveClosure seeds satisfied rejected = .ok result) : ∀ bit ∈ seeds, bit ∈ result :=
  fun bit hbit => (mem_transitiveClosure h bit).1.mpr (.seed hbit)

theorem visit_ok {bit : ℕ} {bits : List ℕ} (h : ctx.visit satisfied rejected bit = .ok bits) :
    ∃ target, ctx.registry.getByBitIndex bit = some target ∧
      (∀ cap ∈ target.depends.iterOnes, ∃ bs, ctx.required satisfied rejected target cap = .ok bs) ∧
      ∀ b, b ∈ bits ↔ ∃ cap ∈ target.depends.iterOnes, ∃ bs,
        ctx.required satisfied rejected target cap = .ok bs ∧ b ∈ bs := by
  unfold visit at h
  cases hb : ctx.registry.getByBitIndex bit with
  | none => simp [hb] at h
  | some target =>
    rw [hb] at h
    exact ⟨target, rfl, collect_ok h⟩

theorem mem_required {target : Target} {cap bit : ℕ} {bits : List ℕ}
    (h : ctx.required satisfied rejected target cap = .ok bits) (hb : bit ∈ bits) :
    satisfied.any (cap ∈ ·) = false ∧ ctx.Asks cap bit := by
  unfold required at h
  by_cases hsat : satisfied.any (cap ∈ ·)
  · rw [if_pos hsat] at h
    obtain rfl := Except.ok.inj h
    simp at hb
  · rw [if_neg hsat] at h
    refine ⟨by simpa using hsat, ?_⟩
    cases hp : ctx.registry.getProviders cap with
    | cons p ps =>
      simp only [hp] at h
      obtain rfl := Except.ok.inj h
      obtain ⟨q, hq, rfl⟩ := List.mem_map.mp (List.mem_filter.mp hb).1
      exact Or.inl ⟨q, hp ▸ hq, rfl⟩
    | nil =>
      simp only [hp] at h
      cases himp : ctx.implicit cap with
      | some p =>
        simp only [himp] at h
        obtain rfl := Except.ok.inj h
        exact Or.inr ⟨hp, p, himp, (List.mem_singleton.mp (List.mem_filter.mp hb).1).symm⟩
      | none =>
        simp only [himp] at h
        split_ifs at h
        obtain rfl := Except.ok.inj h
        simp at hb

theorem mem_visit {bit next : ℕ} {bits : List ℕ} (h : ctx.visit satisfied rejected bit = .ok bits)
    (hn : next ∈ bits) : ∃ target, ctx.registry.getByBitIndex bit = some target ∧
      ∃ cap ∈ target.depends.iterOnes, satisfied.any (cap ∈ ·) = false ∧ ctx.Asks cap next := by
  obtain ⟨target, ht, -, hbits⟩ := visit_ok h
  obtain ⟨cap, hcap, bs, hreq, hnb⟩ := (hbits next).mp hn
  exact ⟨target, ht, cap, hcap, mem_required hreq hnb⟩

theorem mem_of_visit {seeds : List ℕ} {result : Finset ℕ}
    (h : ctx.transitiveClosure seeds satisfied rejected = .ok result) {bit : ℕ} (hbit : bit ∈ result)
    {bits : List ℕ} (hv : ctx.visit satisfied rejected bit = .ok bits) : ∀ b ∈ bits, b ∈ result :=
  fun b hb => (mem_transitiveClosure h b).1.mpr (.step ((mem_transitiveClosure h bit).1.mp hbit) hv hb)

theorem required_providers (target : Target) {cap : ℕ} (h : ctx.registry.getProviders cap ≠ []) :
    ctx.required none none target cap = .ok ((ctx.registry.getProviders cap).map Target.bitIdx) := by
  cases hp : ctx.registry.getProviders cap with
  | nil => exact absurd hp h
  | cons p ps => simp [required, hp, unlessRejected]

theorem required_implicit (target : Target) {p : Target} {cap : ℕ} (h : ctx.registry.getProviders cap = [])
    (hp : ctx.implicit cap = some p) : ctx.required none none target cap = .ok [p.bitIdx] := by
  simp [required, h, hp, unlessRejected]

theorem required_unmatched (target : Target) {cap : ℕ} (h : ctx.registry.getProviders cap = [])
    (hp : ctx.implicit cap = none) : ctx.required none none target cap =
      if ctx.strict then .error (missingProviderError ctx.caps cap target.name) else .ok [] := by
  simp [required, h, hp]

theorem transitiveClosure_registered {seeds : List ℕ} {result : Finset ℕ}
    (h : ctx.transitiveClosure seeds satisfied rejected = .ok result) {bit : ℕ} (hbit : bit ∈ result) :
    ∃ target, ctx.registry.getByBitIndex bit = some target := by
  obtain ⟨bits, hv⟩ := (mem_transitiveClosure h bit).2 hbit
  obtain ⟨target, ht, -⟩ := visit_ok hv
  exact ⟨target, ht⟩

theorem transitiveClosure_met {seeds : List ℕ} {result : Finset ℕ}
    (h : ctx.transitiveClosure seeds none none = .ok result) {bit cap : ℕ} {target : Target}
    (hbit : bit ∈ result) (ht : ctx.registry.getByBitIndex bit = some target)
    (hcap : cap ∈ target.depends.iterOnes) :
    (∀ p ∈ ctx.registry.getProviders cap, p.bitIdx ∈ result) ∧
      (ctx.registry.getProviders cap = [] → (∃ p, ctx.implicit cap = some p ∧ p.bitIdx ∈ result) ∨
        ctx.implicit cap = none ∧ ¬ctx.strict) := by
  obtain ⟨bits, hv⟩ := (mem_transitiveClosure h bit).2 hbit
  have hmem := mem_of_visit h hbit hv
  obtain ⟨target', ht', hall, hbits⟩ := visit_ok hv
  obtain rfl : target' = target := Option.some.inj (ht'.symm.trans ht)
  refine ⟨fun p hp => ?_, fun hnil => ?_⟩
  · have hreq := required_providers target' (List.ne_nil_of_mem hp)
    exact hmem _ ((hbits _).mpr ⟨cap, hcap, _, hreq, List.mem_map.mpr ⟨p, hp, rfl⟩⟩)
  · cases himp : ctx.implicit cap with
    | some p =>
      have hreq := required_implicit target' hnil himp
      exact Or.inl ⟨p, rfl, hmem _ ((hbits _).mpr ⟨cap, hcap, _, hreq, List.mem_singleton_self _⟩)⟩
    | none =>
      refine Or.inr ⟨rfl, fun hs => ?_⟩
      obtain ⟨bs, hreq⟩ := hall cap hcap
      rw [required_unmatched target' hnil himp, if_pos hs] at hreq
      simp at hreq

end ClosureCtx

end Fluent.Dag
