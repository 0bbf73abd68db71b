import Fluent.Dag.Resolver

namespace Fluent.Dag

open Fluent.Library Narrowing

namespace NarrowState

theorem ext_fields {s t : NarrowState} (h₁ : s.resolved = t.resolved) (h₂ : s.rejected = t.rejected)
    (h₃ : s.narrowed = t.narrowed) (h₄ : s.changed = t.changed) : s = t := by
  cases s
  cases t
  simp_all

instance : PartialOrder NarrowState where
  le s t := s.resolved ⊆ t.resolved ∧ s.rejected ⊆ t.rejected ∧ s.narrowed ⊆ t.narrowed ∧
    (s.changed → t.changed)
  le_refl _ := ⟨Finset.Subset.refl _, Finset.Subset.refl _, Finset.Subset.refl _, fun h => h⟩
  le_trans _ _ _ h k := ⟨Finset.Subset.trans h.1 k.1, Finset.Subset.trans h.2.1 k.2.1,
    Finset.Subset.trans h.2.2.1 k.2.2.1, fun hc => k.2.2.2 (h.2.2.2 hc)⟩
  le_antisymm _ _ h k := ext_fields (Finset.Subset.antisymm h.1 k.1) (Finset.Subset.antisymm h.2.1 k.2.1)
    (Finset.Subset.antisymm h.2.2.1 k.2.2.1) (Bool.eq_iff_iff.mpr ⟨h.2.2.2, k.2.2.2⟩)

instance : SemilatticeSup NarrowState where
  sup s t := ⟨s.resolved ∪ t.resolved, s.rejected ∪ t.rejected, s.narrowed ∪ t.narrowed,
    s.changed || t.changed⟩
  le_sup_left s t := ⟨Finset.subset_union_left, Finset.subset_union_left, Finset.subset_union_left,
    fun h => by simp [h]⟩
  le_sup_right s t := ⟨Finset.subset_union_right, Finset.subset_union_right, Finset.subset_union_right,
    fun h => by simp [h]⟩
  sup_le s t u h k := ⟨Finset.union_subset h.1 k.1, Finset.union_subset h.2.1 k.2.1,
    Finset.union_subset h.2.2.1 k.2.2.1, fun hc => (Bool.or_eq_true_iff.mp hc).elim h.2.2.2 k.2.2.2⟩

def unchanged : NarrowState := ⟨∅, ∅, ∅, false⟩

theorem sup_unchanged (s : NarrowState) : s ⊔ unchanged = s := by
  apply sup_eq_left.mpr
  exact ⟨Finset.empty_subset _, Finset.empty_subset _, Finset.empty_subset _, fun h => nomatch h⟩

end NarrowState

namespace DependencyResolver

variable (r : DependencyResolver) (caps : CapabilityRegistry)

inductive Demand
  | absent (bit : ℕ)
  | dep (target : Target) (cap : ℕ)
  | own (target : Target)

def demandsOf (bit : ℕ) : List Demand :=
  match r.registry.getByBitIndex bit with
  | none => [.absent bit]
  | some target => target.depends.iterOnes.map (.dep target) ++
      if selfProvides target then [.own target] else []

def meet (fullProvides : Finset ℕ) (st : NarrowState) : Demand → Except ResolverError NarrowState
  | .absent bit => .error (.targetNotFound ("bit_index " ++ toString bit))
  | .dep target cap => r.requireCap caps fullProvides target st cap
  | .own target => r.selfProvide caps fullProvides target st

variable {r caps} {fullProvides : Finset ℕ}

theorem requireCap_skip {target : Target} {st : NarrowState} {cap : ℕ}
    (h : cap ∈ st.narrowed ∨ cap ∈ fullProvides) :
    r.requireCap caps fullProvides target st cap = .ok st := by
  unfold requireCap
  rw [if_pos h]

theorem foldlM_requireCap_skip {target : Target} {st : NarrowState} {deps : List ℕ}
    (h : ∀ cap ∈ deps, cap ∈ fullProvides) :
    deps.foldlM (r.requireCap caps fullProvides target) st = .ok st := by
  induction deps with
  | nil => rfl
  | cons cap deps ih =>
    obtain ⟨hcap, hdeps⟩ := List.forall_mem_cons.mp h
    rw [List.foldlM_cons, requireCap_skip (Or.inr hcap)]
    exact ih hdeps

theorem requireDepends_eq (target : Target) (st : NarrowState) :
    r.requireDepends caps fullProvides target st =
      target.depends.iterOnes.foldlM (r.requireCap caps fullProvides target) st := by
  unfold requireDepends
  split_ifs with h
  · rw [foldlM_requireCap_skip]
    intro cap hcap
    rcases Bool.or_eq_true_iff.mp h with h | h
    · rw [(Bits.notAny_iff _).mp h] at hcap
      simp at hcap
    · simpa using List.all_eq_true.mp h cap hcap
  · rfl

theorem narrowTarget_eq (st : NarrowState) (bit : ℕ) : r.narrowTarget caps fullProvides st bit =
    (r.demandsOf bit).foldlM (r.meet caps fullProvides) st := by
  unfold narrowTarget demandsOf
  cases r.registry.getByBitIndex bit with
  | none => rfl
  | some target =>
    simp only [List.foldlM_append, List.foldlM_map, requireDepends_eq]
    refine bind_congr fun st => ?_
    cases selfProvides target with
    | false => rfl
    | true => exact (bind_pure _).symm

theorem foldlM_narrowTarget (bits : List ℕ) (st : NarrowState) :
    bits.foldlM (r.narrowTarget caps fullProvides) st =
      (bits.flatMap r.demandsOf).foldlM (r.meet caps fullProvides) st := by
  induction bits generalizing st with
  | nil => rfl
  | cons bit bits ih =>
    rw [List.foldlM_cons, List.flatMap_cons, List.foldlM_append, narrowTarget_eq]
    congr 1
    funext st
    exact ih st

section Contributions

variable (r) (caps) (base : NarrowState)

def adoption (bit : ℕ) : NarrowState := ⟨{bit}, ∅, ∅, bit ∉ base.resolved⟩

def verdict (cap : ℕ) : List Target :=
  narrowProviders (r.registry.getProviders cap) (r.registry.fullProvides base.resolved)

def decision (cap : ℕ) (winner : Target) : NarrowState :=
  ⟨{winner.bitIdx}, losers (r.registry.getProviders cap) winner, {cap}, winner.bitIdx ∉ base.resolved⟩

def Contested (cap : ℕ) : Prop := 1 < (r.registry.getProviders cap).length

def Undecided (cap : ℕ) : Prop := cap ∉ base.narrowed ∧ ∀ winner, r.verdict base cap ≠ [winner]

def Unmatched (cap : ℕ) : Prop :=
  r.registry.getProviders cap = [] ∧ r.implicit caps cap = none ∧ r.strict

def Fails : Demand → Prop
  | .absent _ => True
  | .dep _ cap => cap ∉ r.registry.fullProvides base.resolved ∧
      (r.Unmatched caps cap ∨ r.Contested cap ∧ r.Undecided base cap)
  | .own target => ∃ cap, caps.getIndex target.name = some cap ∧ r.Contested cap ∧ r.Undecided base cap

def contestGain (cap : ℕ) : NarrowState :=
  if cap ∈ base.narrowed then .unchanged
  else
    match r.verdict base cap with
    | [winner] => r.decision base cap winner
    | _ => .unchanged

def depGain (cap : ℕ) : NarrowState :=
  if cap ∈ r.registry.fullProvides base.resolved then .unchanged
  else
    match r.registry.getProviders cap with
    | [] => ((r.implicit caps cap).map fun p => adoption base p.bitIdx).getD .unchanged
    | [provider] => adoption base provider.bitIdx
    | _ => r.contestGain base cap

def gain : Demand → NarrowState
  | .absent _ => .unchanged
  | .dep _ cap => r.depGain caps base cap
  | .own target =>
    match caps.getIndex target.name with
    | none => .unchanged
    | some cap => if 1 < (r.registry.getProviders cap).length then r.contestGain base cap else .unchanged

structure InRound (st : NarrowState) : Prop where
  resolved : base.resolved ⊆ st.resolved
  narrowed : base.narrowed ⊆ st.narrowed
  changed : ∀ bit ∈ st.resolved, bit ∉ base.resolved → st.changed
  contested : ∀ cap ∈ st.narrowed, r.Contested cap
  decided : ∀ cap ∈ st.narrowed, cap ∉ base.narrowed →
    ∃ winner, r.verdict base cap = [winner] ∧ r.decision base cap winner ≤ st

end Contributions

variable {base st : NarrowState}

theorem inRound_start (h : ∀ cap ∈ st.narrowed, r.Contested cap) :
    r.InRound st { st with changed := false } :=
  ⟨Finset.Subset.refl _, Finset.Subset.refl _, fun _ hb hn => absurd hb hn, h, fun _ hc hn => absurd hc hn⟩

theorem InRound.adopt_changed (h : r.InRound base st) (bit : ℕ) :
    (st.changed || decide (bit ∉ st.resolved)) = (st.changed || decide (bit ∉ base.resolved)) := by
  by_cases hst : bit ∈ st.resolved
  · by_cases hbase : bit ∈ base.resolved
    · simp [hst, hbase]
    · simp [h.changed bit hst hbase]
  · have hbase : bit ∉ base.resolved := fun hb => hst (h.resolved hb)
    simp [hst, hbase]

theorem InRound.adopt_eq (h : r.InRound base st) (bit : ℕ) : st.adopt bit = st ⊔ adoption base bit := by
  apply NarrowState.ext_fields
  · exact Finset.union_comm {bit} st.resolved
  · exact (Finset.union_empty _).symm
  · exact (Finset.union_empty _).symm
  · exact h.adopt_changed bit

theorem InRound.settle_eq (h : r.InRound base st) (cap : ℕ) (winner : Target) :
    st.settle cap (r.registry.getProviders cap) winner = st ⊔ r.decision base cap winner := by
  apply NarrowState.ext_fields
  · exact Finset.union_comm {winner.bitIdx} st.resolved
  · rfl
  · exact Finset.union_comm {cap} st.narrowed
  · exact h.adopt_changed winner.bitIdx

theorem InRound.sup (h : r.InRound base st) {bit : ℕ} {gained : NarrowState}
    (hres : gained.resolved = {bit}) (hch : gained.changed = decide (bit ∉ base.resolved))
    (hnar : ∀ cap ∈ gained.narrowed, r.Contested cap ∧
      ∃ winner, r.verdict base cap = [winner] ∧ r.decision base cap winner ≤ gained) :
    r.InRound base (st ⊔ gained) := by
  refine ⟨Finset.Subset.trans h.resolved Finset.subset_union_left,
    Finset.Subset.trans h.narrowed Finset.subset_union_left, fun b hb hout => ?_, fun cap hcap => ?_,
    fun cap hcap hout => ?_⟩
  · rcases Finset.mem_union.mp hb with hb | hb
    · exact Bool.or_eq_true_iff.mpr (Or.inl (h.changed b hb hout))
    · rw [hres, Finset.mem_singleton] at hb
      subst hb
      exact Bool.or_eq_true_iff.mpr (Or.inr (by rw [hch]; exact decide_eq_true hout))
  · rcases Finset.mem_union.mp hcap with hcap | hcap
    · exact h.contested cap hcap
    · exact (hnar cap hcap).1
  · rcases Finset.mem_union.mp hcap with hcap | hcap
    · obtain ⟨winner, hv, hle⟩ := h.decided cap hcap hout
      exact ⟨winner, hv, hle.trans le_sup_left⟩
    · obtain ⟨-, winner, hv, hle⟩ := hnar cap hcap
      exact ⟨winner, hv, hle.trans le_sup_right⟩

theorem InRound.sup_adoption (h : r.InRound base st) (bit : ℕ) : r.InRound base (st ⊔ adoption base bit) :=
  h.sup rfl rfl (by simp [adoption])

theorem InRound.sup_decision (h : r.InRound base st) {cap : ℕ} {winner : Target} (hc : r.Contested cap)
    (hv : r.verdict base cap = [winner]) : r.InRound base (st ⊔ r.decision base cap winner) := by
  refine h.sup rfl rfl fun cap' hcap' => ?_
  obtain rfl := Finset.mem_singleton.mp hcap'
  exact ⟨hc, winner, hv, le_refl _⟩

theorem InRound.not_undecided (h : r.InRound base st) {cap : ℕ} (hcap : cap ∈ st.narrowed) :
    ¬r.Undecided base cap := by
  rintro ⟨hout, hv⟩
  obtain ⟨winner, hw, -⟩ := h.decided cap hcap hout
  exact hv winner hw

theorem InRound.contestGain_le (h : r.InRound base st) {cap : ℕ} (hcap : cap ∈ st.narrowed) :
    st ⊔ r.contestGain base cap = st := by
  unfold contestGain
  split_ifs with hbase
  · exact st.sup_unchanged
  · obtain ⟨winner, hv, hle⟩ := h.decided cap hcap hbase
    rw [hv]
    exact sup_eq_left.mpr hle

theorem contested_cases (r : DependencyResolver) (cap : ℕ) : r.registry.getProviders cap = [] ∨
    (∃ p, r.registry.getProviders cap = [p]) ∨
    ∃ p q ps, r.registry.getProviders cap = p :: q :: ps ∧ r.Contested cap := by
  match h : r.registry.getProviders cap with
  | [] => exact Or.inl rfl
  | [p] => exact Or.inr (Or.inl ⟨p, rfl⟩)
  | p :: q :: ps => exact Or.inr (Or.inr ⟨p, q, ps, rfl, by simp [Contested, h]⟩)

theorem requireCap_contested {target : Target} {cap : ℕ} (hc : r.Contested cap)
    (h : ¬(cap ∈ st.narrowed ∨ cap ∈ fullProvides)) :
    r.requireCap caps fullProvides target st cap =
      match narrowProviders (r.registry.getProviders cap) fullProvides with
      | [] => .error (missingProviderError (some caps) cap target.name)
      | [winner] => .ok (st.settle cap (r.registry.getProviders cap) winner)
      | narrowed => .error (ambiguousError (some caps) cap narrowed) := by
  rcases r.contested_cases cap with hp | ⟨p, hp⟩ | ⟨p, q, ps, hp, -⟩
  · simp [Contested, hp] at hc
  · simp [Contested, hp] at hc
  · unfold requireCap
    rw [if_neg h]
    generalize r.registry.getProviders cap = providers at hp ⊢
    subst hp
    rfl

theorem requireCap_fails (h : r.InRound base st) (target : Target) {cap : ℕ}
    (hd : r.Fails caps base (.dep target cap)) :
    ∃ e, r.requireCap caps (r.registry.fullProvides base.resolved) target st cap = .error e := by
  obtain ⟨hfp, ⟨hnil, himp, hstrict⟩ | ⟨hc, hund⟩⟩ := hd
  · have hn : ¬(cap ∈ st.narrowed ∨ cap ∈ r.registry.fullProvides base.resolved) := by
      rintro (hn | hn)
      · simpa [Contested, hnil] using h.contested cap hn
      · exact hfp hn
    refine ⟨missingProviderError (some caps) cap target.name, ?_⟩
    simp only [requireCap, if_neg hn, hnil, himp, hstrict, ↓reduceIte]
  · have hn : ¬(cap ∈ st.narrowed ∨ cap ∈ r.registry.fullProvides base.resolved) := by
      rintro (hn | hn)
      · exact h.not_undecided hn hund
      · exact hfp hn
    rw [requireCap_contested hc hn]
    split
    · exact ⟨_, rfl⟩
    · next w hw => exact absurd hw (hund.2 w)
    · exact ⟨_, rfl⟩

theorem exists_winner {cap : ℕ} (hcap : cap ∉ base.narrowed) (h : ¬r.Undecided base cap) :
    ∃ winner, r.verdict base cap = [winner] := by
  by_contra hno
  exact h ⟨hcap, fun winner hw => hno ⟨winner, hw⟩⟩

theorem contestGain_eq {cap : ℕ} {winner : Target} (hcap : cap ∉ base.narrowed)
    (hw : r.verdict base cap = [winner]) : r.contestGain base cap = r.decision base cap winner := by
  unfold contestGain
  rw [if_neg hcap, hw]

theorem requireCap_joins (h : r.InRound base st) (target : Target) {cap : ℕ}
    (hd : ¬r.Fails caps base (.dep target cap)) :
    r.requireCap caps (r.registry.fullProvides base.resolved) target st cap =
        .ok (st ⊔ r.depGain caps base cap) ∧ r.InRound base (st ⊔ r.depGain caps base cap) := by
  by_cases hfp : cap ∈ r.registry.fullProvides base.resolved
  · rw [requireCap_skip (Or.inr hfp), depGain, if_pos hfp, st.sup_unchanged]
    exact ⟨rfl, h⟩
  · have hfail : ¬(r.Unmatched caps cap ∨ r.Contested cap ∧ r.Undecided base cap) := fun hf => hd ⟨hfp, hf⟩
    rcases r.contested_cases cap with hp | ⟨p, hp⟩ | ⟨p, q, ps, hp, hc⟩
    · have hn : ¬(cap ∈ st.narrowed ∨ cap ∈ r.registry.fullProvides base.resolved) := by
        rintro (hn | hn)
        · simpa [Contested, hp] using h.contested cap hn
        · exact hfp hn
      simp only [requireCap, if_neg hn, depGain, if_neg hfp, hp]
      cases himp : r.implicit caps cap with
      | some q => exact ⟨congrArg Except.ok (h.adopt_eq q.bitIdx), h.sup_adoption q.bitIdx⟩
      | none =>
        have hstrict : ¬r.strict := fun hs => hfail (Or.inl ⟨hp, himp, hs⟩)
        simp only [hstrict, Bool.false_eq_true, ↓reduceIte, Option.map_none, Option.getD_none,
          st.sup_unchanged]
        exact ⟨trivial, h⟩
    · have hn : ¬(cap ∈ st.narrowed ∨ cap ∈ r.registry.fullProvides base.resolved) := by
        rintro (hn | hn)
        · simpa [Contested, hp] using h.contested cap hn
        · exact hfp hn
      simp only [requireCap, if_neg hn, depGain, if_neg hfp, hp]
      exact ⟨congrArg Except.ok (h.adopt_eq p.bitIdx), h.sup_adoption p.bitIdx⟩
    · have hgain : r.depGain caps base cap = r.contestGain base cap := by
        simp only [depGain, if_neg hfp, hp]
      rw [hgain]
      by_cases hn : cap ∈ st.narrowed
      · rw [requireCap_skip (Or.inl hn), h.contestGain_le hn]
        exact ⟨rfl, h⟩
      · have hbase : cap ∉ base.narrowed := fun hb => hn (h.narrowed hb)
        obtain ⟨w, hw⟩ := exists_winner hbase fun hu => hfail (Or.inr ⟨hc, hu⟩)
        have hw' : narrowProviders (r.registry.getProviders cap)
            (r.registry.fullProvides base.resolved) = [w] := hw
        rw [requireCap_contested hc (not_or.mpr ⟨hn, hfp⟩), contestGain_eq hbase hw, hw']
        exact ⟨congrArg Except.ok (h.settle_eq cap w), h.sup_decision hc hw⟩

theorem verdict_ne_nil {cap : ℕ} (hc : r.Contested cap) : r.verdict base cap ≠ [] := by
  refine (narrowProviders_spec ?_ _).1
  intro hnil
  simp [Contested, hnil] at hc

theorem selfProvide_contested {target : Target} {cap : ℕ} (hi : caps.getIndex target.name = some cap)
    (hc : r.Contested cap) (hn : cap ∉ st.narrowed) :
    r.selfProvide caps (r.registry.fullProvides base.resolved) target st =
      match r.verdict base cap with
      | [] => .ok { st with narrowed := insert cap st.narrowed }
      | [winner] => .ok (st.settle cap (r.registry.getProviders cap) winner)
      | narrowed => .error (ambiguousError (some caps) cap narrowed) := by
  unfold selfProvide
  simp only [hi, if_neg hn, if_pos (show 1 < (r.registry.getProviders cap).length from hc)]
  rfl

theorem selfProvide_fails (h : r.InRound base st) {target : Target} (hd : r.Fails caps base (.own target)) :
    ∃ e, r.selfProvide caps (r.registry.fullProvides base.resolved) target st = .error e := by
  obtain ⟨cap, hi, hc, hund⟩ := hd
  rw [selfProvide_contested hi hc fun hn => h.not_undecided hn hund]
  split
  · next hv => exact absurd hv (verdict_ne_nil hc)
  · next w hw => exact absurd hw (hund.2 w)
  · exact ⟨_, rfl⟩

theorem selfProvide_joins (h : r.InRound base st) {target : Target}
    (hd : ¬r.Fails caps base (.own target)) :
    r.selfProvide caps (r.registry.fullProvides base.resolved) target st =
        .ok (st ⊔ r.gain caps base (.own target)) ∧ r.InRound base (st ⊔ r.gain caps base (.own target)) := by
  cases hi : caps.getIndex target.name with
  | none =>
    simp only [selfProvide, gain, hi, st.sup_unchanged]
    exact ⟨trivial, h⟩
  | some cap =>
    by_cases hc : 1 < (r.registry.getProviders cap).length
    · simp only [gain, hi, if_pos hc]
      by_cases hn : cap ∈ st.narrowed
      · rw [h.contestGain_le hn]
        simp only [selfProvide, hi, if_pos hn]
        exact ⟨trivial, h⟩
      · have hbase : cap ∉ base.narrowed := fun hb => hn (h.narrowed hb)
        obtain ⟨w, hw⟩ := exists_winner hbase fun hu => hd ⟨cap, hi, hc, hu⟩
        rw [selfProvide_contested hi hc hn, contestGain_eq hbase hw, hw]
        exact ⟨congrArg Except.ok (h.settle_eq cap w), h.sup_decision hc hw⟩
    · simp only [selfProvide, gain, hi, if_neg hc, st.sup_unchanged, ite_self]
      exact ⟨trivial, h⟩

theorem meet_fails (h : r.InRound base st) {d : Demand} (hd : r.Fails caps base d) :
    ∃ e, r.meet caps (r.registry.fullProvides base.resolved) st d = .error e := by
  cases d with
  | absent bit => exact ⟨_, rfl⟩
  | dep target cap => exact requireCap_fails h target hd
  | own target => exact selfProvide_fails h hd

theorem meet_joins (h : r.InRound base st) {d : Demand} (hd : ¬r.Fails caps base d) :
    r.meet caps (r.registry.fullProvides base.resolved) st d = .ok (st ⊔ r.gain caps base d) ∧
      r.InRound base (st ⊔ r.gain caps base d) := by
  cases d with
  | absent bit => exact absurd trivial hd
  | dep target cap => exact requireCap_joins h target hd
  | own target => exact selfProvide_joins h hd

variable (r) in
def Demanded (st : NarrowState) (d : Demand) : Prop := ∃ bit ∈ st.resolved, d ∈ r.demandsOf bit

theorem mem_snapshot_demands (hash : HashOrders) (st : NarrowState) (d : Demand) :
    d ∈ (hash.snapshot.iter st.resolved).flatMap r.demandsOf ↔ r.Demanded st d := by
  simp only [List.mem_flatMap, hash.snapshot.mem_iter, Demanded]

variable (r caps) in
def gains (hash : HashOrders) (st : NarrowState) : NarrowState :=
  ((hash.snapshot.iter st.resolved).flatMap r.demandsOf).foldl (fun s d => s ⊔ r.gain caps st d)
    { st with changed := false }

theorem narrowRound_cases (hash : HashOrders) (hst : ∀ cap ∈ st.narrowed, r.Contested cap) :
    (∃ e, r.narrowRound caps hash st = .error e) ∧ (∃ d, r.Demanded st d ∧ r.Fails caps st d) ∨
      r.narrowRound caps hash st = .ok (r.gains caps hash st) ∧
        (∀ d, r.Demanded st d → ¬r.Fails caps st d) ∧ r.InRound st (r.gains caps hash st) := by
  have hfail : ∀ s d, r.InRound st s → r.Fails caps st d →
      ∃ e, r.meet caps (r.registry.fullProvides st.resolved) s d = .error e := fun _ _ hs => meet_fails hs
  have hok : ∀ s d, r.InRound st s → ¬r.Fails caps st d →
      r.meet caps (r.registry.fullProvides st.resolved) s d = .ok (s ⊔ r.gain caps st d) ∧
        r.InRound st (s ⊔ r.gain caps st d) := fun _ _ hs => meet_joins hs
  unfold narrowRound
  rw [foldlM_narrowTarget]
  simp only [← mem_snapshot_demands hash]
  exact foldlM_join hfail hok _ (inRound_start hst)

theorem narrowRound_ok {hash : HashOrders} {st' : NarrowState}
    (hst : ∀ cap ∈ st.narrowed, r.Contested cap) (h : r.narrowRound caps hash st = .ok st') :
    r.InRound st st' ∧ ∀ d, r.Demanded st d → ¬r.Fails caps st d ∧ r.gain caps st d ≤ st' := by
  rcases narrowRound_cases hash hst with ⟨⟨e, he⟩, -⟩ | ⟨hok, hfine, hround⟩
  · rw [he] at h
    simp at h
  · obtain rfl := Except.ok.inj (hok.symm.trans h)
    refine ⟨hround, fun d hd => ⟨hfine d hd, ?_⟩⟩
    have hle := (foldl_sup_le_iff (r.gain caps st) ((hash.snapshot.iter st.resolved).flatMap r.demandsOf)
      { st with changed := false } (r.gains caps hash st)).mp (le_refl _)
    exact hle.2 d ((mem_snapshot_demands hash st d).mpr hd)

theorem narrowRound_hash (hash hash' : HashOrders) (hst : ∀ cap ∈ st.narrowed, r.Contested cap) :
    (r.narrowRound caps hash st).toOption = (r.narrowRound caps hash' st).toOption := by
  rcases narrowRound_cases hash hst with ⟨⟨e, he⟩, d, hd, hf⟩ | ⟨hok, hfine, -⟩ <;>
    rcases narrowRound_cases hash' hst with ⟨⟨e', he'⟩, d', hd', hf'⟩ | ⟨hok', hfine', -⟩
  · rw [he, he']
    rfl
  · exact absurd hf (hfine' d hd)
  · exact absurd hf' (hfine d' hd')
  · rw [hok, hok', gains, gains, foldl_sup_congr]
    intro d
    rw [mem_snapshot_demands, mem_snapshot_demands]

end DependencyResolver

end Fluent.Dag
