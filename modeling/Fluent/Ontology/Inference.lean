import Mathlib.Data.Finset.Prod
import Mathlib.Logic.Relation
import Fluent.Rdf.Parser

namespace Fluent.Ontology

open Fluent.Library
open Fluent.Rdf (Bytes Term Triple)
open Relation (TransGen ReflTransGen)

inductive RuleType where
  | subclassTransitivity
  | subpropertyTransitivity
  | domainRange
  | inverseOf
deriving DecidableEq

structure InferenceRule where
  ruleType : RuleType
  triggerPredicate : Bytes

inductive InferenceError where
  | emptyInput
deriving DecidableEq

def isSubclassTriple (t : Triple) (predicateIri : Bytes) : Bool := t.predicate = .iri predicateIri

def iriOf : Term → Option Bytes
  | .iri s => some s
  | _ => none

def buildSubclassTriple (predicateIri : Bytes) (edge : Bytes × Bytes) : Triple :=
  ⟨.iri edge.1, .iri predicateIri, .iri edge.2⟩

def edgeOf (predicateIri : Bytes) (t : Triple) : Option (Bytes × Bytes) :=
  if isSubclassTriple t predicateIri then (iriOf t.subject).bind fun s => (iriOf t.object).map (s, ·) else none

theorem edgeOf_eq_some {p : Bytes} {t : Triple} {e : Bytes × Bytes} :
    edgeOf p t = some e ↔ t = buildSubclassTriple p e := by
  obtain ⟨s, q, o⟩ := t
  unfold edgeOf isSubclassTriple buildSubclassTriple
  constructor
  · intro h
    split_ifs at h with hq
    cases s <;> cases o <;> simp_all [iriOf]
    exact h ▸ ⟨rfl, rfl⟩
  · intro h
    cases h
    simp [iriOf]

section Saturation

structure Saturation where
  known : Finset (Bytes × Bytes)
  derived : List Triple
  changed : Bool

variable (p : Bytes)

def join (st : Saturation) (pair : (Bytes × Bytes) × (Bytes × Bytes)) : Saturation :=
  if pair.1.2 ≠ pair.2.1 then st
  else if (pair.1.1, pair.2.2) ∈ st.known then st
  else ⟨insert (pair.1.1, pair.2.2) st.known, st.derived ++ [buildSubclassTriple p (pair.1.1, pair.2.2)], true⟩

variable (order : HashOrder (Bytes × Bytes))

def round (st : Saturation) : Saturation :=
  let edges := order.iter st.known
  (edges ×ˢ edges).foldl (join p) { st with changed := false }

def saturate : ℕ → Saturation → Option Saturation
  | 0, _ => none
  | fuel + 1, st => if (round p order st).changed then saturate fuel (round p order st) else some (round p order st)

def inferSubclassTransitivity (fuel : ℕ) (base derived : List Triple) : Option (List Triple) :=
  (saturate p order fuel ⟨((base ++ derived).filterMap (edgeOf p)).toFinset, derived, false⟩).map Saturation.derived

end Saturation

def infer (order : HashOrder (Bytes × Bytes)) (fuel : ℕ) (rules : List InferenceRule) (triples : List Triple) :
    Option (Except InferenceError (List Triple)) :=
  (rules.foldlM (fun derived rule =>
    if rule.ruleType = .subclassTransitivity then
      inferSubclassTransitivity rule.triggerPredicate order fuel triples derived
    else some derived) []).map .ok

section Closure

variable {p : Bytes} {base : Finset (Bytes × Bytes)} {st st' : Saturation}

def Step (base : Finset (Bytes × Bytes)) (a b : Bytes) : Prop := (a, b) ∈ base

structure Within (p : Bytes) (base : Finset (Bytes × Bytes)) (st : Saturation) : Prop where
  base_subset : base ⊆ st.known
  sound : ∀ e ∈ st.known, TransGen (Step base) e.1 e.2
  nodup : st.derived.Nodup
  derived : ∀ t, t ∈ st.derived ↔ ∃ e ∈ st.known, e ∉ base ∧ t = buildSubclassTriple p e

theorem buildSubclassTriple_inj {e e' : Bytes × Bytes} (h : buildSubclassTriple p e = buildSubclassTriple p e') :
    e = e' :=
  Option.some.inj ((edgeOf_eq_some.mpr rfl).symm.trans (edgeOf_eq_some.mpr h))

theorem Within.join (h : Within p base st) {pair : (Bytes × Bytes) × (Bytes × Bytes)} (h₁ : pair.1 ∈ st.known)
    (h₂ : pair.2 ∈ st.known) : Within p base (join p st pair) := by
  unfold Ontology.join
  split_ifs with hne hmem
  · exact h
  · exact h
  · have hchain : TransGen (Step base) pair.1.1 pair.2.2 := by
      have hsnd := h.sound _ h₂
      rw [← not_not.mp hne] at hsnd
      exact (h.sound _ h₁).trans hsnd
    have hbase : (pair.1.1, pair.2.2) ∉ base := fun hb => hmem (h.base_subset hb)
    refine ⟨h.base_subset.trans (Finset.subset_insert _ _), fun e he => ?_, ?_, fun t => ?_⟩
    · rcases Finset.mem_insert.mp he with rfl | he
      · exact hchain
      · exact h.sound e he
    · refine List.nodup_append.mpr ⟨h.nodup, List.nodup_singleton _, ?_⟩
      rintro t ht _ hnew rfl
      obtain ⟨e, he, -, heq⟩ := (h.derived t).mp ht
      rw [List.mem_singleton.mp hnew] at heq
      exact hmem (buildSubclassTriple_inj heq ▸ he)
    · rw [List.mem_append, List.mem_singleton, h.derived]
      constructor
      · rintro (⟨e, he, hb, rfl⟩ | rfl)
        · exact ⟨e, Finset.mem_insert_of_mem he, hb, rfl⟩
        · exact ⟨_, Finset.mem_insert_self _ _, hbase, rfl⟩
      · rintro ⟨e, he, hb, rfl⟩
        rcases Finset.mem_insert.mp he with rfl | he
        · exact .inr rfl
        · exact .inl ⟨e, he, hb, rfl⟩

structure Grown (pairs : List ((Bytes × Bytes) × (Bytes × Bytes))) (st st' : Saturation) : Prop where
  subset : st.known ⊆ st'.known
  grew : st'.changed = true → st.changed = true ∨ st.known.card < st'.known.card
  stable : st'.changed = false → st'.known = st.known ∧ ∀ pair ∈ pairs, pair.1.2 = pair.2.1 →
    (pair.1.1, pair.2.2) ∈ st.known

theorem grown_join (st : Saturation) (pair : (Bytes × Bytes) × (Bytes × Bytes)) : Grown [pair] st (join p st pair) := by
  unfold join
  split_ifs with hne hmem
  · refine ⟨subset_rfl, .inl, fun _ => ⟨rfl, fun q hq heq => ?_⟩⟩
    rw [List.mem_singleton.mp hq] at heq
    exact absurd heq hne
  · refine ⟨subset_rfl, .inl, fun _ => ⟨rfl, fun q hq _ => ?_⟩⟩
    rwa [List.mem_singleton.mp hq]
  · refine ⟨Finset.subset_insert _ _, fun _ => .inr ?_, nofun⟩
    rw [Finset.card_insert_of_notMem hmem]
    exact Nat.lt_succ_self _

theorem Grown.trans {l l' : List ((Bytes × Bytes) × (Bytes × Bytes))} {st'' : Saturation} (h : Grown l st st')
    (h' : Grown l' st' st'') (hkeeps : st''.changed = false → st'.changed = false) : Grown (l ++ l') st st'' := by
  refine ⟨h.subset.trans h'.subset, fun hc => ?_, fun hc => ?_⟩
  · rcases h'.grew hc with hc | hlt
    · exact (h.grew hc).imp_right fun hlt => hlt.trans_le (Finset.card_le_card h'.subset)
    · exact .inr ((Finset.card_le_card h.subset).trans_lt hlt)
  · obtain ⟨hknown, hpairs⟩ := h.stable (hkeeps hc)
    obtain ⟨hknown', hpairs'⟩ := h'.stable hc
    refine ⟨hknown'.trans hknown, fun pair hp heq => ?_⟩
    rcases List.mem_append.mp hp with hp | hp
    · exact hpairs pair hp heq
    · exact hknown ▸ hpairs' pair hp heq

theorem grown_foldl (pairs : List ((Bytes × Bytes) × (Bytes × Bytes))) (st : Saturation) :
    Grown pairs st (pairs.foldl (join p) st) := by
  induction pairs using List.reverseRecOn with
  | nil => exact ⟨subset_rfl, .inl, fun _ => ⟨rfl, nofun⟩⟩
  | append_singleton pairs pair ih =>
    rw [List.foldl_append]
    refine ih.trans (grown_join _ pair) fun hc => ?_
    change (join p _ pair).changed = false at hc
    unfold join at hc
    split_ifs at hc
    · exact hc
    · exact hc

theorem Within.foldl (h : Within p base st) {pairs : List ((Bytes × Bytes) × (Bytes × Bytes))}
    (hpairs : ∀ pair ∈ pairs, pair.1 ∈ st.known ∧ pair.2 ∈ st.known) : Within p base (pairs.foldl (Ontology.join p) st) := by
  induction pairs using List.reverseRecOn with
  | nil => exact h
  | append_singleton pairs pair ih =>
    rw [List.foldl_append]
    have hgrown := (grown_foldl (p := p) pairs st).subset
    obtain ⟨h₁, h₂⟩ := hpairs pair (List.mem_append_right _ List.mem_cons_self)
    exact (ih fun q hq => hpairs q (List.mem_append_left _ hq)).join (hgrown h₁) (hgrown h₂)

variable (order : HashOrder (Bytes × Bytes))

theorem mem_pairs {known : Finset (Bytes × Bytes)} {pair : (Bytes × Bytes) × (Bytes × Bytes)} :
    pair ∈ order.iter known ×ˢ order.iter known ↔ pair.1 ∈ known ∧ pair.2 ∈ known := by
  rw [List.mem_product, order.mem_iter, order.mem_iter]

theorem Within.round (h : Within p base st) : Within p base (round p order st) := by
  have hstart : Within p base { st with changed := false } := ⟨h.base_subset, h.sound, h.nodup, h.derived⟩
  exact hstart.foldl fun pair hpair => (mem_pairs order).mp hpair

theorem round_grew (hc : (round p order st).changed = true) : st.known.card < (round p order st).known.card :=
  ((grown_foldl _ _).grew hc).resolve_left nofun

def Closed (st : Saturation) : Prop := ∀ a b c, (a, b) ∈ st.known → (b, c) ∈ st.known → (a, c) ∈ st.known

theorem round_closed (hc : (round p order st).changed = false) : Closed (round p order st) := by
  obtain ⟨hknown, hpairs⟩ := (grown_foldl _ _).stable hc
  change (round p order st).known = st.known at hknown
  intro a b c hab hbc
  rw [hknown] at hab hbc ⊢
  exact hpairs ((a, b), (b, c)) ((mem_pairs order).mpr ⟨hab, hbc⟩) rfl

theorem Within.card_le (h : Within p base st) :
    st.known.card ≤ (base.image Prod.fst ×ˢ base.image Prod.snd).card := by
  refine Finset.card_le_card fun e he => Finset.mem_product.mpr ⟨?_, ?_⟩
  · obtain ⟨b, hb, -⟩ := TransGen.head'_iff.mp (h.sound e he)
    exact Finset.mem_image.mpr ⟨(e.1, b), hb, rfl⟩
  · obtain ⟨b, -, hb⟩ := TransGen.tail'_iff.mp (h.sound e he)
    exact Finset.mem_image.mpr ⟨(b, e.2), hb, rfl⟩

theorem saturate_total (h : Within p base st) {fuel : ℕ}
    (hfuel : (base.image Prod.fst ×ˢ base.image Prod.snd).card < fuel + st.known.card) :
    ∃ st', saturate p order fuel st = some st' ∧ Within p base st' ∧ Closed st' := by
  induction fuel generalizing st with
  | zero =>
    have hle := h.card_le
    omega
  | succ fuel ih =>
    unfold saturate
    cases hc : (Ontology.round p order st).changed with
    | false => exact ⟨_, rfl, h.round order, round_closed order hc⟩
    | true =>
      have hlt := round_grew order hc
      exact ih (h.round order) (by omega)

theorem Within.complete (h : Within p base st) (hclosed : Closed st) {a b : Bytes} (hab : TransGen (Step base) a b) :
    (a, b) ∈ st.known := by
  induction hab with
  | single hb => exact h.base_subset hb
  | tail _ hbc ih => exact hclosed a _ _ ih (h.base_subset hbc)

def TripleEdge (triples : List Triple) (p : Bytes) (a b : Bytes) : Prop := buildSubclassTriple p (a, b) ∈ triples

theorem step_toFinset (triples : List Triple) (p : Bytes) :
    Step (triples.filterMap (edgeOf p)).toFinset = TripleEdge triples p := by
  funext a b
  unfold Step TripleEdge
  rw [List.mem_toFinset, List.mem_filterMap]
  simp only [edgeOf_eq_some, exists_eq_right]

theorem infer_spec (triples : List Triple) (p : Bytes) :
    ∃ n, ∀ fuel ≥ n, ∃ derived, infer order fuel [⟨.subclassTransitivity, p⟩] triples = some (.ok derived) ∧
      derived.Nodup ∧ ∀ t, t ∈ derived ↔ ∃ a b, TransGen (TripleEdge triples p) a b ∧ ¬TripleEdge triples p a b ∧
        t = buildSubclassTriple p (a, b) := by
  let base := (triples.filterMap (edgeOf p)).toFinset
  have hstart : Within p base ⟨base, [], false⟩ :=
    ⟨subset_rfl, fun e he => .single he, List.nodup_nil, fun t => ⟨nofun, fun ⟨_, he, hno, _⟩ => absurd he hno⟩⟩
  refine ⟨(base.image Prod.fst ×ˢ base.image Prod.snd).card + 1, fun fuel hfuel => ?_⟩
  have henough : (base.image Prod.fst ×ˢ base.image Prod.snd).card < fuel + base.card := by omega
  obtain ⟨st, hst, hwithin, hclosed⟩ := saturate_total order hstart henough
  refine ⟨st.derived, ?_, hwithin.nodup, fun t => ?_⟩
  · unfold infer inferSubclassTransitivity
    rw [List.foldlM_cons, if_pos rfl, List.append_nil, hst]
    rfl
  · rw [hwithin.derived, ← step_toFinset]
    constructor
    · rintro ⟨e, he, hno, rfl⟩
      exact ⟨e.1, e.2, hwithin.sound e he, hno, rfl⟩
    · rintro ⟨a, b, hab, hno, rfl⟩
      exact ⟨(a, b), hwithin.complete hclosed hab, hno, rfl⟩

end Closure

structure CapabilityInference where
  hierarchy : HashMap Bytes (List Bytes)
  directCapabilities : HashMap Bytes (Finset Bytes)
  inferredCache : HashMap Bytes (Finset Bytes)

namespace CapabilityInference

def new : CapabilityInference := ⟨∅, ∅, ∅⟩

def addSubclassEdge (c : CapabilityInference) (child parent : Bytes) : CapabilityInference :=
  { c with hierarchy := HashMap.pushEntry c.hierarchy child parent, inferredCache := ∅ }

def loadHierarchy (c : CapabilityInference) (triples : List Triple) (p : Bytes) : CapabilityInference :=
  { c with
    hierarchy := (triples.filterMap (edgeOf p)).foldl (fun m e => HashMap.pushEntry m e.1 e.2) c.hierarchy
    inferredCache := ∅ }

def direct (c : CapabilityInference) (cls : Bytes) : Finset Bytes := (c.directCapabilities.lookup cls).getD ∅

def registerCapability (c : CapabilityInference) (cls name : Bytes) : CapabilityInference :=
  { c with directCapabilities := c.directCapabilities.insert cls (insert name (c.direct cls)), inferredCache := ∅ }

def parents (c : CapabilityInference) (cls : Bytes) : List Bytes := (c.hierarchy.lookup cls).getD []

structure Walk where
  out : Finset Bytes
  visited : Finset Bytes

def collectAncestorCaps (c : CapabilityInference) : ℕ → Bytes → Walk → Option Walk
  | 0, _, _ => none
  | fuel + 1, cls, w =>
    if cls ∈ w.visited then some w
    else (c.parents cls).foldlM (fun w parent => collectAncestorCaps c fuel parent { w with out := w.out ∪ c.direct parent })
      { w with visited := insert cls w.visited }

def inferCapabilities (c : CapabilityInference) (cls : Bytes) : Option (Finset Bytes × CapabilityInference) :=
  match c.inferredCache.lookup cls with
  | some caps => some (caps, c)
  | none =>
    (c.collectAncestorCaps (c.hierarchy.keys.card + 1) cls ⟨c.direct cls, ∅⟩).map fun w =>
      (w.out, { c with inferredCache := c.inferredCache.insert cls w.out })

def duckType (c : CapabilityInference) (cls name : Bytes) : Option (Bool × CapabilityInference) :=
  (c.inferCapabilities cls).map fun r => (decide (name ∈ r.1), r.2)

section Walk

variable {c : CapabilityInference} {fuel : ℕ} {cls : Bytes} {w w' w'' : Walk} {ps : List Bytes}

def Parent (c : CapabilityInference) (cls parent : Bytes) : Prop := parent ∈ c.parents cls

def Done (c : CapabilityInference) (w : Walk) (cls : Bytes) : Prop :=
  ∀ parent, Parent c cls parent → parent ∈ w.visited ∧ c.direct parent ⊆ w.out

structure Walked (c : CapabilityInference) (taken : Bytes → Prop) (w w' : Walk) : Prop where
  visited : w.visited ⊆ w'.visited
  out : w.out ⊆ w'.out
  done : ∀ v ∈ w'.visited, v ∉ w.visited → Done c w' v
  sound : ∀ k ∈ w'.out, k ∈ w.out ∨ ∃ d, taken d ∧ k ∈ c.direct d

theorem Walked.refl (taken : Bytes → Prop) (w : Walk) : Walked c taken w w :=
  ⟨subset_rfl, subset_rfl, fun _ hv hno => absurd hv hno, fun _ hk => .inl hk⟩

theorem Done.mono (h : Done c w cls) (hv : w.visited ⊆ w'.visited) (ho : w.out ⊆ w'.out) : Done c w' cls :=
  fun parent hp => ⟨hv (h parent hp).1, (h parent hp).2.trans ho⟩

theorem Walked.trans {taken : Bytes → Prop} (h : Walked c taken w w') (h' : Walked c taken w' w'') :
    Walked c taken w w'' := by
  refine ⟨h.visited.trans h'.visited, h.out.trans h'.out, fun v hv hno => ?_, fun k hk => ?_⟩
  · by_cases hmid : v ∈ w'.visited
    · exact (h.done v hmid hno).mono h'.visited h'.out
    · exact h'.done v hv hmid
  · exact (h'.sound k hk).elim (fun hk => h.sound k hk) .inr

theorem Walked.imp {taken taken' : Bytes → Prop} (h : Walked c taken w w') (htaken : ∀ d, taken d → taken' d) :
    Walked c taken' w w' :=
  ⟨h.visited, h.out, h.done, fun k hk => (h.sound k hk).imp_right fun ⟨d, hd, hk⟩ => ⟨d, htaken d hd, hk⟩⟩

theorem mem_keys_of_parent {parent : Bytes} (h : Parent c cls parent) : cls ∈ c.hierarchy.keys := by
  unfold Parent parents at h
  rw [Finmap.mem_keys, ← Finmap.lookup_isSome]
  cases hl : c.hierarchy.lookup cls with
  | none =>
    rw [hl] at h
    cases h
  | some ps => rfl

def left (c : CapabilityInference) (w : Walk) : ℕ := (c.hierarchy.keys \ w.visited).card

theorem left_le (h : w.visited ⊆ w'.visited) : c.left w' ≤ c.left w :=
  Finset.card_le_card (Finset.sdiff_subset_sdiff subset_rfl h)

theorem left_insert {parent : Bytes} (h : Parent c cls parent) (hno : cls ∉ w.visited) :
    c.left { w with visited := insert cls w.visited } < c.left w := by
  refine Finset.card_lt_card ((Finset.ssubset_iff_of_subset ?_).mpr ⟨cls, ?_, ?_⟩)
  · exact Finset.sdiff_subset_sdiff subset_rfl (Finset.subset_insert _ _)
  · exact Finset.mem_sdiff.mpr ⟨mem_keys_of_parent h, hno⟩
  · exact fun h => (Finset.mem_sdiff.mp h).2 (Finset.mem_insert_self _ _)

theorem walked_parents
    (hwalk : ∀ parent ∈ ps, ∀ w, c.left w < fuel → ∃ w', c.collectAncestorCaps fuel parent w = some w' ∧
      Walked c (TransGen (Parent c) parent) w w' ∧ parent ∈ w'.visited) (hfuel : ps ≠ [] → c.left w < fuel) :
    ∃ w', ps.foldlM (fun w parent => c.collectAncestorCaps fuel parent { w with out := w.out ∪ c.direct parent }) w =
        some w' ∧ Walked c (fun d => ∃ parent ∈ ps, ReflTransGen (Parent c) parent d) w w' ∧
      ∀ parent ∈ ps, parent ∈ w'.visited ∧ c.direct parent ⊆ w'.out := by
  induction ps generalizing w with
  | nil => exact ⟨w, rfl, .refl _ w, nofun⟩
  | cons parent ps ih =>
    have hlt := hfuel (List.cons_ne_nil _ _)
    obtain ⟨w₁, hw₁, hwalked, hmem⟩ :=
      hwalk parent List.mem_cons_self { w with out := w.out ∪ c.direct parent } hlt
    obtain ⟨w₂, hw₂, hrest, hall⟩ := ih (w := w₁) (fun q hq => hwalk q (List.mem_cons_of_mem _ hq))
      fun _ => (left_le hwalked.visited).trans_lt hlt
    refine ⟨w₂, ?_, ?_, ?_⟩
    · rw [List.foldlM_cons, hw₁]
      exact hw₂
    · have hfirst : Walked c (fun d => ∃ q ∈ parent :: ps, ReflTransGen (Parent c) q d) w w₁ := by
        refine ⟨hwalked.visited, Finset.subset_union_left.trans hwalked.out, hwalked.done, fun k hk => ?_⟩
        rcases hwalked.sound k hk with hk | ⟨d, hd, hk⟩
        · rcases Finset.mem_union.mp hk with hk | hk
          · exact .inl hk
          · exact .inr ⟨parent, ⟨parent, List.mem_cons_self, .refl⟩, hk⟩
        · exact .inr ⟨d, ⟨parent, List.mem_cons_self, hd.to_reflTransGen⟩, hk⟩
      exact hfirst.trans (hrest.imp fun d ⟨q, hq, hd⟩ => ⟨q, List.mem_cons_of_mem _ hq, hd⟩)
    · rintro q (_ | ⟨_, hq⟩)
      · exact ⟨hrest.visited hmem, (Finset.subset_union_right.trans hwalked.out).trans hrest.out⟩
      · exact hall q hq

theorem collect_walked (hfuel : c.left w < fuel) : ∃ w', c.collectAncestorCaps fuel cls w = some w' ∧
    Walked c (TransGen (Parent c) cls) w w' ∧ cls ∈ w'.visited := by
  induction fuel generalizing cls w with
  | zero => exact absurd hfuel (Nat.not_lt_zero _)
  | succ fuel ih =>
    unfold collectAncestorCaps
    split_ifs with hmem
    · exact ⟨w, rfl, .refl _ w, hmem⟩
    · have hless : c.parents cls ≠ [] → c.left { w with visited := insert cls w.visited } < fuel := by
        intro hne
        obtain ⟨parent, ps, hps⟩ := List.exists_cons_of_ne_nil hne
        have hparent : Parent c cls parent := by
          unfold Parent
          rw [hps]
          exact List.mem_cons_self
        have hlt := left_insert hparent hmem
        omega
      obtain ⟨w', hw', hwalked, hall⟩ := walked_parents (fun parent _ w hlt => ih hlt) hless
      refine ⟨w', hw', ⟨(Finset.subset_insert _ _).trans hwalked.visited, hwalked.out, fun v hv hno => ?_, fun k hk => ?_⟩,
        hwalked.visited (Finset.mem_insert_self _ _)⟩
      · by_cases hcls : v = cls
        · exact hcls ▸ hall
        · exact hwalked.done v hv fun h => (Finset.mem_insert.mp h).elim hcls hno
      · refine (hwalked.sound k hk).imp_right ?_
        rintro ⟨d, ⟨parent, hp, hd⟩, hk⟩
        exact ⟨d, TransGen.head' hp hd, hk⟩

def Has (c : CapabilityInference) (cls k : Bytes) : Prop :=
  k ∈ c.direct cls ∨ ∃ d, TransGen (Parent c) cls d ∧ k ∈ c.direct d

theorem collect_spec (c : CapabilityInference) (cls : Bytes) :
    ∃ w, c.collectAncestorCaps (c.hierarchy.keys.card + 1) cls ⟨c.direct cls, ∅⟩ = some w ∧
      ∀ k, k ∈ w.out ↔ c.Has cls k := by
  have hfuel : c.left ⟨c.direct cls, ∅⟩ < c.hierarchy.keys.card + 1 :=
    Nat.lt_succ_of_le (Finset.card_le_card Finset.sdiff_subset)
  obtain ⟨w, hw, hwalked, hmem⟩ : ∃ w', c.collectAncestorCaps (c.hierarchy.keys.card + 1) cls ⟨c.direct cls, ∅⟩ = some w' ∧
      Walked c (TransGen (Parent c) cls) ⟨c.direct cls, ∅⟩ w' ∧ cls ∈ w'.visited := collect_walked hfuel
  have hdone : ∀ v ∈ w.visited, Done c w v := fun v hv => hwalked.done v hv (Finset.notMem_empty v)
  have hvisited {v : Bytes} (hv : ReflTransGen (Parent c) cls v) : v ∈ w.visited := by
    induction hv with
    | refl => exact hmem
    | tail _ hp ih => exact (hdone _ ih _ hp).1
  refine ⟨w, hw, fun k => ⟨hwalked.sound k, ?_⟩⟩
  rintro (hk | ⟨d, hd, hk⟩)
  · exact hwalked.out hk
  · obtain ⟨v, hv, hp⟩ := TransGen.tail'_iff.mp hd
    exact (hdone v (hvisited hv) d hp).2 hk

end Walk

inductive Op where
  | loadHierarchy (triples : List Triple) (p : Bytes)
  | addSubclassEdge (child parent : Bytes)
  | registerCapability (cls name : Bytes)
  | inferCapabilities (cls : Bytes)

def step (c : CapabilityInference) : Op → Option CapabilityInference
  | .loadHierarchy triples p => some (c.loadHierarchy triples p)
  | .addSubclassEdge child parent => some (c.addSubclassEdge child parent)
  | .registerCapability cls name => some (c.registerCapability cls name)
  | .inferCapabilities cls => (c.inferCapabilities cls).map Prod.snd

section Runs

def Op.Adds (a b : Bytes) : Op → Prop
  | .loadHierarchy triples p => TripleEdge triples p a b
  | .addSubclassEdge child parent => a = child ∧ b = parent
  | _ => False

def Added (ops : List Op) (a b : Bytes) : Prop := ∃ op ∈ ops, op.Adds a b

def Registered (ops : List Op) (cls name : Bytes) : Prop := .registerCapability cls name ∈ ops

structure Reflects (ops : List Op) (c : CapabilityInference) : Prop where
  parent : ∀ a b, Parent c a b ↔ Added ops a b
  direct : ∀ cls k, k ∈ c.direct cls ↔ Registered ops cls k
  cache : ∀ cls caps, c.inferredCache.lookup cls = some caps → ∀ k, k ∈ caps ↔ c.Has cls k

theorem added_append (ops : List Op) (op : Op) (a b : Bytes) : Added (ops ++ [op]) a b ↔ Added ops a b ∨ op.Adds a b := by
  unfold Added
  simp only [List.mem_append, List.mem_singleton, or_and_right, exists_or, exists_eq_left]

theorem mem_pushEntry (m : HashMap Bytes (List Bytes)) (e : Bytes × Bytes) (a b : Bytes) :
    b ∈ ((HashMap.pushEntry m e.1 e.2).lookup a).getD [] ↔ b ∈ (m.lookup a).getD [] ∨ (a, b) = e := by
  rw [HashMap.lookup_pushEntry]
  split_ifs with h
  · subst h
    rw [Option.getD_some, List.mem_append, List.mem_singleton, Prod.ext_iff]
    exact or_congr_right (and_iff_right rfl).symm
  · exact (or_iff_left fun he => h (congrArg Prod.fst he)).symm

theorem mem_pushEntries (es : List (Bytes × Bytes)) (m : HashMap Bytes (List Bytes)) (a b : Bytes) :
    b ∈ ((es.foldl (fun m e => HashMap.pushEntry m e.1 e.2) m).lookup a).getD [] ↔
      b ∈ (m.lookup a).getD [] ∨ (a, b) ∈ es := by
  induction es generalizing m with
  | nil => exact (or_iff_left List.not_mem_nil).symm
  | cons e es ih => rw [List.foldl_cons, ih, mem_pushEntry, List.mem_cons, or_assoc]

theorem mem_direct_register (c : CapabilityInference) (cls name cls' k : Bytes) :
    k ∈ (c.registerCapability cls name).direct cls' ↔ k ∈ c.direct cls' ∨ cls' = cls ∧ k = name := by
  unfold registerCapability CapabilityInference.direct
  rw [HashMap.lookup_insert_ite]
  split_ifs with h
  · subst h
    rw [Option.getD_some, Finset.mem_insert, or_comm]
    exact or_congr_right (and_iff_right rfl).symm
  · exact (or_iff_left fun he => h he.1).symm

variable {ops : List Op} {c : CapabilityInference}

theorem Reflects.infer (h : Reflects ops c) (cls : Bytes) : ∃ caps c', c.inferCapabilities cls = some (caps, c') ∧
    (∀ k, k ∈ caps ↔ c.Has cls k) ∧ Reflects ops c' := by
  unfold inferCapabilities
  cases hcache : c.inferredCache.lookup cls with
  | some caps => exact ⟨caps, c, rfl, h.cache cls caps hcache, h⟩
  | none =>
    obtain ⟨w, hw, hout⟩ := collect_spec c cls
    dsimp only
    rw [hw]
    refine ⟨w.out, _, rfl, hout, h.parent, h.direct, fun cls' caps hcaps => ?_⟩
    change (c.inferredCache.insert cls w.out).lookup cls' = some caps at hcaps
    rw [HashMap.lookup_insert_ite] at hcaps
    split_ifs at hcaps with heq
    · obtain rfl := Option.some.inj hcaps
      exact heq ▸ hout
    · exact h.cache cls' caps hcaps

theorem Reflects.step (h : Reflects ops c) (op : Op) : ∃ c', c.step op = some c' ∧ Reflects (ops ++ [op]) c' := by
  have hempty {c' : CapabilityInference} (hc : c'.inferredCache = ∅) (cls : Bytes) (caps : Finset Bytes)
      (hl : c'.inferredCache.lookup cls = some caps) : ∀ k, k ∈ caps ↔ c'.Has cls k := by
    rw [hc, Finmap.lookup_empty] at hl
    cases hl
  have hregistered (op : Op) (hop : ∀ cls k, Op.registerCapability cls k ≠ op) (cls k : Bytes) :
      Registered (ops ++ [op]) cls k ↔ Registered ops cls k := by
    unfold Registered
    rw [List.mem_append, List.mem_singleton]
    exact or_iff_left (hop cls k)
  cases op with
  | loadHierarchy triples p =>
    refine ⟨_, rfl, fun a b => ?_, fun cls k => ?_, hempty rfl⟩
    · rw [added_append, ← h.parent]
      unfold Parent parents loadHierarchy
      rw [mem_pushEntries, List.mem_filterMap]
      simp only [edgeOf_eq_some, exists_eq_right]
      rfl
    · rw [hregistered (.loadHierarchy triples p) nofun, ← h.direct]
      rfl
  | addSubclassEdge child parent =>
    refine ⟨_, rfl, fun a b => ?_, fun cls k => ?_, hempty rfl⟩
    · rw [added_append, ← h.parent]
      refine (mem_pushEntry c.hierarchy (child, parent) a b).trans (or_congr_right ?_)
      exact Prod.ext_iff
    · rw [hregistered (.addSubclassEdge child parent) nofun, ← h.direct]
      rfl
  | registerCapability cls name =>
    refine ⟨_, rfl, fun a b => ?_, fun cls' k => ?_, hempty rfl⟩
    · rw [added_append, ← h.parent]
      exact (or_iff_left id).symm
    · rw [mem_direct_register, h.direct]
      unfold Registered
      rw [List.mem_append, List.mem_singleton, Op.registerCapability.injEq]
  | inferCapabilities cls =>
    obtain ⟨caps, c', hinfer, -, hc'⟩ := h.infer cls
    refine ⟨c', ?_, fun a b => ?_, fun cls' k => ?_, hc'.cache⟩
    · change (c.inferCapabilities cls).map Prod.snd = some c'
      rw [hinfer]
      rfl
    · rw [added_append, hc'.parent]
      exact (or_iff_left id).symm
    · rw [hregistered (.inferCapabilities cls) nofun, hc'.direct]

theorem reflects_run (ops : List Op) : ∃ c, ops.foldlM step new = some c ∧ Reflects ops c := by
  induction ops using List.reverseRecOn with
  | nil =>
    refine ⟨new, rfl, fun a b => ?_, fun cls k => ?_, fun cls caps hcaps => ?_⟩
    · exact iff_of_false List.not_mem_nil fun ⟨_, hop, _⟩ => nomatch hop
    · exact iff_of_false (Finset.notMem_empty k) List.not_mem_nil
    · cases hcaps
  | append_singleton ops op ih =>
    obtain ⟨c, hc, hreflects⟩ := ih
    obtain ⟨c', hc', hnext⟩ := hreflects.step op
    refine ⟨c', ?_, hnext⟩
    rw [List.foldlM_append, hc]
    change [op].foldlM CapabilityInference.step c = some c'
    rw [List.foldlM_cons, hc']
    rfl

end Runs

end CapabilityInference

open CapabilityInference in
theorem closure_computed :
    (∀ (order : HashOrder (Bytes × Bytes)) (triples : List Triple) (p : Bytes), ∃ n, ∀ fuel ≥ n, ∃ derived,
      infer order fuel [⟨.subclassTransitivity, p⟩] triples = some (.ok derived) ∧ derived.Nodup ∧
      ∀ t, t ∈ derived ↔ ∃ a b, TransGen (TripleEdge triples p) a b ∧ ¬TripleEdge triples p a b ∧
        t = buildSubclassTriple p (a, b)) ∧
    ∀ (ops : List CapabilityInference.Op) (cls k : Bytes), ∃ c held c', ops.foldlM CapabilityInference.step new = some c ∧
      c.duckType cls k = some (held, c') ∧
      (held = true ↔ Registered ops cls k ∨ ∃ d, TransGen (Added ops) cls d ∧ Registered ops d k) := by
  refine ⟨infer_spec, fun ops cls k => ?_⟩
  obtain ⟨c, hc, hreflects⟩ := reflects_run ops
  obtain ⟨caps, c', hinfer, hcaps, -⟩ := hreflects.infer cls
  refine ⟨c, decide (k ∈ caps), c', hc, ?_, ?_⟩
  · unfold duckType
    rw [hinfer]
    rfl
  · have hparent : Parent c = Added ops := by
      funext a b
      exact propext (hreflects.parent a b)
    rw [decide_eq_true_iff, hcaps, Has, hparent, hreflects.direct]
    simp only [hreflects.direct]

end Fluent.Ontology
