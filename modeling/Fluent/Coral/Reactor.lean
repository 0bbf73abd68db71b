import Mathlib.Logic.Relation
import Fluent.Library.HashContainers
import Fluent.Library.Utf8
import Fluent.Spacy.Hash

namespace Fluent.Coral

open Fluent.Library
open Fluent.Spacy (Text)

inductive CacheTier where
  | l1Memory
  | l2WasmWorkflow
  | l3Graph
  | l4Semantic
  | l45Decompose
  | l5Frontier
deriving DecidableEq

structure RoutingResult where
  query : Text
  result : Text
  tier : CacheTier
deriving DecidableEq

structure QueueReactor where
  tiers : List (Text → Option RoutingResult)
  decomposer : Option (Text → List Text)
  maxDepth : ℕ

abbrev L1Cache := HashMap Text RoutingResult

def execute (tiers : List (Text → Option RoutingResult)) (query : Text) : Option RoutingResult :=
  tiers.findSome? fun tier => tier query

def pushResult (merged : Text) : Option RoutingResult → Text
  | none => merged
  | some sub => (if merged = [] then merged else merged ++ "\n---\n".toList) ++ sub.result

namespace QueueReactor

variable (r : QueueReactor)

def subtasks (query : Text) : List Text :=
  match r.decomposer with
  | none => []
  | some decompose => decompose query

def lookFirst (decomposed : L1Cache → Text → Option RoutingResult × L1Cache) (l1 : L1Cache) (query : Text) :
    Option RoutingResult × L1Cache :=
  match l1.lookup query with
  | some cached => (some cached, l1)
  | none =>
    match execute r.tiers query with
    | some result => (some result, l1.insert query result)
    | none => decomposed l1 query

def routeSubtasks (route : L1Cache → Text → Option RoutingResult × L1Cache) (subtasks : List Text)
    (start : Text × L1Cache) : Text × L1Cache :=
  subtasks.foldl (fun state subtask =>
    let routed := route state.2 subtask
    (pushResult state.1 routed.1, routed.2)) start

/-- `route_with_depth` by the depth that remains, `max_depth - depth`. -/
def routeWithDepth : ℕ → L1Cache → Text → Option RoutingResult × L1Cache
  | 0 => r.lookFirst fun l1 _ => (none, l1)
  | remaining + 1 => r.lookFirst fun l1 query =>
    let merged := routeSubtasks (routeWithDepth remaining) (r.subtasks query) ([], l1)
    if merged.1 = [] then (none, merged.2)
    else
      let result := { query, result := merged.1, tier := .l45Decompose }
      (some result, merged.2.insert query result)

def route (l1 : L1Cache) (query : Text) : Option RoutingResult × L1Cache := r.routeWithDepth r.maxDepth l1 query

def afterRoutes (queries : List Text) : L1Cache := queries.foldl (fun l1 query => (r.route l1 query).2) ∅

def Transparent : Prop :=
  ∀ earlier query, ((r.route (r.afterRoutes earlier) query).1.map fun a => (a.result, a.tier)) =
    (r.route ∅ query).1.map fun a => (a.result, a.tier)

end QueueReactor

section Below

variable (tiers : List (Text → Option RoutingResult)) (R : Text → Text → Prop)

inductive Below : ℕ → Text → Text → Prop where
  | here (q : Text) : Below 0 q q
  | down {n : ℕ} {a b c : Text} (missed : execute tiers a = none) (sub : R a b) (rest : Below n b c) : Below (n + 1) a c

/-- Nothing that the tiers answer lies one decomposition below the deepest query that may be decomposed. -/
def NoneCutOff (maxDepth : ℕ) : Prop :=
  ∀ a b, Below tiers R (maxDepth + 1) a b → ∀ answer, execute tiers b = some answer → answer.result = []

variable {tiers R}

theorem Below.snoc {n : ℕ} {a b c : Text} (h : Below tiers R n a b) (missed : execute tiers b = none) (sub : R b c) :
    Below tiers R (n + 1) a c := by
  induction h with
  | here q => exact .down missed sub (.here c)
  | down missed' sub' _ ih => exact .down missed' sub' (ih missed sub)

end Below

namespace QueueReactor

variable (r : QueueReactor)

def answerOf (query merged : Text) : Option RoutingResult :=
  if merged = [] then none else some { query, result := merged, tier := .l45Decompose }

def evaluate : ℕ → Text → Option RoutingResult
  | 0, query => execute r.tiers query
  | remaining + 1, query =>
    match execute r.tiers query with
    | some result => some result
    | none => answerOf query (((r.subtasks query).map (evaluate remaining)).foldl pushResult [])

theorem evaluate_of_hit {query : Text} {result : RoutingResult} (h : execute r.tiers query = some result) (k : ℕ) :
    r.evaluate k query = some result := by
  cases k with
  | zero => exact h
  | succ k => rw [evaluate, h]

theorem evaluate_of_miss {query : Text} (h : execute r.tiers query = none) (k : ℕ) :
    r.evaluate (k + 1) query = answerOf query (((r.subtasks query).map (r.evaluate k)).foldl pushResult []) := by
  rw [evaluate, h]

def Proposes (q p : Text) : Prop := p ∈ r.subtasks q

variable {r} {R : Text → Text → Prop}

theorem evaluate_cut_off (hR : ∀ q, ∀ p ∈ r.subtasks q, R q p) (h : NoneCutOff r.tiers R r.maxDepth) (k : ℕ)
    {a q : Text} (hbelow : Below r.tiers R r.maxDepth a q) (missed : execute r.tiers q = none) :
    r.evaluate k q = none := by
  induction k generalizing a q with
  | zero => exact missed
  | succ k ih =>
    have hempty : ∀ p ∈ r.subtasks q, pushResult [] (r.evaluate k p) = [] := by
      intro p hp
      have hp' := hbelow.snoc missed (hR q p hp)
      cases hhit : execute r.tiers p with
      | some answer =>
        rw [r.evaluate_of_hit hhit k]
        exact h a p hp' answer hhit
      | none =>
        cases hp' with
        | down _ _ rest => rw [ih rest hhit]; rfl
    have hfold : ∀ l : List Text, (∀ p ∈ l, pushResult [] (r.evaluate k p) = []) →
        (l.map (r.evaluate k)).foldl pushResult [] = [] := by
      intro l hl
      induction l with
      | nil => rfl
      | cons p l ihl =>
        rw [List.map_cons, List.foldl_cons, hl p List.mem_cons_self]
        exact ihl fun p hp => hl p (List.mem_cons_of_mem _ hp)
    rw [r.evaluate_of_miss missed, hfold _ hempty]
    rfl

theorem evaluate_stable (hR : ∀ q, ∀ p ∈ r.subtasks q, R q p) (h : NoneCutOff r.tiers R r.maxDepth) {d n k : ℕ}
    {a q : Text} (hbelow : Below r.tiers R d a q) (hd : d + n = r.maxDepth) (hk : n ≤ k) :
    r.evaluate k q = r.evaluate n q := by
  induction n generalizing d k q with
  | zero =>
    cases hhit : execute r.tiers q with
    | some answer => rw [r.evaluate_of_hit hhit, r.evaluate_of_hit hhit]
    | none =>
      rw [Nat.add_zero] at hd
      rw [hd] at hbelow
      rw [evaluate_cut_off hR h k hbelow hhit, evaluate_cut_off hR h 0 hbelow hhit]
  | succ n ih =>
    cases hhit : execute r.tiers q with
    | some answer => rw [r.evaluate_of_hit hhit, r.evaluate_of_hit hhit]
    | none =>
      obtain ⟨k, rfl⟩ : ∃ k', k = k' + 1 := ⟨k - 1, by omega⟩
      have hsub : (r.subtasks q).map (r.evaluate k) = (r.subtasks q).map (r.evaluate n) :=
        List.map_congr_left fun p hp => ih (hbelow.snoc hhit (hR q p hp)) (by omega) (by omega)
      rw [r.evaluate_of_miss hhit, r.evaluate_of_miss hhit, hsub]

variable (r) in
def Uncut : Prop :=
  ∀ d n a q, Below r.tiers r.Proposes d a q → d + n = r.maxDepth → r.evaluate n q = r.evaluate r.maxDepth q

theorem uncut_of_noneCutOff (hR : ∀ q, ∀ p ∈ r.subtasks q, R q p)
    (h : r.maxDepth = 0 ∨ NoneCutOff r.tiers R r.maxDepth) : r.Uncut := by
  intro d n a q hbelow hd
  obtain hzero | hnone := h
  · have : n = r.maxDepth := by omega
    rw [this]
  · have hR' : Below r.tiers R d a q := by
      clear hd
      induction hbelow with
      | here q => exact .here q
      | down missed sub _ ih => exact .down missed (hR _ _ sub) ih
    exact (evaluate_stable hR hnone hR' hd (by omega)).symm

def Exact (r : QueueReactor) (l1 : L1Cache) : Prop :=
  ∀ q cached, l1.lookup q = some cached → r.evaluate r.maxDepth q = some cached

theorem Exact.insert {l1 : L1Cache} (h : r.Exact l1) {q : Text} {result : RoutingResult}
    (hq : r.evaluate r.maxDepth q = some result) : r.Exact (l1.insert q result) := by
  intro p cached hp
  rw [HashMap.lookup_insert_ite] at hp
  split_ifs at hp with he
  · rw [he, hq, hp]
  · exact h p cached hp

theorem routeSubtasks_exact {route : L1Cache → Text → Option RoutingResult × L1Cache} {subtasks : List Text}
    (hroute : ∀ p ∈ subtasks, ∀ l1, r.Exact l1 → (route l1 p).1 = r.evaluate r.maxDepth p ∧ r.Exact (route l1 p).2)
    {l1 : L1Cache} (h : r.Exact l1) (merged : Text) :
    (routeSubtasks route subtasks (merged, l1)).1 =
        (subtasks.map (r.evaluate r.maxDepth)).foldl pushResult merged ∧
      r.Exact (routeSubtasks route subtasks (merged, l1)).2 := by
  induction subtasks generalizing l1 merged with
  | nil => exact ⟨rfl, h⟩
  | cons p subtasks ih =>
    obtain ⟨hp, hl1⟩ := hroute p List.mem_cons_self l1 h
    have hrest := ih (fun p hp => hroute p (List.mem_cons_of_mem _ hp)) hl1 (pushResult merged (route l1 p).1)
    rw [List.map_cons, List.foldl_cons, ← hp]
    exact hrest

theorem routeWithDepth_exact (huncut : r.Uncut) {n d : ℕ} {a q : Text} (hbelow : Below r.tiers r.Proposes d a q)
    (hd : d + n = r.maxDepth) {l1 : L1Cache} (h : r.Exact l1) :
    (r.routeWithDepth n l1 q).1 = r.evaluate r.maxDepth q ∧ r.Exact (r.routeWithDepth n l1 q).2 := by
  induction n generalizing d q l1 with
  | zero =>
    rw [routeWithDepth, lookFirst]
    cases hcached : l1.lookup q with
    | some cached => exact ⟨(h q cached hcached).symm, h⟩
    | none =>
      cases hhit : execute r.tiers q with
      | some result => exact ⟨(r.evaluate_of_hit hhit _).symm, h.insert (r.evaluate_of_hit hhit _)⟩
      | none => exact ⟨hhit.symm.trans (huncut d 0 a q hbelow hd), h⟩
  | succ n ih =>
    rw [routeWithDepth, lookFirst]
    cases hcached : l1.lookup q with
    | some cached => exact ⟨(h q cached hcached).symm, h⟩
    | none =>
      cases hhit : execute r.tiers q with
      | some result => exact ⟨(r.evaluate_of_hit hhit _).symm, h.insert (r.evaluate_of_hit hhit _)⟩
      | none =>
        have hsub (p : Text) (hp : p ∈ r.subtasks q) := hbelow.snoc hhit (c := p) hp
        have hroute (p : Text) (hp : p ∈ r.subtasks q) (l1 : L1Cache) (hl1 : r.Exact l1) :=
          ih (hsub p hp) (by omega) hl1
        obtain ⟨hmerged, hl1⟩ := routeSubtasks_exact hroute h []
        have heval : r.evaluate r.maxDepth q = answerOf q
            (routeSubtasks (r.routeWithDepth n) (r.subtasks q) ([], l1)).1 := by
          rw [hmerged, ← huncut d (n + 1) a q hbelow hd, r.evaluate_of_miss hhit]
          congr 2
          exact List.map_congr_left fun p hp => huncut (d + 1) n a p (hsub p hp) (by omega)
        unfold answerOf at heval
        dsimp only
        split_ifs with hempty
        · rw [if_pos hempty] at heval
          exact ⟨heval.symm, hl1⟩
        · rw [if_neg hempty] at heval
          exact ⟨heval.symm, hl1.insert heval⟩

theorem transparent_of_uncut (huncut : r.Uncut) : r.Transparent := by
  have hroute (l1 : L1Cache) (h : r.Exact l1) (q : Text) :=
    routeWithDepth_exact huncut (.here q) (Nat.zero_add r.maxDepth) h
  have hempty : r.Exact ∅ := fun q cached hq => nomatch (Finmap.lookup_empty q).symm.trans hq
  have hafter (earlier : List Text) : ∀ l1, r.Exact l1 →
      r.Exact (earlier.foldl (fun l1 query => (r.route l1 query).2) l1) := by
    induction earlier with
    | nil => exact fun _ h => h
    | cons q earlier ih => exact fun l1 h => ih _ (hroute l1 h q).2
  intro earlier query
  have hone := (hroute _ (hafter earlier ∅ hempty) query).1
  have htwo := (hroute _ hempty query).1
  unfold afterRoutes route at *
  rw [hone, htwo]

/-! A chain that is cut off, and nothing else to decompose. -/

theorem chain_of_below {tiers : List (Text → Option RoutingResult)} {n : ℕ} {a b : Text}
    (h : Below tiers R n a b) :
    ∃ c : ℕ → Text, c 0 = a ∧ c n = b ∧ ∀ i < n, execute tiers (c i) = none ∧ R (c i) (c (i + 1)) := by
  induction h with
  | here q => exact ⟨fun _ => q, rfl, rfl, fun i hi => absurd hi (Nat.not_lt_zero i)⟩
  | @down n a b c missed sub rest ih =>
    obtain ⟨chain, hzero, hlast, hchain⟩ := ih
    refine ⟨fun i => Nat.casesOn i a chain, rfl, hlast, fun i hi => ?_⟩
    cases i with
    | zero => exact ⟨missed, by rw [← hzero] at sub; exact sub⟩
    | succ i => exact hchain i (Nat.lt_of_succ_lt_succ hi)

theorem chain_injective {c : ℕ → Text} {n : ℕ} (hchain : ∀ i < n, R (c i) (c (i + 1)))
    (acyclic : ∀ q, ¬Relation.TransGen R q q) {i j : ℕ} (hi : i < n) (hj : j < n) (h : c i = c j) : i = j := by
  have hpath : ∀ i k, i + k + 1 ≤ n → Relation.TransGen R (c i) (c (i + k + 1)) := by
    intro i k hk
    induction k with
    | zero => exact .single (hchain i (by omega))
    | succ k ih => exact .tail (ih (by omega)) (hchain (i + k + 1) (by omega))
  have hne : ∀ i j, i < j → j < n → c i ≠ c j := by
    intro i j hij hj he
    have := hpath i (j - i - 1) (by omega)
    rw [show i + (j - i - 1) + 1 = j by omega, he] at this
    exact acyclic _ this
  rcases Nat.lt_trichotomy i j with hlt | he | hlt
  · exact absurd h (hne i j hlt hj)
  · exact he
  · exact absurd h.symm (hne j i hlt hi)

def alongChain (c : ℕ → Text) (n : ℕ) (q : Text) : List Text :=
  (((List.range n).find? fun i => c i = q).map fun i => c (i + 1)).toList

theorem mem_alongChain {c : ℕ → Text} {n : ℕ} {q p : Text} (h : p ∈ alongChain c n q) :
    ∃ i < n, c i = q ∧ p = c (i + 1) := by
  obtain ⟨i, hi, rfl⟩ := Option.map_eq_some_iff.mp (Option.mem_toList.mp h)
  exact ⟨i, List.mem_range.mp (List.mem_of_find?_eq_some hi), by simpa using List.find?_some hi, rfl⟩

theorem alongChain_at {c : ℕ → Text} {n : ℕ} (hinj : ∀ i < n, ∀ j < n, c i = c j → i = j) {i : ℕ} (hi : i < n) :
    alongChain c n (c i) = [c (i + 1)] := by
  unfold alongChain
  cases hfind : (List.range n).find? fun j => c j = c i with
  | none =>
    have := List.find?_eq_none.mp hfind i (List.mem_range.mpr hi)
    simp at this
  | some j =>
    have hj : c j = c i := by simpa using List.find?_some hfind
    rw [hinj j (List.mem_range.mp (List.mem_of_find?_eq_some hfind)) i hi hj]
    rfl

section Chain

variable {c : ℕ → Text} (hmiss : ∀ i ≤ r.maxDepth, execute r.tiers (c i) = none)
  (hsub : ∀ i ≤ r.maxDepth, r.subtasks (c i) = [c (i + 1)])
include hmiss hsub

theorem chain_missed {n i : ℕ} (hi : i + n ≤ r.maxDepth) : r.routeWithDepth n ∅ (c i) = (none, ∅) := by
  induction n generalizing i with
  | zero =>
    rw [routeWithDepth, lookFirst, Finmap.lookup_empty, hmiss i hi]
  | succ n ih =>
    have hnext := ih (i := i + 1) (by omega)
    rw [routeWithDepth, lookFirst, Finmap.lookup_empty, hmiss i (by omega)]
    simp only [hsub i (by omega), routeSubtasks, List.foldl_cons, List.foldl_nil, hnext, pushResult, if_true]

theorem chain_answered {answer : RoutingResult} (hanswer : execute r.tiers (c (r.maxDepth + 1)) = some answer)
    (hne : answer.result ≠ []) {n i : ℕ} (hi : i + n = r.maxDepth + 1) :
    ∃ result, result.result ≠ [] ∧ (r.routeWithDepth n ∅ (c i)).1 = some result ∧
      (r.routeWithDepth n ∅ (c i)).2.lookup (c i) = some result := by
  induction n generalizing i with
  | zero =>
    rw [Nat.add_zero] at hi
    refine ⟨answer, hne, ?_⟩
    rw [hi, routeWithDepth, lookFirst, Finmap.lookup_empty, hanswer]
    exact ⟨rfl, Finmap.lookup_insert _⟩
  | succ n ih =>
    obtain ⟨result, hresult, hrouted, -⟩ := ih (i := i + 1) (by omega)
    refine ⟨{ query := c i, result := result.result, tier := .l45Decompose }, hresult, ?_⟩
    rw [routeWithDepth, lookFirst, Finmap.lookup_empty, hmiss i (by omega)]
    simp only [hsub i (by omega), routeSubtasks, List.foldl_cons, List.foldl_nil, hrouted, pushResult, if_true,
      List.nil_append, if_neg hresult]
    exact ⟨trivial, Finmap.lookup_insert _⟩

theorem chain_not_transparent (hpos : r.maxDepth ≠ 0) {answer : RoutingResult}
    (hanswer : execute r.tiers (c (r.maxDepth + 1)) = some answer) (hne : answer.result ≠ []) : ¬r.Transparent := by
  intro htrans
  obtain ⟨m, hm⟩ := Nat.exists_eq_succ_of_ne_zero hpos
  obtain ⟨result, hresult, -, hcached⟩ :=
    chain_answered hmiss hsub hanswer hne (n := r.maxDepth) (i := 1) (Nat.add_comm 1 _)
  have hfresh : (r.route ∅ (c 0)).1 = none := by
    rw [route, chain_missed hmiss hsub (by omega)]
  have hsame := htrans [c 1] (c 0)
  rw [hfresh, Option.map_none, Option.map_eq_none_iff] at hsame
  have hafter : r.afterRoutes [c 1] = (r.routeWithDepth r.maxDepth ∅ (c 1)).2 := rfl
  rw [route, hafter] at hsame
  generalize (r.routeWithDepth r.maxDepth ∅ (c 1)).2 = l1 at hcached hsame
  have hone : r.routeWithDepth m l1 (c 1) = (some result, l1) := by
    cases m <;> rw [routeWithDepth, lookFirst, hcached]
  rw [hm, routeWithDepth, lookFirst] at hsame
  cases hzero : l1.lookup (c 0) with
  | some cached =>
    rw [hzero] at hsame
    exact nomatch hsame
  | none =>
    rw [hzero, hmiss 0 (Nat.zero_le _)] at hsame
    simp only [hsub 0 (Nat.zero_le _), routeSubtasks, List.foldl_cons, List.foldl_nil, Nat.zero_add, hone, pushResult,
      if_true, List.nil_append, if_neg hresult] at hsame
    exact nomatch hsame

end Chain

end QueueReactor

open QueueReactor

theorem route_transparent (tiers : List (Text → Option RoutingResult)) (maxDepth : ℕ) (R : Text → Text → Prop) :
    (maxDepth = 0 ∨ NoneCutOff tiers R maxDepth → ∀ decomposer,
      (∀ decompose ∈ decomposer, ∀ q, ∀ p ∈ decompose q, R q p) →
        (QueueReactor.mk tiers decomposer maxDepth).Transparent) ∧
    ((∀ q, ¬Relation.TransGen R q q) →
      (∀ decomposer, (∀ decompose ∈ decomposer, ∀ q, ∀ p ∈ decompose q, R q p) →
        (QueueReactor.mk tiers decomposer maxDepth).Transparent) →
      maxDepth = 0 ∨ NoneCutOff tiers R maxDepth) := by
  constructor
  · intro h decomposer hdraws
    refine transparent_of_uncut (uncut_of_noneCutOff (R := R) (fun q p hp => ?_) h)
    cases decomposer with
    | none => exact absurd hp List.not_mem_nil
    | some decompose => exact hdraws decompose rfl q p hp
  · intro acyclic htrans
    by_contra hcon
    obtain ⟨hpos, hcut⟩ := not_or.mp hcon
    simp only [NoneCutOff, not_forall, exists_prop] at hcut
    obtain ⟨a, b, hbelow, answer, hanswer, hne⟩ := hcut
    obtain ⟨c, -, rfl, hchain⟩ := chain_of_below hbelow
    have hinj : ∀ i < maxDepth + 1, ∀ j < maxDepth + 1, c i = c j → i = j := fun i hi j hj =>
      chain_injective (fun i hi => (hchain i hi).2) acyclic hi hj
    refine chain_not_transparent (r := ⟨tiers, some (alongChain c (maxDepth + 1)), maxDepth⟩)
      (fun i hi => (hchain i (Nat.lt_succ_of_le hi)).1) (fun i hi => alongChain_at hinj (Nat.lt_succ_of_le hi))
      hpos hanswer hne (htrans _ ?_)
    rintro _ ⟨⟩ q p hp
    obtain ⟨i, hi, rfl, rfl⟩ := mem_alongChain hp
    exact (hchain i hi).2

def planReactor : QueueReactor where
  tiers := [fun query => if query = "leaf".toList then some ⟨query, "answer".toList, .l3Graph⟩ else none]
  decomposer := some fun query =>
    if query = "plan".toList then ["step".toList] else if query = "step".toList then ["leaf".toList] else []
  maxDepth := 1

theorem planReactor_subtasks {q p : Text} (h : p ∈ planReactor.subtasks q) :
    q = "plan".toList ∧ p = "step".toList ∨ q = "step".toList ∧ p = "leaf".toList := by
  change p ∈ (if q = "plan".toList then ["step".toList] else if q = "step".toList then ["leaf".toList] else []) at h
  split_ifs at h with hplan hstep
  · exact .inl ⟨hplan, List.mem_singleton.mp h⟩
  · exact .inr ⟨hstep, List.mem_singleton.mp h⟩
  · cases h

theorem deep_plan_transparent :
    (({ planReactor with maxDepth := 2 } : QueueReactor).route ∅ "plan".toList).1 =
        some ⟨"plan".toList, "answer".toList, .l45Decompose⟩ ∧
      ({ planReactor with maxDepth := 2 } : QueueReactor).Transparent := by
  refine ⟨by decide +kernel, (route_transparent planReactor.tiers 2 fun q p => p ∈ planReactor.subtasks q).1 (.inr ?_)
    planReactor.decomposer ?_⟩
  · rintro a b (_ | ⟨-, hfirst, _ | ⟨-, hsecond, _ | ⟨-, hthird, -⟩⟩⟩)
    obtain ⟨rfl, rfl⟩ | ⟨rfl, rfl⟩ := planReactor_subtasks hfirst
    · obtain ⟨h, -⟩ | ⟨-, rfl⟩ := planReactor_subtasks hsecond
      · exact absurd h (by decide)
      · exact (planReactor_subtasks hthird).elim (fun h => absurd h.1 (by decide)) fun h => absurd h.1 (by decide)
    · exact (planReactor_subtasks hsecond).elim (fun h => absurd h.1 (by decide)) fun h => absurd h.1 (by decide)
  · rintro _ ⟨⟩ q p hp
    exact hp

theorem plan_answered_later :
    (planReactor.route ∅ "plan".toList).1 = none ∧
      (planReactor.route (planReactor.afterRoutes ["step".toList]) "plan".toList).1 =
        some ⟨"plan".toList, "answer".toList, .l45Decompose⟩ := by
  decide +kernel

end Fluent.Coral
