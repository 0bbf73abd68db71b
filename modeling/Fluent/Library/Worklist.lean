import Mathlib.Algebra.BigOperators.Group.Finset.Basic
import Mathlib.Algebra.Order.BigOperators.Group.Finset

namespace Fluent.Library

structure Expansion (N ε : Type*) where
  expand : N → Except ε (List N)
  nodes : Finset N
  known : ∀ n ns, expand n = .ok ns → n ∈ nodes

namespace Expansion

variable {N ε : Type*} {x : Expansion N ε}

inductive Reach (x : Expansion N ε) (seeds : List N) : N → Prop
  | seed {n : N} (h : n ∈ seeds) : Reach x seeds n
  | step {m n : N} {ns : List N} (hm : Reach x seeds m) (h : x.expand m = .ok ns) (hn : n ∈ ns) :
      Reach x seeds n

theorem Reach.mem_of_closed {seeds : List N} {P : N → Prop} (hseeds : ∀ n ∈ seeds, P n)
    (hclosed : ∀ m ns, P m → x.expand m = .ok ns → ∀ n ∈ ns, P n) {n : N} (hn : x.Reach seeds n) :
    P n := by
  induction hn with
  | seed hm => exact hseeds _ hm
  | step _ he hk ih => exact hclosed _ _ ih he _ hk

structure Frontier (x : Expansion N ε) (seeds stack : List N) (visited : Finset N) : Prop where
  sound : ∀ n, n ∈ visited ∨ n ∈ stack → x.Reach seeds n
  covers : ∀ n ∈ seeds, n ∈ visited ∨ n ∈ stack
  expanded : ∀ m ∈ visited, ∃ ns, x.expand m = .ok ns ∧ ∀ n ∈ ns, n ∈ visited ∨ n ∈ stack

theorem Frontier.start {seeds stack : List N} (h : ∀ n, n ∈ stack ↔ n ∈ seeds) :
    Frontier x seeds stack ∅ := by
  refine ⟨fun n hn => ?_, fun n hn => Or.inr ((h n).mpr hn), by simp⟩
  exact .seed ((h n).mp (hn.resolve_left (Finset.notMem_empty n)))

theorem Frontier.skip {seeds stack : List N} {visited : Finset N} {n : N}
    (hf : Frontier x seeds (n :: stack) visited) (hn : n ∈ visited) : Frontier x seeds stack visited := by
  have hdrop : ∀ m, m ∈ visited ∨ m ∈ n :: stack → m ∈ visited ∨ m ∈ stack := by
    rintro m (hm | hm)
    · exact Or.inl hm
    · rcases List.mem_cons.mp hm with rfl | hm
      · exact Or.inl hn
      · exact Or.inr hm
  refine ⟨fun m hm => hf.sound m (hm.imp_right (List.mem_cons_of_mem n)),
    fun m hm => hdrop m (hf.covers m hm), fun m hm => ?_⟩
  obtain ⟨ns, he, hns⟩ := hf.expanded m hm
  exact ⟨ns, he, fun k hk => hdrop k (hns k hk)⟩

theorem Frontier.done {seeds : List N} {visited : Finset N} (hf : Frontier x seeds [] visited) (n : N) :
    n ∈ visited ↔ x.Reach seeds n := by
  refine ⟨fun hn => hf.sound n (Or.inl hn), fun hn => ?_⟩
  apply hn.mem_of_closed (P := (· ∈ visited))
  · intro m hm
    simpa using hf.covers m hm
  · intro m ns hm he k hk
    obtain ⟨ms, hms, hall⟩ := hf.expanded m hm
    obtain rfl : ns = ms := Except.ok.inj (he.symm.trans hms)
    simpa using hall k hk

section Explore

variable [DecidableEq N] (x)

def cost (n : N) : ℕ := 1 + ((x.expand n).toOption.getD []).length

def pushFresh (visited : Finset N) (ns stack : List N) : List N :=
  (ns.filter (· ∉ visited)).reverse ++ stack

theorem mem_pushFresh {visited : Finset N} {ns stack : List N} {n : N} :
    n ∈ pushFresh visited ns stack ↔ n ∈ ns ∧ n ∉ visited ∨ n ∈ stack := by
  simp [pushFresh]

def exploreMeasure (stack : List N) (visited : Finset N) : ℕ :=
  stack.length + ∑ n ∈ x.nodes \ visited, x.cost n

theorem exploreMeasure_expand {n : N} {ns : List N} (h : x.expand n = .ok ns) {visited : Finset N}
    (hn : n ∉ visited) (stack : List N) :
    x.exploreMeasure (pushFresh (insert n visited) ns stack) (insert n visited) <
      x.exploreMeasure (n :: stack) visited := by
  have hmem : n ∈ x.nodes \ visited := Finset.mem_sdiff.mpr ⟨x.known n ns h, hn⟩
  have hsum := Finset.add_sum_erase (x.nodes \ visited) x.cost hmem
  have hcost : x.cost n = 1 + ns.length := by simp [cost, h, Except.toOption]
  have hlen := List.length_filter_le (· ∉ insert n visited) ns
  rw [exploreMeasure, exploreMeasure, pushFresh, Finset.sdiff_insert, List.length_append, List.length_reverse,
    List.length_cons, ← hsum]
  omega

def explore : List N → Finset N → Except ε (Finset N)
  | [], visited => .ok visited
  | n :: stack, visited =>
    if _hn : n ∈ visited then explore stack visited
    else
      match _he : x.expand n with
      | .error e => .error e
      | .ok ns => explore (pushFresh (insert n visited) ns stack) (insert n visited)
  termination_by stack visited => x.exploreMeasure stack visited
  decreasing_by
    · simp [exploreMeasure]
    · exact x.exploreMeasure_expand _he _hn _

variable {x}

theorem Frontier.expand {seeds stack : List N} {visited : Finset N} {n : N} {ns : List N}
    (hf : Frontier x seeds (n :: stack) visited) (he : x.expand n = .ok ns) :
    Frontier x seeds (pushFresh (insert n visited) ns stack) (insert n visited) := by
  have hreach : x.Reach seeds n := hf.sound n (Or.inr List.mem_cons_self)
  have hkeep : ∀ m, m ∈ visited ∨ m ∈ n :: stack → m ∈ insert n visited ∨
      m ∈ pushFresh (insert n visited) ns stack := by
    rintro m (hm | hm)
    · exact Or.inl (Finset.mem_insert_of_mem hm)
    · rcases List.mem_cons.mp hm with rfl | hm
      · exact Or.inl (Finset.mem_insert_self _ _)
      · exact Or.inr (mem_pushFresh.mpr (Or.inr hm))
  refine ⟨fun m hm => ?_, fun m hm => hkeep m (hf.covers m hm), fun m hm => ?_⟩
  · rcases hm with hm | hm
    · rcases Finset.mem_insert.mp hm with rfl | hm
      · exact hreach
      · exact hf.sound m (Or.inl hm)
    · rcases mem_pushFresh.mp hm with ⟨hm, -⟩ | hm
      · exact .step hreach he hm
      · exact hf.sound m (Or.inr (List.mem_cons_of_mem n hm))
  · rcases Finset.mem_insert.mp hm with rfl | hm
    · refine ⟨ns, he, fun k hk => ?_⟩
      by_cases hv : k ∈ insert m visited
      · exact Or.inl hv
      · exact Or.inr (mem_pushFresh.mpr (Or.inl ⟨hk, hv⟩))
    · obtain ⟨ms, hms, hall⟩ := hf.expanded m hm
      exact ⟨ms, hms, fun k hk => hkeep k (hall k hk)⟩

theorem explore_spec {seeds stack : List N} {visited : Finset N} (hf : Frontier x seeds stack visited) :
    match x.explore stack visited with
    | .ok result => ∀ n, (n ∈ result ↔ x.Reach seeds n) ∧ (n ∈ result → ∃ ns, x.expand n = .ok ns)
    | .error e => ∃ n, x.Reach seeds n ∧ x.expand n = .error e := by
  fun_induction x.explore stack visited with
  | case1 visited =>
    refine fun n => ⟨hf.done n, fun hn => ?_⟩
    obtain ⟨ns, he, -⟩ := hf.expanded n hn
    exact ⟨ns, he⟩
  | case2 n stack visited hn ih => exact ih (hf.skip hn)
  | case3 n stack visited hn e he => exact ⟨n, hf.sound n (Or.inr List.mem_cons_self), he⟩
  | case4 n stack visited hn ns he ih => exact ih (hf.expand he)

theorem explore_ok {seeds stack : List N} (hs : ∀ n, n ∈ stack ↔ n ∈ seeds) {result : Finset N}
    (h : x.explore stack ∅ = .ok result) (n : N) :
    (n ∈ result ↔ x.Reach seeds n) ∧ (n ∈ result → ∃ ns, x.expand n = .ok ns) := by
  have hspec := explore_spec (Frontier.start (x := x) hs)
  rw [h] at hspec
  exact hspec n

theorem explore_error {seeds stack : List N} (hs : ∀ n, n ∈ stack ↔ n ∈ seeds) {e : ε}
    (h : x.explore stack ∅ = .error e) : ∃ n, x.Reach seeds n ∧ x.expand n = .error e := by
  have hspec := explore_spec (Frontier.start (x := x) hs)
  rwa [h] at hspec

theorem explore_congr {stack stack' : List N} (h : ∀ n, n ∈ stack ↔ n ∈ stack') :
    (x.explore stack ∅).toOption = (x.explore stack' ∅).toOption := by
  cases hr : x.explore stack ∅ with
  | ok result =>
    cases hr' : x.explore stack' ∅ with
    | ok result' =>
      have heq : result = result' := by
        ext n
        rw [(explore_ok h hr n).1, (explore_ok (fun _ => Iff.rfl) hr' n).1]
      rw [heq]
    | error e =>
      obtain ⟨n, hn, he⟩ := explore_error (fun _ => Iff.rfl) hr'
      have hok := explore_ok h hr n
      obtain ⟨ns, hns⟩ := hok.2 (hok.1.mpr hn)
      rw [hns] at he
      exact absurd he (by simp)
  | error e =>
    cases hr' : x.explore stack' ∅ with
    | ok result' =>
      obtain ⟨n, hn, he⟩ := explore_error h hr
      have hok := explore_ok (fun _ => Iff.rfl) hr' n
      obtain ⟨ns, hns⟩ := hok.2 (hok.1.mpr hn)
      rw [hns] at he
      exact absurd he (by simp)
    | error e' => rfl

end Explore

end Expansion

end Fluent.Library
