import Fluent.CommonCore.Cache

namespace Fluent.CommonCore

variable {C : Type*}

def evictRecording (freed : C → ℕ) (c : C) (evicted : List C) : Option ℕ × List C := (some (freed c), evicted ++ [c])

def usedAfter (freed : C → ℕ) (used : ℕ) (cs : List C) : ℕ := cs.foldl (fun used c => used - freed c) used

structure StopsAt (freed : C → ℕ) (used budget batch : ℕ) (evicted kept : List C) : Prop where
  goes_on : ∀ m < evicted.length, budget < usedAfter freed used (evicted.take m) ∧ m < batch
  stops : kept = [] ∨ usedAfter freed used evicted ≤ budget ∨ batch ≤ evicted.length

theorem evictUntilFit_recording (freed : C → ℕ) (budget batch : ℕ) (cs : List C) (used : ℕ) (done : List C) :
    ∃ evicted kept, cs = evicted ++ kept ∧
      evictUntilFit (evictRecording freed) budget batch cs used done.length done =
        ((usedAfter freed used evicted, done.length + evicted.length), done ++ evicted) ∧
      (∀ m < evicted.length, budget < usedAfter freed used (evicted.take m) ∧ done.length + m < batch) ∧
      (kept = [] ∨ usedAfter freed used evicted ≤ budget ∨ batch ≤ done.length + evicted.length) := by
  induction cs generalizing used done with
  | nil => exact ⟨[], [], rfl, by simp [evictUntilFit, usedAfter], by simp, Or.inl rfl⟩
  | cons c cs ih =>
    by_cases hstop : used ≤ budget ∨ batch ≤ done.length
    · refine ⟨[], c :: cs, rfl, ?_, by simp, Or.inr (by simpa [usedAfter] using hstop)⟩
      rw [evictUntilFit_stop hstop]
      simp [usedAfter]
    · obtain ⟨evicted, kept, rfl, hrun, hgoes, hstops⟩ := ih (used - freed c) (done ++ [c])
      rw [List.length_append, List.length_singleton] at hrun hgoes hstops
      refine ⟨c :: evicted, kept, rfl, ?_, ?_, ?_⟩
      · rw [evictUntilFit_some hstop rfl]
        simp only [evictRecording, hrun, usedAfter, List.foldl_cons, List.length_cons, List.append_assoc,
          List.singleton_append]
        congr 2
        omega
      · intro m hm
        cases m with
        | zero => simp only [List.take_zero, usedAfter, List.foldl_nil]; omega
        | succ m =>
          have hlt : m < evicted.length := by simpa using hm
          obtain ⟨hover, hbatch⟩ := hgoes m hlt
          exact ⟨hover, by omega⟩
      · rw [List.length_cons, show done.length + (evicted.length + 1) = done.length + 1 + evicted.length by omega]
        exact hstops

section Order

variable (now : ℤ) (freedOf : C → ℕ) (lastUsedOf : C → ℤ)

theorem pairwise_evictionOrder (candidates : List C) :
    (evictionOrder now freedOf lastUsedOf candidates).Pairwise
      (fun a b => evictsBefore now freedOf lastUsedOf a b = true) := by
  apply List.pairwise_mergeSort
  · intro a b c hab hbc
    simp only [evictsBefore, decide_eq_true_eq] at hab hbc ⊢
    omega
  · intro a b
    simp only [evictsBefore, Bool.or_eq_true, decide_eq_true_eq]
    omega

structure EvictsInOrder (freed : C → ℕ) (used budget batch : ℕ) (evicted kept : List C) : Prop where
  by_score : ∀ a ∈ evicted, ∀ b ∈ kept, scoreOf now freedOf lastUsedOf b ≤ scoreOf now freedOf lastUsedOf a
  keeps_older : ∀ a ∈ evicted, ∀ b ∈ kept, scoreOf now freedOf lastUsedOf a = scoreOf now freedOf lastUsedOf b →
    lastUsedOf b ≤ lastUsedOf a
  stopsAt : StopsAt freed used budget batch evicted kept

def evictedOf (freed : C → ℕ) (used budget batch : ℕ) (candidates : List C) : List C :=
  (evictUntilFit (evictRecording freed) budget batch (evictionOrder now freedOf lastUsedOf candidates) used 0 []).2

def keptOf (freed : C → ℕ) (used budget batch : ℕ) (candidates : List C) : List C :=
  (evictionOrder now freedOf lastUsedOf candidates).drop
    (evictedOf now freedOf lastUsedOf freed used budget batch candidates).length

theorem evictedOf_append_keptOf (freed : C → ℕ) (used budget batch : ℕ) (candidates : List C) :
    evictedOf now freedOf lastUsedOf freed used budget batch candidates ++
        keptOf now freedOf lastUsedOf freed used budget batch candidates =
      evictionOrder now freedOf lastUsedOf candidates ∧
    StopsAt freed used budget batch (evictedOf now freedOf lastUsedOf freed used budget batch candidates)
      (keptOf now freedOf lastUsedOf freed used budget batch candidates) := by
  obtain ⟨evicted, kept, horder, hrun, hgoes, hstops⟩ :=
    evictUntilFit_recording freed budget batch (evictionOrder now freedOf lastUsedOf candidates) used []
  have hevicted : evictedOf now freedOf lastUsedOf freed used budget batch candidates = evicted := by
    rw [evictedOf]
    exact congrArg Prod.snd hrun
  have hkept : keptOf now freedOf lastUsedOf freed used budget batch candidates = kept := by
    rw [keptOf, hevicted, horder, List.drop_left]
  rw [hevicted, hkept, horder]
  simp only [List.length_nil, Nat.zero_add] at hgoes hstops
  exact ⟨rfl, hgoes, hstops⟩

theorem evicted_before_kept (freed : C → ℕ) (used budget batch : ℕ) (candidates : List C) :
    ∀ a ∈ evictedOf now freedOf lastUsedOf freed used budget batch candidates,
    ∀ b ∈ keptOf now freedOf lastUsedOf freed used budget batch candidates,
      evictsBefore now freedOf lastUsedOf a b = true := by
  have hpairwise := pairwise_evictionOrder now freedOf lastUsedOf candidates
  rw [← (evictedOf_append_keptOf now freedOf lastUsedOf freed used budget batch candidates).1] at hpairwise
  exact (List.pairwise_append.mp hpairwise).2.2

variable {now freedOf lastUsedOf}

theorem evictsBefore_iff {a b : C} :
    evictsBefore now freedOf lastUsedOf a b = true ↔
      scoreOf now freedOf lastUsedOf b < scoreOf now freedOf lastUsedOf a ∨
        scoreOf now freedOf lastUsedOf b = scoreOf now freedOf lastUsedOf a ∧ lastUsedOf b ≤ lastUsedOf a := by
  rw [evictsBefore, decide_eq_true_eq]

end Order

theorem evicts_in_order (now : ℤ) (freedOf : C → ℕ) (lastUsedOf : C → ℤ) (candidates : List C) (freed : C → ℕ)
    (used budget batch : ℕ) :
    (evictedOf now freedOf lastUsedOf freed used budget batch candidates ++
      keptOf now freedOf lastUsedOf freed used budget batch candidates).Perm candidates ∧
    EvictsInOrder now freedOf lastUsedOf freed used budget batch
      (evictedOf now freedOf lastUsedOf freed used budget batch candidates)
      (keptOf now freedOf lastUsedOf freed used budget batch candidates) := by
  obtain ⟨happend, hstops⟩ := evictedOf_append_keptOf now freedOf lastUsedOf freed used budget batch candidates
  have hbefore := evicted_before_kept now freedOf lastUsedOf freed used budget batch candidates
  refine ⟨happend ▸ List.mergeSort_perm _ _, fun a ha b hb => ?_, fun a ha b hb hscore => ?_, hstops⟩
  · have hab := evictsBefore_iff.mp (hbefore a ha b hb)
    omega
  · have hab := evictsBefore_iff.mp (hbefore a ha b hb)
    omega

theorem newer_of_equal_scores_evicted :
    scoreOf 100 Prod.fst Prod.snd ((20, 95) : ℕ × ℤ) = scoreOf 100 Prod.fst Prod.snd ((10, 90) : ℕ × ℤ) ∧
      evictedOf 100 Prod.fst Prod.snd Prod.fst 30 25 1 [((20, 95) : ℕ × ℤ), (10, 90)] = [(20, 95)] ∧
      keptOf 100 Prod.fst Prod.snd Prod.fst 30 25 1 [((20, 95) : ℕ × ℤ), (10, 90)] = [(10, 90)] := by
  have horder : evictionOrder 100 Prod.fst Prod.snd [((20, 95) : ℕ × ℤ), (10, 90)] = [(20, 95), (10, 90)] :=
    List.mergeSort_of_pairwise (by decide)
  have hevicted : evictedOf 100 Prod.fst Prod.snd Prod.fst 30 25 1 [((20, 95) : ℕ × ℤ), (10, 90)] = [(20, 95)] := by
    rw [evictedOf, horder]
    rfl
  exact ⟨by decide, hevicted, by rw [keptOf, hevicted, horder]; rfl⟩

end Fluent.CommonCore
