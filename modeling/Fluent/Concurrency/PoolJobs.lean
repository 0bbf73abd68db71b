import Fluent.Library.Participants
import Fluent.Library.Runs
import Fluent.Concurrency.CreditGatedPool

open Fluent.Library

namespace Fluent.Concurrency

variable {T H J : Type*}

def Push.accepted (p : Push T) : Option T :=
  match p.pc with
  | .returned (.ok _) => some p.item
  | _ => none

namespace WorkerPool

def acceptedJobs (s : WorkerPool T H) : List T := s.pushes.filterMap Push.accepted

structure Kept (s : WorkerPool T H) : Prop where
  jobs : (s.handled ++ s.queue.items).Perm s.acceptedJobs
  bounded : s.queue.items.length ≤ s.queue.capacity.toNat

variable {s s' : WorkerPool T H} {i : ℕ} {p : Push T}

theorem Kept.quiet (h : Kept s) (hhandled : s'.handled = s.handled) (hitems : s'.queue.items = s.queue.items)
    (hcapacity : s'.queue.capacity = s.queue.capacity) (hjobs : s'.acceptedJobs = s.acceptedJobs) : Kept s' := by
  constructor
  · rw [hhandled, hitems, hjobs]
    exact h.jobs
  · rw [hitems, hcapacity]
    exact h.bounded

theorem Kept.setPush {pc : PushPc} (h : Kept s) (hi : s.pushes[i]? = some p) (hp : p.accepted = none)
    (hpc : Push.accepted { p with pc := pc } = none) : Kept (s.setPush i p pc) := by
  obtain ⟨before, after, hpushes, hset⟩ := exists_split hi
  refine h.quiet rfl rfl rfl ?_
  unfold acceptedJobs WorkerPool.setPush
  rw [hset, hpushes, List.filterMap_append, List.filterMap_append, List.filterMap_cons_none hp,
    List.filterMap_cons_none hpc]

theorem Kept.accept (h : Kept s) (hi : s.pushes[i]? = some p) (hp : p.accepted = none)
    (hroom : s.queue.hasSpace = true) : Kept ((s.accept p.item).setPush i p (.returned (.ok ()))) where
  jobs := by
    obtain ⟨before, after, hpushes, hset⟩ := exists_split hi
    have hjobs := h.jobs
    unfold acceptedJobs at hjobs
    rw [hpushes, List.filterMap_append, List.filterMap_cons_none hp] at hjobs
    change (s.handled ++ (s.queue.items ++ [p.item])).Perm ((s.pushes.set i _).filterMap Push.accepted)
    rw [hset, List.filterMap_append, ← List.append_assoc]
    exact ((hjobs.append_right _).trans (List.perm_append_singleton _ _)).trans List.perm_middle.symm
  bounded := by
    have hroom : s.queue.items.length < s.queue.capacity.toNat := of_decide_eq_true hroom
    exact List.length_append.trans_le hroom

theorem accepted_of_ne (hp : ∀ result, p.pc ≠ .returned result) : p.accepted = none := by
  unfold Push.accepted
  split
  · next hpc => exact absurd hpc (hp _)
  · rfl

theorem Kept.pushStep (h : Kept s) (hi : s.pushes[i]? = some p) (hs : s.pushStep i p = some s') : Kept s' := by
  simp only [WorkerPool.pushStep] at hs
  split at hs
  · next hpc =>
    have hp := accepted_of_ne (p := p) (by simp [hpc])
    split at hs <;> cases hs
    · exact h.setPush hi hp rfl
    · refine h.setPush hi hp ?_
      split <;> rfl
  · next hpc =>
    cases hs
    exact h.setPush hi (accepted_of_ne (by simp [hpc])) rfl
  · next waited hpc =>
    have hp := accepted_of_ne (p := p) (by simp [hpc])
    split at hs <;> cases hs
    · next hroom => exact h.accept hi hp hroom
    · refine h.setPush hi hp ?_
      cases waited <;> rfl
  · next hpc =>
    cases hs
    refine Kept.setPush (h.quiet rfl rfl rfl rfl) hi (accepted_of_ne (by simp [hpc])) ?_
    split <;> rfl
  · cases hs
  · cases hs

theorem Kept.workStep [Inhabited H] {w : PoolWorker T H} (h : Kept s) (hs : s.workStep i w = some s') : Kept s' := by
  unfold WorkerPool.workStep at hs
  split at hs
  case h_4 =>
    split at hs
    · next job items hitems =>
      cases hs
      have hjobs := h.jobs
      have hbounded := h.bounded
      rw [hitems] at hjobs hbounded
      exact ⟨(List.append_assoc s.handled [job] items).symm ▸ hjobs, Nat.le_of_succ_le hbounded⟩
    · split at hs <;> cases hs <;> exact h.quiet rfl rfl rfl rfl
  all_goals cases hs <;> exact h.quiet rfl rfl rfl rfl

theorem Kept.step [Inhabited H] {a : PoolAction T H} (h : Kept s) (hs : s.step a = some s') : Kept s' := by
  cases a with
  | submit job | trySubmit job =>
    cases hs
    exact h.quiet rfl rfl rfl (List.filterMap_append.trans (List.append_nil _))
  | push i =>
    obtain ⟨p, hi, hs⟩ := Option.bind_eq_some_iff.mp hs
    exact h.pushStep hi hs
  | cancel i =>
    obtain ⟨p, hi, hs⟩ := Option.bind_eq_some_iff.mp hs
    unfold WorkerPool.cancelStep at hs
    split at hs <;> cases hs
    next hpc => exact Kept.setPush (h.quiet rfl rfl rfl rfl) hi (accepted_of_ne (by simp [hpc])) rfl
  | work i =>
    obtain ⟨w, -, hs⟩ := Option.bind_eq_some_iff.mp hs
    exact h.workStep hs
  | quit i =>
    obtain ⟨w, -, hs⟩ := Option.bind_eq_some_iff.mp hs
    unfold WorkerPool.quitStep at hs
    split at hs <;> cases hs <;> exact h.quiet rfl rfl rfl rfl
  | handle i phase | finish i | panic i =>
    obtain ⟨w, -, hs⟩ := Option.bind_eq_some_iff.mp hs
    unfold WorkerPool.handlerStep at hs
    split at hs <;> cases hs
    exact h.quiet rfl rfl rfl rfl
  | callShutdown =>
    simp only [WorkerPool.step] at hs
    split at hs <;> cases hs
    exact h.quiet rfl rfl rfl rfl
  | shut =>
    simp only [WorkerPool.step, WorkerPool.shutStep] at hs
    split at hs
    case h_6 =>
      split at hs <;> cases hs
      exact h.quiet rfl rfl rfl rfl
    all_goals cases hs <;> exact h.quiet rfl rfl rfl rfl

end WorkerPool

end Fluent.Concurrency
