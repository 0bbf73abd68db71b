import Fluent.Llm.Residency

namespace Fluent.Llm

open Fluent.Spacy (Text)
open Fluent.CommonCore

variable {I E : Type*}

namespace Call

variable (view : I → LlmWeights)

def RespectsHolds : Call I → Prop
  | expireResume _ => True
  | unload i => (view i).inFlight = 0 ∧ (view i).refuseUnload = false
  | evictWeights i => (view i).inFlight = 0 ∧ (view i).refuseUnload = false
  | evictContext i _ => (view i).inFlight = 0 ∧ (view i).refuseUnload = false

def SparesPinned : Call I → Prop
  | expireResume _ => True
  | unload i => (view i).hasPinned = false
  | evictWeights i => (view i).hasPinned = false
  | evictContext i name => ∀ row ∈ (view i).residencyRows, (view i).contextName row = name → row.pinned = false

end Call

def Backend.Constant (b : Backend I E) : Prop := ∀ call env, b.observe (b.perform call env).2 = b.observe env

section Passes

variable {b : Backend I E} (engine : LlmResidencyEngine)

structure GoesOn (b : Backend I E) (Q : Call I → Prop) (p q : Pass I E) : Prop where
  calls : ∃ new, q.calls = p.calls ++ new ∧ ∀ call ∈ new, Q call
  view : b.observe q.env = b.observe p.env

variable {Q : Call I → Prop} {p q r : Pass I E}

theorem GoesOn.refl (p : Pass I E) : GoesOn b Q p p := ⟨⟨[], by simp⟩, rfl⟩

theorem GoesOn.trans (h : GoesOn b Q p q) (h' : GoesOn b Q q r) : GoesOn b Q p r := by
  obtain ⟨⟨new, hnew, hQ⟩, hview⟩ := h
  obtain ⟨⟨new', hnew', hQ'⟩, hview'⟩ := h'
  refine ⟨⟨new ++ new', ?_, ?_⟩, hview'.trans hview⟩
  · rw [hnew', hnew, List.append_assoc]
  · exact List.forall_mem_append.mpr ⟨hQ, hQ'⟩

theorem GoesOn.call (hb : b.Constant) (p : Pass I E) {call : Call I} (h : Q call) : GoesOn b Q p (p.call b call).2 :=
  ⟨⟨[call], rfl, by simpa using h⟩, hb _ _⟩

theorem GoesOn.mono {Q' : Call I → Prop} (h : GoesOn b Q p q) (himp : ∀ call, Q call → Q' call) : GoesOn b Q' p q := by
  obtain ⟨⟨new, hnew, hQ⟩, hview⟩ := h
  exact ⟨⟨new, hnew, fun call hcall => himp call (hQ call hcall)⟩, hview⟩

def Candidate.call (c : Candidate I) : Call I :=
  match c.kind with
  | .context i name => .evictContext i name
  | .weights i => .evictWeights i

theorem evict_goesOn (hb : b.Constant) (c : Candidate I) (hQ : Q c.call) (p : Pass I E) :
    GoesOn b Q p (evict b c p).2 := by
  unfold Candidate.call at hQ
  unfold evict
  split
  · next hkind =>
    rw [hkind] at hQ
    split
    · exact .call hb p hQ
    · exact .refl p
  · next hkind =>
    rw [hkind] at hQ
    exact .call hb p hQ

theorem evictToTarget_goesOn (hb : b.Constant) {pool : MemoryPool} {candidates : List (Candidate I)}
    (hQ : ∀ c ∈ candidates, Q c.call) (used target : ℕ) (nowMs : ℤ) (p : Pass I E) :
    GoesOn b Q p (evictToTarget b engine pool candidates used target nowMs p).2 := by
  unfold evictToTarget
  apply evictUntilFit_induct (P := fun q => GoesOn b Q p q)
  · intro c hc q hq
    exact hq.trans (evict_goesOn hb c (hQ c ((ordered_perm pool candidates nowMs).mem_iff.mp hc)) q)
  · exact .refl p

theorem candidate_safe {env : E} {pool : MemoryPool} {exclude : Option Text} {fleet : List I} {c : Candidate I}
    (hc : c ∈ (gather b env pool exclude fleet).2) :
    c.call.RespectsHolds (b.observe env) ∧ c.call.SparesPinned (b.observe env) := by
  obtain ⟨i, -, -, hc⟩ := mem_gather.mp hc
  unfold candidatesOf at hc
  split at hc
  · cases hc
  · next hrefuse =>
    split at hc
    · cases hc
    · next hflight =>
      have hhold : (b.observe env i).inFlight = 0 ∧ (b.observe env i).refuseUnload = false :=
        ⟨Nat.eq_zero_of_not_pos hflight, eq_false_of_ne_true hrefuse⟩
      rcases List.mem_append.mp hc with hc | hc
      · unfold weightsCandidates at hc
        split at hc
        · next hpinned =>
          obtain rfl := List.mem_singleton.mp hc
          have hnone : (b.observe env i).hasPinned = false := by simpa using hpinned.1
          exact ⟨hhold, hnone⟩
        · cases hc
      · obtain ⟨row, hrow, rfl⟩ := List.mem_map.mp hc
        obtain ⟨hmem, hunpinned⟩ := List.mem_filter.mp hrow
        refine ⟨hhold, fun row' hrow' hname => ?_⟩
        rw [(b.observe env i).contextName_inj hrow' hmem hname]
        simpa using hunpinned

theorem evictOverBudget_goesOn (hb : b.Constant) (fleet : List I) (nowMs : ℤ) (pool : MemoryPool)
    (budget : Option ℕ) (p : Pass I E) :
    GoesOn b (fun call => call.RespectsHolds (b.observe p.env) ∧ call.SparesPinned (b.observe p.env)) p
      (evictOverBudget b engine fleet nowMs pool budget p) := by
  unfold evictOverBudget
  split
  · exact .refl p
  · dsimp only
    split
    · exact .refl p
    · exact evictToTarget_goesOn engine hb (fun c hc => candidate_safe hc) _ _ _ p

theorem makeRoomFor_goesOn (hb : b.Constant) (fleet : List I) (excludeModelKey : Text) (requiredBytes : ℕ)
    (pool : MemoryPool) (nowMs : ℤ) (p : Pass I E) :
    GoesOn b (fun call => call.RespectsHolds (b.observe p.env) ∧ call.SparesPinned (b.observe p.env)) p
      (makeRoomFor b engine fleet excludeModelKey requiredBytes pool nowMs p) := by
  unfold makeRoomFor
  split
  · exact .refl p
  · split
    · exact .refl p
    · dsimp only
      split
      · exact .refl p
      · exact evictToTarget_goesOn engine hb (fun c hc => candidate_safe hc) _ _ _ p

theorem expireResumes_goesOn (hb : b.Constant) (hQ : ∀ i, Q (.expireResume i)) (fleet : List I) (p : Pass I E) :
    GoesOn b Q p (expireResumes b fleet p) := by
  induction fleet generalizing p with
  | nil => exact .refl p
  | cons i fleet ih => exact (GoesOn.call hb p (hQ i)).trans (ih _)

theorem unloadEmpty_goesOn (hb : b.Constant) (nowMs : ℤ) (fleet : List I) (p : Pass I E) :
    GoesOn b (fun call => call.RespectsHolds (b.observe p.env) ∧ call.SparesPinned (b.observe p.env)) p
      (unloadEmpty b engine nowMs fleet p) := by
  induction fleet generalizing p with
  | nil => exact .refl p
  | cons i fleet ih =>
    rw [unloadEmpty]
    split
    · next hdue =>
      have hrest := ih (p.call b (.unload i)).2
      have hview : b.observe (p.call b (.unload i)).2.env = b.observe p.env := hb _ _
      rw [hview] at hrest
      refine (GoesOn.call hb p ?_).trans hrest
      unfold emptyDue at hdue
      obtain ⟨-, hrefuse, -, hflight, -, hrows⟩ := of_decide_eq_true hdue
      refine ⟨⟨hflight, by simpa using hrefuse⟩, ?_⟩
      change (b.observe p.env i).residencyRows.any _ = false
      rw [hrows]
      rfl
    · exact ih p

theorem releaseIdle_calls (hb : b.Constant) (nowMs : ℤ) (fleet : List I) (p : Pass I E) :
    (releaseIdle b engine nowMs fleet p).2.calls =
        p.calls ++ (fleet.filter fun i => idleDue engine nowMs (b.observe p.env i)).map .unload ∧
      b.observe (releaseIdle b engine nowMs fleet p).2.env = b.observe p.env := by
  induction fleet generalizing p with
  | nil => simp [releaseIdle]
  | cons i fleet ih =>
    rw [releaseIdle]
    split
    · next hdue =>
      obtain ⟨hcalls, hview⟩ := ih (p.call b (.unload i)).2
      have hsame : b.observe (p.call b (.unload i)).2.env = b.observe p.env := hb _ _
      rw [hsame] at hcalls hview
      refine ⟨?_, hview⟩
      change (releaseIdle b engine nowMs fleet (p.call b (.unload i)).2).2.calls = _
      rw [hcalls, List.filter_cons, if_pos hdue, List.map_cons]
      change (p.calls ++ [.unload i]) ++ _ = _
      rw [List.append_assoc]
      rfl
    · next hdue =>
      rw [List.filter_cons, if_neg hdue]
      exact ih p

end Passes

section Holds

variable {b : Backend I E} (engine : LlmResidencyEngine)

theorem forall_residencyCycle_calls (hb : b.Constant) (fleet : List I) (idleMs nowMs : ℤ) (env : E)
    {Q : Call I → Prop} (hexpire : ∀ i, Q (.expireResume i))
    (hsafe : ∀ call, call.RespectsHolds (b.observe env) ∧ call.SparesPinned (b.observe env) → Q call) :
    (∀ call ∈ (residencyCycle b engine fleet idleMs nowMs ⟨env, []⟩).calls, Q call) ↔
      ∀ i ∈ fleet, idleDue engine idleMs (b.observe env i) = true → Q (.unload i) := by
  obtain ⟨⟨expired, hexpired, hQexpired⟩, hview⟩ := expireResumes_goesOn hb hexpire fleet ⟨env, []⟩
  obtain ⟨hreleased, hview'⟩ := releaseIdle_calls engine hb idleMs fleet (expireResumes b fleet ⟨env, []⟩)
  rw [hview] at hreleased hview'
  have hrest : ∀ p : Pass I E, b.observe p.env = b.observe env →
      GoesOn b Q p (unloadEmpty b engine nowMs fleet (evictOverBudget b engine fleet nowMs .ram engine.ramBudgetBytes
        (evictOverBudget b engine fleet nowMs .vram engine.vramBudgetBytes p))) := by
    intro p hp
    have hvram := evictOverBudget_goesOn engine hb fleet nowMs .vram engine.vramBudgetBytes p
    have hram := evictOverBudget_goesOn engine hb fleet nowMs .ram engine.ramBudgetBytes
      (evictOverBudget b engine fleet nowMs .vram engine.vramBudgetBytes p)
    have hempty := unloadEmpty_goesOn engine hb nowMs fleet (evictOverBudget b engine fleet nowMs .ram
      engine.ramBudgetBytes (evictOverBudget b engine fleet nowMs .vram engine.vramBudgetBytes p))
    rw [hram.view, hvram.view, hp] at hempty
    rw [hvram.view, hp] at hram
    rw [hp] at hvram
    exact ((hvram.trans hram).trans hempty).mono hsafe
  obtain ⟨⟨later, hlater, hQlater⟩, -⟩ := hrest _ hview'
  have hcalls : (residencyCycle b engine fleet idleMs nowMs ⟨env, []⟩).calls =
      expired ++ (fleet.filter fun i => idleDue engine idleMs (b.observe env i)).map .unload ++ later := by
    change (unloadEmpty b engine nowMs fleet _).calls = _
    rw [hlater, hreleased, hexpired]
    rfl
  rw [hcalls, List.forall_mem_append, List.forall_mem_append, List.forall_mem_map, and_iff_left hQlater,
    and_iff_right hQexpired]
  simp only [List.mem_filter, and_imp]

theorem residency_keeps_holds_iff (hb : b.Constant) (fleet : List I) (env : E) :
    (∀ idleMs nowMs, ((∀ call ∈ (residencyCycle b engine fleet idleMs nowMs ⟨env, []⟩).calls,
          call.RespectsHolds (b.observe env)) ↔
        ∀ i ∈ fleet, idleDue engine idleMs (b.observe env i) = true → (b.observe env i).inFlight = 0) ∧
      ((∀ call ∈ (residencyCycle b engine fleet idleMs nowMs ⟨env, []⟩).calls, call.SparesPinned (b.observe env)) ↔
        ∀ i ∈ fleet, idleDue engine idleMs (b.observe env i) = true → (b.observe env i).hasPinned = false)) ∧
    ∀ excludeModelKey requiredBytes pool nowMs,
      ∀ call ∈ (makeRoomFor b engine fleet excludeModelKey requiredBytes pool nowMs ⟨env, []⟩).calls,
        call.RespectsHolds (b.observe env) ∧ call.SparesPinned (b.observe env) := by
  refine ⟨fun idleMs nowMs => ⟨?_, ?_⟩, fun excludeModelKey requiredBytes pool nowMs => ?_⟩
  · rw [forall_residencyCycle_calls engine hb fleet idleMs nowMs env (fun _ => trivial) fun _ h => h.1]
    refine forall₃_congr fun i _ hdue => ⟨fun h => h.1, fun h => ⟨h, ?_⟩⟩
    unfold idleDue at hdue
    obtain ⟨-, -, hrefuse, -⟩ := of_decide_eq_true hdue
    simpa using hrefuse
  · rw [forall_residencyCycle_calls engine hb fleet idleMs nowMs env (fun _ => trivial) fun _ h => h.2]
    rfl
  · obtain ⟨⟨new, hnew, hsafe⟩, -⟩ :=
      makeRoomFor_goesOn engine hb fleet excludeModelKey requiredBytes pool nowMs ⟨env, []⟩
    rw [hnew]
    exact hsafe

end Holds

def constantBackend (view : I → LlmWeights) : Backend I Unit := ⟨fun _ => view, fun _ _ _ => true, fun _ _ => (true, ())⟩

def idleWeights (inFlight : ℕ) (pinned : Bool) : LlmWeights :=
  ⟨"onnx/llm".toList, 100, false, true, some 1, 0, inFlight, .lruLargest, [⟨"onnx/llm:a".toList, pinned, 100, 10, 0, 0⟩],
    by simp, by simp⟩

def idleEngine : LlmResidencyEngine := ⟨5000, none, none, 0, 4⟩

def idleCalls (inFlight : ℕ) (pinned : Bool) : List (Call Unit) :=
  (residencyCycle (constantBackend fun _ => idleWeights inFlight pinned) idleEngine [()] 1000 1000 ⟨(), []⟩).calls

theorem idle_instance_released :
    idleCalls 0 false = [.expireResume (), .unload ()] ∧
      (∀ call ∈ idleCalls 0 false, call.RespectsHolds fun _ => idleWeights 0 false) ∧
      ∀ call ∈ idleCalls 0 false, call.SparesPinned fun _ => idleWeights 0 false := by
  have hconstant : (constantBackend fun _ : Unit => idleWeights 0 false).Constant := fun _ _ => rfl
  obtain ⟨hholds, hpinned⟩ := (residency_keeps_holds_iff idleEngine hconstant [()] ()).1 1000 1000
  exact ⟨rfl, hholds.mpr fun _ _ _ => rfl, hpinned.mpr fun _ _ _ => rfl⟩

theorem serving_instance_released :
    (idleCalls 1 false = [.expireResume (), .unload ()] ∧ ¬(Call.unload ()).RespectsHolds fun _ => idleWeights 1 false) ∧
      idleCalls 0 true = [.expireResume (), .unload ()] ∧ ¬(Call.unload ()).SparesPinned fun _ => idleWeights 0 true :=
  ⟨⟨rfl, fun h => Nat.one_ne_zero h.1⟩, rfl, fun h => absurd (show (idleWeights 0 true).hasPinned = false from h) (by decide)⟩

end Fluent.Llm
