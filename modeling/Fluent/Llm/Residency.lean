import Fluent.CommonCore.Cache
import Fluent.Spacy.Hash

namespace Fluent.Llm

open Fluent.Spacy (Text)
open Fluent.CommonCore

inductive EvictionPolicy where
  | footprintColdness
  | lruLargest
deriving DecidableEq

inductive MemoryPool where
  | vram
  | ram
deriving DecidableEq

def EvictionPolicy.pool : EvictionPolicy → MemoryPool
  | footprintColdness => .vram
  | lruLargest => .ram

structure LlmResidencyRow where
  contextKey : Text
  pinned : Bool
  modelBytes : ℕ
  totalBytes : ℕ
  vramBytes : ℕ
  lastUsed : ℤ
deriving DecidableEq

structure LlmWeights where
  modelKey : Text
  weightsBytes : ℕ
  refuseUnload : Bool
  isLoaded : Bool
  sleepIdleSeconds : Option ℤ
  lastUsed : ℤ
  inFlight : ℕ
  evictionPolicy : EvictionPolicy
  residencyRows : List LlmResidencyRow
  keyed : ∀ row ∈ residencyRows, modelKey ++ [':'] <+: row.contextKey
  distinct : (residencyRows.map LlmResidencyRow.contextKey).Nodup

def contextNameOf (modelKey contextKey : Text) : Text :=
  if modelKey ++ [':'] <+: contextKey then contextKey.drop (modelKey ++ [':']).length else contextKey

namespace LlmWeights

variable (w : LlmWeights)

def contextName (row : LlmResidencyRow) : Text := contextNameOf w.modelKey row.contextKey

theorem contextName_inj {row row' : LlmResidencyRow} (hrow : row ∈ w.residencyRows) (hrow' : row' ∈ w.residencyRows)
    (h : w.contextName row = w.contextName row') : row = row' := by
  have hkey := w.keyed row hrow
  have hkey' := w.keyed row' hrow'
  rw [contextName, contextName, contextNameOf, contextNameOf, if_pos hkey, if_pos hkey'] at h
  have hsame : row.contextKey = row'.contextKey := by
    calc row.contextKey = (w.modelKey ++ [':']) ++ row.contextKey.drop (w.modelKey ++ [':']).length :=
          List.prefix_append_drop hkey
      _ = (w.modelKey ++ [':']) ++ row'.contextKey.drop (w.modelKey ++ [':']).length := by rw [h]
      _ = row'.contextKey := (List.prefix_append_drop hkey').symm
  exact List.inj_on_of_nodup_map w.distinct hrow hrow' hsame

def hasPinned : Bool := w.residencyRows.any LlmResidencyRow.pinned

def unpinned : List LlmResidencyRow := w.residencyRows.filter fun row => !row.pinned

def residentBytes (pool : MemoryPool) : ℕ :=
  match pool with
  | .vram => ((w.residencyRows.map LlmResidencyRow.modelBytes).max?).getD (if w.isLoaded then w.weightsBytes else 0)
  | .ram => if w.isLoaded then w.weightsBytes else 0

def unpinnedVram : ℕ := w.unpinned.foldl (fun sum row => satAdd sum row.vramBytes) 0

def unpinnedMinLastUsed : ℤ := w.unpinned.foldl (fun least row => min least row.lastUsed) i64Max

end LlmWeights

def LlmResidencyRow.poolBytes (pool : MemoryPool) (row : LlmResidencyRow) : ℕ :=
  match pool with
  | .vram => row.vramBytes
  | .ram => row.totalBytes

inductive CandidateKind (I : Type*) where
  | context (weights : I) (name : Text)
  | weights (weights : I)
deriving DecidableEq

structure Candidate (I : Type*) where
  kind : CandidateKind I
  freedBytes : ℕ
  lastUsed : ℤ
deriving DecidableEq

inductive Call (I : Type*) where
  | expireResume (weights : I)
  | unload (weights : I)
  | evictWeights (weights : I)
  | evictContext (weights : I) (name : Text)
deriving DecidableEq

/-- The instances behind the engine: what they report, which contexts have a handle, and how a call ends. -/
structure Backend (I E : Type*) where
  observe : E → I → LlmWeights
  context : E → I → Text → Bool
  perform : Call I → E → Bool × E

structure Pass (I E : Type*) where
  env : E
  calls : List (Call I)

structure LlmResidencyEngine where
  pollIntervalMs : ℤ
  vramBudgetBytes : Option ℕ
  ramBudgetBytes : Option ℕ
  idleSecondsDefault : ℤ
  evictBatch : ℕ

section Model

variable {I E : Type*} (b : Backend I E)

def Pass.call (p : Pass I E) (call : Call I) : Bool × Pass I E :=
  let (ok, env) := b.perform call p.env
  (ok, ⟨env, p.calls ++ [call]⟩)

def contextCandidates (i : I) (w : LlmWeights) : List (Candidate I) :=
  w.unpinned.map fun row => ⟨.context i (w.contextName row), row.vramBytes, row.lastUsed⟩

def weightsCandidates (pool : MemoryPool) (i : I) (w : LlmWeights) : List (Candidate I) :=
  if !w.hasPinned ∧ 0 < w.residentBytes pool then
    [⟨.weights i, satAdd (w.residentBytes pool) w.unpinnedVram,
      if w.unpinnedMinLastUsed = i64Max then w.lastUsed else w.unpinnedMinLastUsed⟩]
  else []

-- neither an instance that refuses to unload nor one that serves a dispatch has candidates
def candidatesOf (pool : MemoryPool) (i : I) (w : LlmWeights) : List (Candidate I) :=
  if w.refuseUnload then []
  else if 0 < w.inFlight then []
  else weightsCandidates pool i w ++ contextCandidates i w

def skips (pool : MemoryPool) (exclude : Option Text) (w : LlmWeights) : Bool :=
  w.evictionPolicy.pool ≠ pool ∨ exclude = some w.modelKey

def gatherOne (env : E) (pool : MemoryPool) (exclude : Option Text) (found : ℕ × List (Candidate I)) (i : I) :
    ℕ × List (Candidate I) :=
  let w := b.observe env i
  if skips pool exclude w then found
  else
    (w.residencyRows.foldl (fun used row => satAdd used (row.poolBytes pool)) (satAdd found.1 (w.residentBytes pool)),
      found.2 ++ candidatesOf pool i w)

def gather (env : E) (pool : MemoryPool) (exclude : Option Text) (fleet : List I) : ℕ × List (Candidate I) :=
  fleet.foldl (gatherOne b env pool exclude) (0, [])

def evict (candidate : Candidate I) (p : Pass I E) : Option ℕ × Pass I E :=
  match candidate.kind with
  | .context i name =>
    if b.context p.env i name then
      let (ok, p) := p.call b (.evictContext i name)
      (if ok then some candidate.freedBytes else none, p)
    else (none, p)
  | .weights i =>
    let (ok, p) := p.call b (.evictWeights i)
    (if ok then some candidate.freedBytes else none, p)

def lruLargestBefore (a c : Candidate I) : Bool :=
  c.freedBytes < a.freedBytes ∨ c.freedBytes = a.freedBytes ∧ a.lastUsed ≤ c.lastUsed

def ordered (pool : MemoryPool) (candidates : List (Candidate I)) (nowMs : ℤ) : List (Candidate I) :=
  match pool with
  | .vram => evictionOrder (nowMs.tdiv 1000) Candidate.freedBytes Candidate.lastUsed candidates
  | .ram => candidates.mergeSort lruLargestBefore

variable (engine : LlmResidencyEngine)

def evictToTarget (pool : MemoryPool) (candidates : List (Candidate I)) (used target : ℕ) (nowMs : ℤ)
    (p : Pass I E) : (ℕ × ℕ) × Pass I E :=
  evictUntilFit (evict b) target engine.evictBatch (ordered pool candidates nowMs) used 0 p

def evictOverBudget (fleet : List I) (nowMs : ℤ) (pool : MemoryPool) (budget : Option ℕ) (p : Pass I E) : Pass I E :=
  match budget with
  | none => p
  | some budget =>
    let (used, candidates) := gather b p.env pool none fleet
    if used ≤ budget then p else (evictToTarget b engine pool candidates used budget nowMs p).2

def budgetOf (pool : MemoryPool) : Option ℕ :=
  match pool with
  | .vram => engine.vramBudgetBytes
  | .ram => engine.ramBudgetBytes

def makeRoomFor (fleet : List I) (excludeModelKey : Text) (requiredBytes : ℕ) (pool : MemoryPool) (nowMs : ℤ)
    (p : Pass I E) : Pass I E :=
  if requiredBytes = 0 then p
  else
    match budgetOf engine pool with
    | none => p
    | some budget =>
      let (used, candidates) := gather b p.env pool (some excludeModelKey) fleet
      let projected := satAdd used requiredBytes
      if projected ≤ budget then p else (evictToTarget b engine pool candidates projected budget nowMs p).2

def expireResumes : List I → Pass I E → Pass I E
  | [], p => p
  | i :: fleet, p => expireResumes fleet (p.call b (.expireResume i)).2

def idleSince (w : LlmWeights) : ℤ :=
  if 0 ≤ w.lastUsed then w.lastUsed else ((w.residencyRows.map LlmResidencyRow.lastUsed).max?).getD (-1)

def idleDue (nowMs : ℤ) (w : LlmWeights) : Bool :=
  let idleSeconds := (w.sleepIdleSeconds.filter (0 < ·)).getD engine.idleSecondsDefault
  w.evictionPolicy = .lruLargest ∧ w.isLoaded ∧ !w.refuseUnload ∧ 0 < idleSeconds ∧ 0 ≤ idleSince w ∧
    idleSeconds * 1000 ≤ clampI64 (nowMs - idleSince w)

def releaseIdle (nowMs : ℤ) : List I → Pass I E → ℕ × Pass I E
  | [], p => (0, p)
  | i :: fleet, p =>
    if idleDue engine nowMs (b.observe p.env i) then
      let (ok, p) := p.call b (.unload i)
      let (released, p) := releaseIdle nowMs fleet p
      (released + ok.toNat, p)
    else releaseIdle nowMs fleet p

def withinGrace (nowMs : ℤ) (w : LlmWeights) : Bool :=
  0 ≤ w.lastUsed ∧ clampI64 (nowMs - clampI64 (w.lastUsed * 1000)) < engine.pollIntervalMs + 1000

def emptyDue (nowMs : ℤ) (w : LlmWeights) : Bool :=
  w.evictionPolicy = .footprintColdness ∧ !w.refuseUnload ∧ w.isLoaded ∧ w.inFlight = 0 ∧
    !withinGrace engine nowMs w ∧ w.residencyRows = []

def unloadEmpty (nowMs : ℤ) : List I → Pass I E → Pass I E
  | [], p => p
  | i :: fleet, p =>
    if emptyDue engine nowMs (b.observe p.env i) then unloadEmpty nowMs fleet (p.call b (.unload i)).2
    else unloadEmpty nowMs fleet p

/-- A pass over the instances; the clock shows `idleMs` when the idle release starts and `nowMs` after it. -/
def residencyCycle (fleet : List I) (idleMs nowMs : ℤ) (p : Pass I E) : Pass I E :=
  let p := expireResumes b fleet p
  let p := (releaseIdle b engine idleMs fleet p).2
  let p := evictOverBudget b engine fleet nowMs .vram engine.vramBudgetBytes p
  let p := evictOverBudget b engine fleet nowMs .ram engine.ramBudgetBytes p
  unloadEmpty b engine nowMs fleet p

end Model

namespace LlmWeights

def usage (pool : MemoryPool) (w : LlmWeights) : ℕ :=
  w.residentBytes pool + (w.residencyRows.map (LlmResidencyRow.poolBytes pool)).sum

end LlmWeights

variable {I E : Type*} {b : Backend I E}

def counted (b : Backend I E) (env : E) (pool : MemoryPool) (exclude : Option Text) (fleet : List I) : List I :=
  fleet.filter fun i => !skips pool exclude (b.observe env i)

theorem foldl_gatherOne (env : E) (pool : MemoryPool) (exclude : Option Text) (fleet : List I)
    {found : ℕ × List (Candidate I)} (hfound : found.1 ≤ u64Max) :
    fleet.foldl (gatherOne b env pool exclude) found =
      (min (found.1 + ((counted b env pool exclude fleet).map fun i => (b.observe env i).usage pool).sum) u64Max,
        found.2 ++ (counted b env pool exclude fleet).flatMap fun i => candidatesOf pool i (b.observe env i)) := by
  induction fleet generalizing found with
  | nil =>
    refine Prod.ext ?_ (List.append_nil _).symm
    simpa [counted] using hfound
  | cons i fleet ih =>
    rw [List.foldl_cons]
    cases hskip : skips pool exclude (b.observe env i) with
    | true =>
      have hcounted : counted b env pool exclude (i :: fleet) = counted b env pool exclude fleet := by
        simp [counted, hskip]
      have hstep : gatherOne b env pool exclude found i = found := by simp [gatherOne, hskip]
      rw [hcounted, hstep, ih hfound]
    | false =>
      have hcounted : counted b env pool exclude (i :: fleet) = i :: counted b env pool exclude fleet := by
        simp [counted, hskip]
      have hused := foldl_satAdd (LlmResidencyRow.poolBytes pool) (b.observe env i).residencyRows
        (satAdd_le found.1 ((b.observe env i).residentBytes pool))
      have hstep : gatherOne b env pool exclude found i =
          (min (found.1 + (b.observe env i).usage pool) u64Max, found.2 ++ candidatesOf pool i (b.observe env i)) := by
        rw [gatherOne, hskip]
        refine Prod.ext ?_ rfl
        change List.foldl _ _ _ = _
        rw [hused, LlmWeights.usage, satAdd]
        omega
      rw [hcounted, hstep, ih (min_le_right _ _), List.map_cons, List.sum_cons, List.flatMap_cons, List.append_assoc]
      refine Prod.ext ?_ rfl
      dsimp only
      omega

theorem gather_eq (env : E) (pool : MemoryPool) (exclude : Option Text) (fleet : List I) :
    gather b env pool exclude fleet =
      (min (((counted b env pool exclude fleet).map fun i => (b.observe env i).usage pool).sum) u64Max,
        (counted b env pool exclude fleet).flatMap fun i => candidatesOf pool i (b.observe env i)) := by
  rw [gather, foldl_gatherOne env pool exclude fleet (Nat.zero_le _), Nat.zero_add, List.nil_append]

theorem mem_gather {env : E} {pool : MemoryPool} {exclude : Option Text} {fleet : List I} {c : Candidate I} :
    c ∈ (gather b env pool exclude fleet).2 ↔
      ∃ i ∈ fleet, skips pool exclude (b.observe env i) = false ∧ c ∈ candidatesOf pool i (b.observe env i) := by
  simp only [gather_eq, List.mem_flatMap, counted, List.mem_filter, Bool.not_eq_true']
  exact exists_congr fun i => and_assoc

theorem ordered_perm (pool : MemoryPool) (candidates : List (Candidate I)) (nowMs : ℤ) :
    (ordered pool candidates nowMs).Perm candidates := by
  cases pool with
  | vram => exact List.mergeSort_perm _ _
  | ram => exact List.mergeSort_perm _ _

end Fluent.Llm
