import Fluent.Dag.Dependents
import Fluent.Library.Runs

namespace Fluent.Dag

open Fluent.Library

structure CheckpointedStepGraph (K S : Type*) where
  graph : DependencyGraph K
  order : List K
  state : HashMap K S
  completed : Finset K
  checkpoints : HashMap K ℕ

namespace CheckpointedStepGraph

variable {K S : Type*} [DecidableEq K]

def new : CheckpointedStepGraph K S := ⟨.new, [], ∅, ∅, ∅⟩

def complete (g : CheckpointedStepGraph K S) (key : K) : CheckpointedStepGraph K S :=
  { g with completed := insert key g.completed }

def isReady (g : CheckpointedStepGraph K S) (key : K) : Bool := g.graph.isReady key g.completed

def readySteps (g : CheckpointedStepGraph K S) : List K := g.graph.readyNodes g.completed

def isCompleted (g : CheckpointedStepGraph K S) (key : K) : Bool := key ∈ g.completed

def cancelDependents (g : CheckpointedStepGraph K S) (key : K) : List K := g.graph.dependentsOf key

def status (g : CheckpointedStepGraph K S) (key : K) : Option S := g.state.lookup key

def updateState (f : S → S) (g : CheckpointedStepGraph K S) (key : K) : CheckpointedStepGraph K S :=
  match g.state.lookup key with
  | none => g
  | some s => { g with state := g.state.insert key (f s) }

theorem status_updateState (f : S → S) (g : CheckpointedStepGraph K S) (key x : K) :
    (updateState f g key).status x = if x = key then (g.status x).map f else g.status x := by
  unfold updateState status
  cases hl : g.state.lookup key with
  | none =>
    split_ifs with hx
    · rw [hx, hl]; rfl
    · rfl
  | some s =>
    simp only [HashMap.lookup_insert_ite]
    split_ifs with hx
    · rw [hx, hl]; rfl
    · rfl

theorem updateState_frame (f : S → S) (g : CheckpointedStepGraph K S) (key : K) :
    (updateState f g key).graph = g.graph ∧ (updateState f g key).order = g.order ∧
      (updateState f g key).completed = g.completed ∧
      (updateState f g key).checkpoints = g.checkpoints := by
  unfold updateState
  cases g.state.lookup key <;> simp

theorem foldl_updateState_frame (f : S → S) (keys : List K) (g : CheckpointedStepGraph K S) :
    (keys.foldl (updateState f) g).graph = g.graph ∧ (keys.foldl (updateState f) g).order = g.order ∧
      (keys.foldl (updateState f) g).completed = g.completed ∧
      (keys.foldl (updateState f) g).checkpoints = g.checkpoints := by
  induction keys generalizing g with
  | nil => simp
  | cons key keys ih => simp only [List.foldl_cons, ih, updateState_frame f g key, and_self]

theorem status_foldl_updateState {f : S → S} (hf : ∀ s, f (f s) = f s) (keys : List K)
    (g : CheckpointedStepGraph K S) (x : K) :
    (keys.foldl (updateState f) g).status x =
      if x ∈ keys then (g.status x).map f else g.status x := by
  induction keys generalizing g with
  | nil => simp
  | cons key keys ih =>
    rw [List.foldl_cons, ih, status_updateState]
    by_cases hx : x = key
    · subst hx
      cases g.status x <;> simp [hf]
    · simp [hx]

structure Wf (g : CheckpointedStepGraph K S) : Prop where
  indexed : g.graph.WellIndexed
  order_eq : g.order = g.graph.nodes
  provides_self : ∀ key ∈ g.order, g.graph.providesOf key = some [key]
  completed_sub : ∀ key ∈ g.completed, key ∈ g.order

theorem wf_new : Wf (new : CheckpointedStepGraph K S) :=
  ⟨DependencyGraph.wellIndexed_new, rfl, by simp [new], by simp [new]⟩

theorem Wf.complete {g : CheckpointedStepGraph K S} (hg : Wf g) {key : K} (hk : key ∈ g.order) :
    Wf (g.complete key) := by
  refine ⟨hg.indexed, hg.order_eq, hg.provides_self, fun k h => ?_⟩
  rcases Finset.mem_insert.mp h with rfl | h
  · exact hk
  · exact hg.completed_sub k h

theorem isReady_iff (g : CheckpointedStepGraph K S) (key : K) :
    g.isReady key ↔ ∃ deps, g.graph.depsOf key = some deps ∧ ∀ d ∈ deps, d ∈ g.completed := by
  unfold isReady DependencyGraph.isReady DependencyGraph.depsOf
  cases g.graph.deps.lookup key <;> simp

theorem Wf.mem_cancelDependents {g : CheckpointedStepGraph K S} (hg : Wf g) {key x : K}
    {deps : List K} (hk : key ∈ g.order) (hx : g.graph.depsOf x = some deps) (hd : key ∈ deps)
    (hne : x ≠ key) : x ∈ g.cancelDependents key := by
  apply DependencyGraph.mem_dependentsOf_of_consumer _ _ hne
  have hp : g.graph.provides.lookup key = some [key] := hg.provides_self key hk
  have hl : g.graph.deps.lookup x = some deps := hx
  rw [DependencyGraph.consumers, hp]
  have := (hg.indexed.dependents.mem_iff key x).mpr (by rw [hl]; exact hd)
  simpa using this

variable [Debug K]

def addStep (g : CheckpointedStepGraph K S) (key : K) (deps : List K) (state : S) :
    Except GraphError (CheckpointedStepGraph K S) :=
  match g.graph.register key deps [key] with
  | .error e => .error e
  | .ok graph => .ok { g with
      graph := graph
      order := g.order ++ [key]
      state := g.state.insert key state }

def checkpoint (g : CheckpointedStepGraph K S) (name : K) :
    Except GraphError (CheckpointedStepGraph K S) :=
  match g.order.idxOf? name with
  | none => .error (.nodeNotFound (Debug.fmt name))
  | some idx => .ok { g with checkpoints := g.checkpoints.insert name idx }

def rewindTo (g : CheckpointedStepGraph K S) (name : K) :
    Except GraphError (CheckpointedStepGraph K S × List K) :=
  match g.checkpoints.lookup name with
  | none => .error (.nodeNotFound (Debug.fmt name))
  | some idx =>
    let reset := g.order.drop idx
    .ok ({ g with
      checkpoints := g.checkpoints.erase name
      completed := g.completed \ reset.toFinset }, reset)

inductive Op (K S : Type*)
  | addStep (key : K) (deps : List K) (state : S)
  | checkpoint (name : K)
  | complete (key : K)
  | rewindTo (name : K)

def perform (g : CheckpointedStepGraph K S) : Op K S → CheckpointedStepGraph K S
  | .addStep key deps state => (g.addStep key deps state).toOption.getD g
  | .checkpoint name => (g.checkpoint name).toOption.getD g
  | .complete key => g.complete key
  | .rewindTo name => ((g.rewindTo name).toOption.map Prod.fst).getD g

def ReadyFirst (g : CheckpointedStepGraph K S) : Op K S → Prop
  | .complete key => g.isReady key
  | _ => True

instance (g : CheckpointedStepGraph K S) : DecidablePred (ReadyFirst g)
  | .complete key => inferInstanceAs (Decidable (g.isReady key = true))
  | .addStep _ _ _ => .isTrue trivial
  | .checkpoint _ => .isTrue trivial
  | .rewindTo _ => .isTrue trivial

def DepClosed (g : CheckpointedStepGraph K S) : Prop :=
  ∀ key ∈ g.completed, ∀ deps, g.graph.depsOf key = some deps → ∀ d ∈ deps, d ∈ g.completed

def RewindSafe (g : CheckpointedStepGraph K S) : Op K S → Prop
  | .rewindTo name => ∀ idx, g.checkpoints.lookup name = some idx → ∀ key ∈ g.order.take idx,
      key ∈ g.completed → ∀ deps, g.graph.depsOf key = some deps → ∀ d ∈ deps, d ∉ g.order.drop idx
  | _ => True

variable {g g' : CheckpointedStepGraph K S}

theorem addStep_ok {key : K} {deps : List K} {state : S}
    (h : g.addStep key deps state = .ok g') : ∃ graph,
      g.graph.register key deps [key] = .ok graph ∧
      g' = { g with graph := graph, order := g.order ++ [key], state := g.state.insert key state } := by
  unfold addStep at h
  cases hr : g.graph.register key deps [key] with
  | error e => simp [hr] at h
  | ok graph => exact ⟨graph, rfl, by simpa [hr] using h.symm⟩

theorem checkpoint_ok {name : K} (h : g.checkpoint name = .ok g') :
    ∃ idx, g.order.idxOf? name = some idx ∧
      g' = { g with checkpoints := g.checkpoints.insert name idx } := by
  unfold checkpoint at h
  cases hi : g.order.idxOf? name with
  | none => simp [hi] at h
  | some idx => exact ⟨idx, rfl, by simpa [hi] using h.symm⟩

theorem rewindTo_ok {name : K} {reset : List K}
    (h : g.rewindTo name = .ok (g', reset)) : ∃ idx, g.checkpoints.lookup name = some idx ∧
      reset = g.order.drop idx ∧ g' = { g with
        checkpoints := g.checkpoints.erase name
        completed := g.completed \ reset.toFinset } := by
  unfold rewindTo at h
  cases hl : g.checkpoints.lookup name with
  | none => simp [hl] at h
  | some idx =>
    simp only [hl, Except.ok.injEq, Prod.mk.injEq] at h
    obtain ⟨h₁, rfl⟩ := h
    exact ⟨idx, rfl, rfl, h₁.symm⟩

theorem Wf.addStep (hg : Wf g) {key : K} {deps : List K}
    {state : S} (h : g.addStep key deps state = .ok g') : Wf g' := by
  obtain ⟨graph, hr, rfl⟩ := addStep_ok h
  refine ⟨hg.indexed.register hr, ?_, ?_, fun k hk => List.mem_append_left _ (hg.completed_sub k hk)⟩
  · obtain ⟨-, rfl⟩ := DependencyGraph.register_ok hr
    simp [hg.order_eq]
  · obtain ⟨-, rfl⟩ := DependencyGraph.register_ok hr
    intro k hk
    simp only [DependencyGraph.providesOf, HashMap.lookup_insert_ite]
    split_ifs with he
    · rw [he]
    · exact hg.provides_self k ((List.mem_append.mp hk).resolve_right (by simpa using he))

theorem Wf.rewindTo (hg : Wf g) {name : K} {reset : List K}
    (h : g.rewindTo name = .ok (g', reset)) : Wf g' := by
  obtain ⟨idx, -, rfl, rfl⟩ := rewindTo_ok h
  exact ⟨hg.indexed, hg.order_eq, hg.provides_self,
    fun k hk => hg.completed_sub k (Finset.mem_sdiff.mp hk).1⟩

theorem perform_cases (g : CheckpointedStepGraph K S) (op : Op K S) :
    g.perform op = g ∧ (∀ key, op ≠ .complete key) ∧
        (∀ name, op = .rewindTo name → g.checkpoints.lookup name = none) ∨
      (∃ key deps state g', op = .addStep key deps state ∧ g.addStep key deps state = .ok g' ∧
        g.perform op = g') ∨
      (∃ name g', op = .checkpoint name ∧ g.checkpoint name = .ok g' ∧ g.perform op = g') ∨
      (∃ key, op = .complete key ∧ g.perform op = g.complete key) ∨
      ∃ name g' reset, op = .rewindTo name ∧ g.rewindTo name = .ok (g', reset) ∧
        g.perform op = g' := by
  cases op with
  | addStep key deps state =>
    cases h : g.addStep key deps state with
    | error e => exact Or.inl (by simp [perform, h, Except.toOption])
    | ok g' => exact Or.inr (Or.inl ⟨key, deps, state, g', rfl, h, by simp [perform, h, Except.toOption]⟩)
  | checkpoint name =>
    cases h : g.checkpoint name with
    | error e => exact Or.inl (by simp [perform, h, Except.toOption])
    | ok g' => exact Or.inr (Or.inr (Or.inl ⟨name, g', rfl, h, by simp [perform, h, Except.toOption]⟩))
  | complete key => exact Or.inr (Or.inr (Or.inr (Or.inl ⟨key, rfl, rfl⟩)))
  | rewindTo name =>
    cases h : g.rewindTo name with
    | error e =>
      refine Or.inl ⟨by simp [perform, h, Except.toOption], by simp, ?_⟩
      rintro _ ⟨⟩
      cases hl : g.checkpoints.lookup name with
      | none => rfl
      | some idx => simp [rewindTo, hl] at h
    | ok r => exact Or.inr (Or.inr (Or.inr (Or.inr ⟨name, r.1, r.2, rfl, h, by
        simp [perform, h, Except.toOption]⟩)))

theorem Wf.perform {g : CheckpointedStepGraph K S} (hg : Wf g) (op : Op K S)
    (hop : ReadyFirst g op) : Wf (g.perform op) := by
  rcases g.perform_cases op with ⟨h, -⟩ | ⟨key, deps, state, g', rfl, h, he⟩ |
    ⟨name, g', rfl, h, he⟩ | ⟨key, rfl, he⟩ | ⟨name, g', reset, rfl, h, he⟩
  · rw [h]; exact hg
  · rw [he]; exact hg.addStep h
  · obtain ⟨idx, -, rfl⟩ := checkpoint_ok h
    rw [he]
    exact ⟨hg.indexed, hg.order_eq, hg.provides_self, hg.completed_sub⟩
  · rw [he]
    apply hg.complete
    obtain ⟨deps, hd, -⟩ := (g.isReady_iff key).mp hop
    rw [hg.order_eq, hg.indexed.mem_nodes]
    exact Finmap.mem_of_lookup_eq_some hd
  · rw [he]; exact hg.rewindTo h

theorem depClosed_perform_iff {g : CheckpointedStepGraph K S} (hg : Wf g) (hc : DepClosed g)
    {op : Op K S} (hop : ReadyFirst g op) : DepClosed (g.perform op) ↔ RewindSafe g op := by
  rcases g.perform_cases op with ⟨h, hne, hrw⟩ | ⟨key, deps, state, g', rfl, h, he⟩ |
    ⟨name, g', rfl, h, he⟩ | ⟨key, rfl, he⟩ | ⟨name, g', reset, rfl, h, he⟩
  · rw [h]
    refine iff_of_true hc ?_
    cases op with
    | rewindTo name =>
      intro idx hidx
      rw [hrw name rfl] at hidx
      simp at hidx
    | _ => trivial
  · rw [he]
    refine iff_of_true ?_ trivial
    obtain ⟨graph, hr, rfl⟩ := addStep_ok h
    obtain ⟨hfresh, rfl⟩ := DependencyGraph.register_ok hr
    intro k hk ds hds d hd
    have hne : k ≠ key := by
      rintro rfl
      exact hfresh ((hg.indexed.mem_nodes k).mp (hg.order_eq ▸ hg.completed_sub k hk))
    simp only [DependencyGraph.depsOf, HashMap.lookup_insert_ite, if_neg hne] at hds
    exact hc k hk ds hds d hd
  · obtain ⟨idx, -, rfl⟩ := checkpoint_ok h
    rw [he]
    exact iff_of_true hc trivial
  · rw [he]
    refine iff_of_true ?_ trivial
    obtain ⟨deps, hdeps, hall⟩ := (g.isReady_iff key).mp hop
    intro k hk ds hds d hd
    apply Finset.mem_insert_of_mem
    rcases Finset.mem_insert.mp hk with rfl | hk
    · change g.graph.depsOf k = some ds at hds
      rw [hdeps, Option.some_inj] at hds
      exact hall d (hds ▸ hd)
    · exact hc k hk ds hds d hd
  · obtain ⟨idx, hidx, rfl, rfl⟩ := rewindTo_ok h
    rw [he]
    have hnodup : g.order.Nodup := hg.order_eq ▸ hg.indexed.nodes_nodup
    have hdisj := List.disjoint_take_drop hnodup (le_refl idx)
    constructor
    · intro hclosed idx' hidx' k hk hcomp ds hds d hd hdrop
      rw [hidx, Option.some_inj] at hidx'
      subst hidx'
      have hkept : k ∈ g.completed \ (g.order.drop idx).toFinset :=
        Finset.mem_sdiff.mpr ⟨hcomp, fun hm => hdisj hk (List.mem_toFinset.mp hm)⟩
      have := hclosed k hkept ds hds d hd
      exact (Finset.mem_sdiff.mp this).2 (List.mem_toFinset.mpr hdrop)
    · intro hsafe k hk ds hds d hd
      obtain ⟨hcomp, hout⟩ := Finset.mem_sdiff.mp hk
      have htake : k ∈ g.order.take idx := by
        have := hg.completed_sub k hcomp
        rw [← List.take_append_drop idx g.order] at this
        exact (List.mem_append.mp this).resolve_right (fun hm => hout (List.mem_toFinset.mpr hm))
      exact Finset.mem_sdiff.mpr ⟨hc k hcomp ds hds d hd,
        fun hm => hsafe idx hidx k htake hcomp ds hds d hd (List.mem_toFinset.mp hm)⟩

theorem completed_closed_iff (ops : List (Op K S)) (h : Respects perform ReadyFirst new ops) :
    Along perform DepClosed new ops ↔ Respects perform RewindSafe new ops :=
  along_iff_respects (fun _ op hg hop => Wf.perform hg op hop)
    (fun _ _ hg hc hop => depClosed_perform_iff hg hc hop) wf_new (by simp [DepClosed, new]) h

theorem rewind_breaks_closure : Respects perform ReadyFirst (new : CheckpointedStepGraph ℕ Unit)
      [.addStep 0 [1] (), .addStep 1 [] (), .complete 1, .complete 0, .checkpoint 1, .rewindTo 1] ∧
    ¬Along perform DepClosed (new : CheckpointedStepGraph ℕ Unit)
      [.addStep 0 [1] (), .addStep 1 [] (), .complete 1, .complete 0, .checkpoint 1, .rewindTo 1] := by
  refine ⟨⟨trivial, trivial, by decide, by decide, trivial, trivial, trivial⟩, ?_⟩
  rintro ⟨-, -, -, -, -, -, h⟩
  have := h 0 (by decide) [1] (by decide) 1 (by decide)
  revert this
  decide

theorem completed_closed_chain : Along perform DepClosed (new : CheckpointedStepGraph ℕ Unit)
    [.addStep 0 [] (), .addStep 1 [0] (), .complete 0, .checkpoint 1, .complete 1, .rewindTo 1] := by
  refine (completed_closed_iff _ ?_).mpr ?_
  · exact ⟨trivial, trivial, by decide, trivial, by decide, trivial, trivial⟩
  refine ⟨trivial, trivial, trivial, trivial, trivial, fun idx hidx key hkey _ deps hdeps d hd => ?_,
    trivial⟩
  obtain rfl : 1 = idx := Option.some.inj ((by decide : _ = some 1).symm.trans hidx)
  obtain rfl : key = 0 := List.mem_singleton.mp hkey
  obtain rfl : [] = deps := Option.some.inj ((by decide : _ = some []).symm.trans hdeps)
  simp at hd

end CheckpointedStepGraph

end Fluent.Dag
