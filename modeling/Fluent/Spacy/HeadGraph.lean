import Fluent.Spacy.Annotation

open Fluent.Library Fluent.Dag

namespace Fluent.Spacy

def headDeps (i : ℕ) (rec : AnnotationRecord) : List ℕ := if isRootDep rec.dep then [] else [rec.headIndex i]

structure GraphOf (records : AnnotationSet) (k : ℕ) (g : DependencyGraph ℕ) : Prop where
  indexed : g.WellIndexed
  deps : ∀ n, g.deps.lookup n = if n < k then (records[n]?).map (headDeps n) else none
  provides : ∀ n, g.provides.lookup n = if n < k then (records[n]?).map fun _ => [n] else none

theorem graphOf_new (records : AnnotationSet) : GraphOf records 0 .new :=
  ⟨DependencyGraph.wellIndexed_new, fun _ => rfl, fun _ => rfl⟩

theorem GraphOf.register {records : AnnotationSet} {k : ℕ} {g : DependencyGraph ℕ} (h : GraphOf records k g)
    {rec : AnnotationRecord} (hrec : records[k]? = some rec) :
    ∃ g', g.register k (headDeps k rec) [k] = .ok g' ∧ GraphOf records (k + 1) g' := by
  have hfresh : k ∉ g.deps := by
    rw [← Finmap.lookup_eq_none, h.deps, if_neg (Nat.lt_irrefl k)]
  have hreg : ∃ g', g.register k (headDeps k rec) [k] = .ok g' := by
    rw [DependencyGraph.register, if_neg hfresh]
    exact ⟨_, rfl⟩
  obtain ⟨g', hreg⟩ := hreg
  refine ⟨g', hreg, h.indexed.register hreg, ?_, ?_⟩
  · intro n
    obtain ⟨-, rfl⟩ := DependencyGraph.register_ok hreg
    rw [HashMap.lookup_insert_ite, h.deps]
    by_cases hn : n = k
    · subst hn
      simp [hrec]
    · have : n < k + 1 ↔ n < k := by omega
      simp only [if_neg hn, this]
  · intro n
    obtain ⟨-, rfl⟩ := DependencyGraph.register_ok hreg
    rw [HashMap.lookup_insert_ite, h.provides]
    by_cases hn : n = k
    · subst hn
      simp [hrec]
    · have : n < k + 1 ↔ n < k := by omega
      simp only [if_neg hn, this]

theorem headGraph_suffix {records : AnnotationSet} (rest : AnnotationSet) {k : ℕ} (hrest : records.drop k = rest)
    {g : DependencyGraph ℕ} (h : GraphOf records k g) :
    ∃ g', headGraph rest k g = .ok g' ∧ GraphOf records (k + rest.length) g' := by
  induction rest generalizing k g with
  | nil => exact ⟨g, rfl, h⟩
  | cons rec rest ih =>
    have hrec : records[k]? = some rec := by
      rw [← List.head?_drop, hrest]
      rfl
    have hdrop : records.drop (k + 1) = rest := by
      rw [← List.tail_drop, hrest]
      rfl
    obtain ⟨g', hreg, h'⟩ := h.register hrec
    obtain ⟨final, hfinal, hspec⟩ := ih hdrop h'
    refine ⟨final, ?_, ?_⟩
    · have hreg' : g.register k (if isRootDep rec.dep then [] else [rec.headIndex k]) [k] = .ok g' := hreg
      rw [headGraph, hreg']
      exact hfinal
    · rw [List.length_cons, Nat.add_comm rest.length 1, ← Nat.add_assoc]
      exact hspec

theorem headGraph_ok (records : AnnotationSet) :
    ∃ g, headGraph records 0 .new = .ok g ∧ GraphOf records records.length g := by
  obtain ⟨g, hg, h⟩ := headGraph_suffix records rfl (graphOf_new records)
  rw [Nat.zero_add] at h
  exact ⟨g, hg, h⟩

def HeadOf (records : AnnotationSet) (p n : ℕ) : Prop :=
  p < records.length ∧ ∃ rec, records[n]? = some rec ∧ !isRootDep rec.dep ∧ rec.headIndex n = p

section

variable {records : AnnotationSet} {g : DependencyGraph ℕ}

theorem GraphOf.mem_deps (h : GraphOf records records.length g) {n a : ℕ} :
    a ∈ (g.deps.lookup n).getD [] ↔ ∃ rec, records[n]? = some rec ∧ !isRootDep rec.dep ∧ rec.headIndex n = a := by
  rw [h.deps]
  by_cases hn : n < records.length
  · rw [if_pos hn, List.getElem?_eq_getElem hn]
    simp only [Option.map_some, Option.getD_some, headDeps, Option.some.injEq, exists_eq_left']
    split
    · next hroot => simp [hroot]
    · next hroot => simp [hroot, eq_comm (a := a)]
  · rw [if_neg hn, List.getElem?_eq_none (Nat.le_of_not_lt hn)]
    simp

theorem GraphOf.mem_provides (h : GraphOf records records.length g) {n a : ℕ} :
    a ∈ (g.provides.lookup n).getD [] ↔ a = n ∧ n < records.length := by
  rw [h.provides]
  by_cases hn : n < records.length
  · simp [hn]
  · simp [hn]

theorem GraphOf.feeds_iff (h : GraphOf records records.length g) {p n : ℕ} : g.Feeds p n ↔ HeadOf records p n := by
  unfold DependencyGraph.Feeds HeadOf
  constructor
  · rintro ⟨a, hp, hn⟩
    obtain ⟨rfl, hlt⟩ := h.mem_provides.mp hp
    exact ⟨hlt, h.mem_deps.mp hn⟩
  · rintro ⟨hlt, hn⟩
    exact ⟨p, h.mem_provides.mpr ⟨rfl, hlt⟩, h.mem_deps.mpr hn⟩

theorem GraphOf.edge_iff (h : GraphOf records records.length g) {p n : ℕ} :
    g.Edge p n ↔ p ≠ n ∧ HeadOf records p n := by
  rw [DependencyGraph.edge_iff, ← h.feeds_iff]
  unfold DependencyGraph.Feeds
  simp only [and_comm]

end

theorem mem_rootsFrom {records : AnnotationSet} {k i : ℕ} :
    i ∈ rootsFrom records k ↔ ∃ j rec, records[j]? = some rec ∧ isRootDep rec.dep ∧ i = k + j := by
  induction records generalizing k with
  | nil => simp [rootsFrom]
  | cons rec records ih =>
    have hfirst : i ∈ rootsFrom (rec :: records) k ↔
        (isRootDep rec.dep ∧ i = k) ∨ i ∈ rootsFrom records (k + 1) := by
      rw [rootsFrom]
      split
      · next hroot => simp [hroot]
      · next hroot => simp [hroot]
    rw [hfirst, ih]
    constructor
    · rintro (⟨hroot, rfl⟩ | ⟨j, r, hr, hroot, rfl⟩)
      · exact ⟨0, rec, rfl, hroot, rfl⟩
      · exact ⟨j + 1, r, hr, hroot, by omega⟩
    · rintro ⟨j, r, hr, hroot, rfl⟩
      cases j with
      | zero =>
        obtain rfl := Option.some.inj hr
        exact .inl ⟨hroot, rfl⟩
      | succ j => exact .inr ⟨j, r, hr, hroot, by omega⟩

theorem checkTree_ok {records : AnnotationSet} (hash : HashOrder ℕ)
    (hacyclic : ∀ i, ¬Relation.TransGen (HeadOf records) i i)
    (hreach : ∀ i < records.length, ∃ r ∈ rootsFrom records 0, Relation.ReflTransGen (HeadOf records) r i) :
    checkTree records hash = .ok () := by
  obtain ⟨g, hg, hspec⟩ := headGraph_ok records
  obtain ⟨order, hsort⟩ := (hspec.indexed.topoSort_ok_iff_acyclic hash).mpr fun i hcycle =>
    hacyclic i (Relation.TransGen.mono (fun _ _ h => (hspec.edge_iff.mp h).2) _ _ hcycle)
  have hreached : ∀ i < records.length, i ∈ reachedFrom g (rootsFrom records 0) := by
    intro i hi
    obtain ⟨r, hr, hpath⟩ := hreach i hi
    rw [reachedFrom, List.mem_toFinset, List.mem_flatMap]
    refine ⟨r, hr, List.mem_cons.mpr ?_⟩
    by_cases hne : i = r
    · exact .inl hne
    · rcases Relation.reflTransGen_iff_eq_or_transGen.mp hpath with heq | hpath
      · exact .inl heq
      · exact .inr (hspec.indexed.mem_dependentsOf
          (Relation.TransGen.mono (fun _ _ => hspec.feeds_iff.mpr) _ _ hpath) hne)
  have hnone : (List.range records.length).filter (fun i => i ∉ reachedFrom g (rootsFrom records 0)) = [] := by
    rw [List.filter_eq_nil_iff]
    intro i hi
    simpa using hreached i (List.mem_range.mp hi)
  unfold checkTree
  rw [hg]
  dsimp only
  rw [hsort]
  dsimp only
  rw [hnone]
  exact if_neg (by simp)

end Fluent.Spacy
