import Fluent.Library.TopK
import Fluent.Router.Charts.Store

namespace Fluent.Router.Charts

open Fluent.Library
open Fluent.Spacy (Text)

variable {F R D S : Type}

/-- An embedding is a list of coordinates; of the coordinates only the distance of two embeddings is known, and its
similarity. -/
structure Metric (R D S : Type) where
  distance : List R → List R → D
  similarity : D → S

abbrev Hnsw (R D : Type) := List (List R) → List R → ℕ → List (ℕ × D)

structure ChartIndex (R : Type) where
  flat : List (Text × List R)
  nodup : (flat.map Prod.fst).Nodup

structure IndexError where
  reason : Text
deriving DecidableEq

def hnswLookup (hnsw : Hnsw R D) (points : List (List R)) (query : List R) (k : ℕ) : Option (List (ℕ × D)) :=
  if points.isEmpty then none
  else if query.isEmpty ∨ k = 0 then none
  else
    let resolved := (hnsw points query k).filter fun hit => hit.1 < points.length
    if resolved.isEmpty then none else some resolved

def scoredHits {I : Type} (similarity : D → S) (resolved : List (I × D)) : List (I × S) :=
  resolved.map fun hit => (hit.1, similarity hit.2)

def knnBruteForce {I : Type} [LinearOrder D] (distance : List R → List R → D) (query : List R)
    (candidates : List (I × List R)) (k : ℕ) : List (I × D) :=
  if query.isEmpty ∨ k = 0 then []
  else
    let results := (candidates.filter fun c => c.2.length = query.length).map fun c => (c.1, distance query c.2)
    (results.mergeSort fun a b => a.2 ≤ b.2).take k

namespace ChartStore

def search [LinearOrder D] [LinearOrder S] (m : Metric R D S) (hnsw : Hnsw R D)
    (embed : Text → Except Text (List R)) (store : ChartStore F) (built : Option (ChartIndex R)) (request : Text)
    (k : ℕ) : Except IndexError (List (Text × S)) :=
  match built with
  | none => .ok []
  | some index =>
    match embed request with
    | .error e => .error ⟨"embed request: ".toList ++ e⟩
    | .ok query =>
      if query.isEmpty ∨ k = 0 then .ok []
      else
        let hits := ((hnswLookup hnsw (index.flat.map Prod.snd) query k).map fun resolved =>
          (scoredHits m.similarity resolved).filterMap fun hit =>
            (index.flat[hit.1]?).map fun entry => (entry.1, hit.2)).getD []
        let hits := if hits.isEmpty then scoredHits m.similarity (knnBruteForce m.distance query index.flat k) else hits
        let hits := (hits.mergeSort fun a b => b.2 ≤ a.2).take k
        .ok (hits.filter fun hit => !store.isExcludedFromSelection hit.1)

end ChartStore

/-- What the index is assumed to be: its answer is the `k` nearest points, nearest first. -/
def ExactIndex [LinearOrder D] (m : Metric R D S) (hnsw : Hnsw R D) : Prop :=
  ∀ points query k, TopK (fun hit : ℕ × D => OrderDual.toDual hit.2) k
    (points.zipIdx.map fun p => (p.2, m.distance query p.1)) (hnsw points query k)

namespace ChartIndex

variable (index : ChartIndex R) (m : Metric R D S) (hnsw : Hnsw R D) (query : List R) (k : ℕ)

def scored : List (Text × S) := index.flat.map fun entry => (entry.1, m.similarity (m.distance query entry.2))

def nearest : List Text :=
  (hnsw (index.flat.map Prod.snd) query k).filterMap fun hit => (index.flat[hit.1]?).map Prod.fst

end ChartIndex

section Exact

variable {index : ChartIndex R} {m : Metric R D S} {hnsw : Hnsw R D} {query : List R} {k : ℕ}

def hitOf (m : Metric R D S) (index : ChartIndex R) (hit : ℕ × D) : Text × S :=
  ((index.flat[hit.1]?).elim [] Prod.fst, m.similarity hit.2)

theorem scored_eq (index : ChartIndex R) (m : Metric R D S) (query : List R) :
    ((index.flat.map Prod.snd).zipIdx.map fun p => (p.2, m.distance query p.1)).map (hitOf m index) =
      index.scored m query := by
  apply List.ext_getElem
  · simp [ChartIndex.scored]
  · intro i h₁ h₂
    simp only [ChartIndex.scored, List.length_map] at h₂
    simp [ChartIndex.scored, hitOf, h₂]

theorem names_scored (index : ChartIndex R) (m : Metric R D S) (query : List R) :
    (index.scored m query).map Prod.fst = index.flat.map Prod.fst := by
  rw [ChartIndex.scored, List.map_map]
  rfl

variable [LinearOrder D]

theorem position_lt (h : ExactIndex m hnsw) {hit : ℕ × D} (hhit : hit ∈ hnsw (index.flat.map Prod.snd) query k) :
    hit.1 < index.flat.length := by
  obtain ⟨p, hp, rfl⟩ := List.mem_map.mp ((h _ query k).mem hhit)
  simpa using List.snd_lt_of_mem_zipIdx hp

theorem nearest_eq (h : ExactIndex m hnsw) :
    index.nearest hnsw query k = ((hnsw (index.flat.map Prod.snd) query k).map (hitOf m index)).map Prod.fst := by
  rw [ChartIndex.nearest, List.map_map]
  refine List.filterMap_eq_map_iff_forall_eq_some.mpr fun hit hhit => ?_
  simp [hitOf, position_lt h hhit]

theorem lookup_eq (h : ExactIndex m hnsw) (hquery : query ≠ []) (hk : k ≠ 0) :
    ((hnswLookup hnsw (index.flat.map Prod.snd) query k).map fun resolved =>
      (scoredHits m.similarity resolved).filterMap fun hit =>
        (index.flat[hit.1]?).map fun entry => (entry.1, hit.2)).getD [] =
      (hnsw (index.flat.map Prod.snd) query k).map (hitOf m index) := by
  have hfilter : ((hnsw (index.flat.map Prod.snd) query k).filter fun hit => hit.1 < (index.flat.map Prod.snd).length) =
      hnsw (index.flat.map Prod.snd) query k := by
    refine List.filter_eq_self.mpr fun hit hhit => ?_
    simpa using position_lt h hhit
  have hlength := (h (index.flat.map Prod.snd) query k).length
  simp only [hnswLookup, hfilter]
  split
  · rename_i hempty
    rw [List.isEmpty_iff] at hempty
    rw [hempty] at hlength ⊢
    have hnil : hnsw [] query k = [] := List.length_eq_zero_iff.mp (by simpa using hlength)
    simp [hnil]
  · split
    · rename_i hor
      simp [hquery, hk] at hor
    · split
      · rename_i hempty
        rw [List.isEmpty_iff] at hempty
        simp [hempty]
      · rw [Option.map_some, Option.getD_some, scoredHits, List.filterMap_map]
        refine List.filterMap_eq_map_iff_forall_eq_some.mpr fun hit hhit => ?_
        simp [hitOf, position_lt h hhit]

variable [LinearOrder S]

theorem topK_hits (h : ExactIndex m hnsw) (hsim : Antitone m.similarity) :
    TopK Prod.snd k (index.scored m query)
      ((hnsw (index.flat.map Prod.snd) query k).map (hitOf m index)) := by
  rw [← scored_eq]
  refine (h _ query k).map _ fun a b hab => hsim ?_
  exact hab

theorem search_eq {embed : Text → Except Text (List R)} {request : Text} (h : ExactIndex m hnsw)
    (hsim : Antitone m.similarity) (hembed : embed request = .ok query) (hquery : query ≠ []) (hk : k ≠ 0)
    (store : ChartStore F) :
    store.search m hnsw embed (some index) request k =
      .ok (((hnsw (index.flat.map Prod.snd) query k).map (hitOf m index)).filter
        fun hit => !store.isExcludedFromSelection hit.1) := by
  have htop : TopK Prod.snd k (index.scored m query) _ := topK_hits h hsim
  have hbrute : (if ((hnsw (index.flat.map Prod.snd) query k).map (hitOf m index)).isEmpty then
      scoredHits m.similarity (knnBruteForce m.distance query index.flat k)
      else (hnsw (index.flat.map Prod.snd) query k).map (hitOf m index)) =
      (hnsw (index.flat.map Prod.snd) query k).map (hitOf m index) := by
    split
    · rename_i hempty
      rw [List.isEmpty_iff] at hempty
      have hflat : index.flat = [] := by
        have hlength := htop.length
        rw [hempty, ChartIndex.scored, List.length_map, List.length_nil] at hlength
        exact List.length_eq_zero_iff.mp (by omega)
      rw [hempty, hflat]
      simp [knnBruteForce, scoredHits]
    · rfl
  rw [ChartStore.search, hembed]
  simp only [lookup_eq h hquery hk, hbrute]
  rw [if_neg (by simp [hquery, hk]), List.mergeSort_of_pairwise, List.take_of_length_le]
  · rw [htop.length]
    exact min_le_left _ _
  · exact htop.sorted.imp fun hab => by simpa using hab

end Exact

theorem selectable_nil_iff {index : ChartIndex R} {m : Metric R D S} {query : List R} {store : ChartStore F} :
    ((index.scored m query).filter fun hit => !store.isExcludedFromSelection hit.1) = [] ↔
      ∀ entry ∈ index.flat, store.isExcludedFromSelection entry.1 = true := by
  rw [List.filter_eq_nil_iff, ChartIndex.scored, List.forall_mem_map]
  simp

variable [LinearOrder D] [LinearOrder S]

theorem hits_iff {index : ChartIndex R} {m : Metric R D S} {hnsw : Hnsw R D} {query : List R} {k : ℕ}
    {store : ChartStore F} (hexact : ExactIndex m hnsw) (hsim : Antitone m.similarity) :
    TopK Prod.snd k ((index.scored m query).filter fun hit => !store.isExcludedFromSelection hit.1)
      (((hnsw (index.flat.map Prod.snd) query k).map (hitOf m index)).filter
        fun hit => !store.isExcludedFromSelection hit.1) ↔
    (∀ name ∈ index.nearest hnsw query k, store.isExcludedFromSelection name = false) ∨
      ∀ entry ∈ index.flat, store.isExcludedFromSelection entry.1 = false → entry.1 ∈ index.nearest hnsw query k := by
  have htop : TopK Prod.snd k (index.scored m query) _ := topK_hits hexact hsim
  have hnodup : ((index.scored m query).map Prod.fst).Nodup := by
    rw [names_scored]
    exact index.nodup
  rw [htop.filter_iff hnodup.of_map, nearest_eq hexact]
  refine or_congr (by simp only [List.forall_mem_map, Bool.not_eq_true'])
    ⟨fun hall entry hentry hkept => ?_, fun hall hit hhit hkept => ?_⟩
  · have hscored : (entry.1, m.similarity (m.distance query entry.2)) ∈ index.scored m query :=
      List.mem_map.mpr ⟨entry, hentry, rfl⟩
    exact List.mem_map.mpr ⟨_, hall _ hscored (by simpa using hkept), rfl⟩
  · obtain ⟨entry, hentry, rfl⟩ := List.mem_map.mp hhit
    obtain ⟨hit, hmem, hname⟩ := List.mem_map.mp (hall entry hentry (by simpa using hkept))
    rwa [← List.inj_on_of_nodup_map hnodup (htop.mem hmem) hhit hname]

theorem search_selects_iff (m : Metric R D S) (hnsw : Hnsw R D) (hexact : ExactIndex m hnsw)
    (hsim : Antitone m.similarity) (embed : Text → Except Text (List R)) (request : Text) (query : List R)
    (hembed : embed request = .ok query) (store : ChartStore F) (index : ChartIndex R) (k : ℕ) :
    (∃ result, store.search m hnsw embed (some index) request k = .ok result ∧
      TopK Prod.snd k ((index.scored m query).filter fun hit => !store.isExcludedFromSelection hit.1) result) ↔
    k = 0 ∨ (∀ entry ∈ index.flat, store.isExcludedFromSelection entry.1 = true) ∨
      query ≠ [] ∧ ((∀ name ∈ index.nearest hnsw query k, store.isExcludedFromSelection name = false) ∨
        ∀ entry ∈ index.flat, store.isExcludedFromSelection entry.1 = false →
          entry.1 ∈ index.nearest hnsw query k) := by
  by_cases hask : query ≠ [] ∧ k ≠ 0
  · obtain ⟨hquery, hk⟩ := hask
    rw [search_eq hexact hsim hembed hquery hk]
    simp only [Except.ok.injEq, exists_eq_left', hits_iff hexact hsim, hk, hquery, false_or, ne_eq, not_false_eq_true,
      true_and]
    refine (or_iff_right_of_imp fun hall => Or.inr fun entry hentry hkept => ?_).symm
    rw [hall entry hentry] at hkept
    cases hkept
  · have hsearch : store.search m hnsw embed (some index) request k = .ok [] := by
      rw [ChartStore.search, hembed]
      exact if_pos (by simpa [or_iff_not_imp_left] using hask)
    rw [hsearch]
    simp only [Except.ok.injEq, exists_eq_left', topK_nil_iff, selectable_nil_iff]
    tauto

def scan (m : Metric R D S) : Hnsw R D := fun points query k =>
  ((points.zipIdx.map fun p => (p.2, m.distance query p.1)).insertionSort fun a b => a.2 ≤ b.2).take k

omit [LinearOrder S] in
theorem exactIndex_scan (m : Metric R D S) : ExactIndex m (scan m) := by
  intro points query k
  rw [scan]
  generalize (points.zipIdx.map fun p => (p.2, m.distance query p.1)) = pool
  have : Std.Total fun a b : ℕ × D => a.2 ≤ b.2 := ⟨fun a b => le_total a.2 b.2⟩
  have : IsTrans (ℕ × D) fun a b => a.2 ≤ b.2 := ⟨fun a b c => le_trans⟩
  have hsorted := List.pairwise_insertionSort (fun a b : ℕ × D => a.2 ≤ b.2) pool
  have hperm := List.perm_insertionSort (fun a b : ℕ × D => a.2 ≤ b.2) pool
  rw [← List.take_append_drop k (pool.insertionSort fun a b => a.2 ≤ b.2)] at hsorted hperm
  obtain ⟨hfirst, -, hcross⟩ := List.pairwise_append.mp hsorted
  exact ⟨⟨_, hperm, hcross⟩, by rw [List.length_take, List.length_insertionSort], hfirst⟩

def line : Metric ℕ ℕ ℕ where
  distance a b := max (a.headD 0) (b.headD 0) - min (a.headD 0) (b.headD 0)
  similarity d := 10 - d

theorem antitone_line : Antitone line.similarity := fun _ _ h => Nat.sub_le_sub_left h 10

def twoCharts : ChartIndex ℕ := ⟨[("deploy".toList, [1]), ("triage".toList, [3])], by decide⟩

def demotedDeploy : ChartStore Unit :=
  (List.replicate 3 "deploy".toList).foldl (fun store name => (store.recordRubricResult name false).1) .new

theorem triage_found :
    ∃ result, demotedDeploy.search line (scan line) (fun _ => .ok [1]) (some twoCharts) "deploy it".toList 2 =
        .ok result ∧
      TopK Prod.snd 2 ((twoCharts.scored line [1]).filter fun hit => !demotedDeploy.isExcludedFromSelection hit.1)
        result :=
  (search_selects_iff line (scan line) (exactIndex_scan line) antitone_line _ _ [1] rfl demotedDeploy twoCharts 2).mpr
    (.inr (.inr ⟨by simp, .inr (by decide +kernel)⟩))

theorem demoted_takes_place :
    demotedDeploy.isExcludedFromSelection "triage".toList = false ∧
      demotedDeploy.search line (scan line) (fun _ => .ok [1]) (some twoCharts) "deploy it".toList 1 = .ok [] := by
  refine ⟨by decide, ?_⟩
  rw [search_eq (exactIndex_scan line) antitone_line rfl (by simp) (by simp)]
  decide

end Fluent.Router.Charts
