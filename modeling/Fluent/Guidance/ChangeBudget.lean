import Fluent.Guidance.ChangeSet
import Fluent.Library.Runs

namespace Fluent.Guidance

open Fluent.Library
open Fluent.Spacy (Text)
open Fluent.CommonCore.Path

namespace ChangeSet

inductive Op where
  | add (path : Text) (kind : ChangeKind) (isDirectory : Bool)
  | merge (other : ChangeSetSnapshot)
  | requireFullReconcile
  | snapshot

section

variable (order : HashOrder Text)

def afterAdd (c : ChangeSet) (path : Text) (kind : ChangeKind) (isDirectory : Bool) : ChangeSet :=
  match add order c path kind isDirectory with
  | .ok c' => c'
  | .error _ => c

def step (c : ChangeSet) : Op → ChangeSet
  | .add path kind isDirectory => c.afterAdd order path kind isDirectory
  | .merge other => c.merge order other
  | .requireFullReconcile => c.requireFullReconcile
  | .snapshot => (c.snapshot order).2

def Bounded (c : ChangeSet) : Prop := c.forceFullReconcile = true ∨ c.size ≤ c.maxChangedPaths

def Narrows (root : Text) (c : ChangeSet) : Prop :=
  ∀ k, c.maxChangedPaths < ((widenRescans order root)^[k] c).size →
    ((widenRescans order root)^[k + 1] c).size < ((widenRescans order root)^[k] c).size

def Ignored (c : ChangeSet) (path : Text) : Prop :=
  (c.forceFullReconcile && decide (0 < c.size)) = true ∨ isAbsoluteLexical path = false ∨
    (pathCoveredBy c.rescanDirectories (normalizeLexical path) ||
      pathCoveredBy c.deletedPrefixes (normalizeLexical path)) = true

structure AddSafe (root : Text) (c : ChangeSet) (path : Text) (kind : ChangeKind) (isDirectory : Bool) : Prop where
  ignored : c.Ignored path → c.Bounded
  recorded : ¬ c.Ignored path → c.forceFullReconcile = false →
    c.maxChangedPaths ≤ (collapsePaths order (c.record (normalizeLexical path) kind isDirectory)).size →
    Narrows order root (widenLeaves order root (collapsePaths order (c.record (normalizeLexical path) kind isDirectory)))

end

variable {order : HashOrder Text} {root : Text}

theorem card_collapseSet_le (paths : Finset Text) : (collapseSet order paths).card ≤ paths.card := by
  have hprune : ∀ (l : List Text) (s : Finset Text), ancestry.prune l s ⊆ s := by
    intro l
    induction l with
    | nil => exact fun s => Finset.Subset.refl s
    | cons p l ih =>
      intro s
      refine (ih _).trans ?_
      dsimp only
      split_ifs
      · exact Finset.erase_subset p s
      · exact Finset.Subset.refl s
  exact Finset.card_le_card (hprune _ _)

variable (c : ChangeSet)

theorem size_collapsePaths_le : (collapsePaths order c).size ≤ c.size := by
  have hrescans := (Finset.card_filter_le (collapseSet order c.rescanDirectories) fun directory =>
    ancestry.hasAncestor (collapseSet order c.deletedPrefixes) directory = false).trans
      (card_collapseSet_le c.rescanDirectories)
  have hdeleted : (collapseSet order c.deletedPrefixes).card ≤ c.deletedPrefixes.card :=
    card_collapseSet_le c.deletedPrefixes
  have htouched := Finset.card_filter_le c.touchedFiles fun file =>
    ancestry.hasAncestor (collapseSet order c.rescanDirectories) file = false ∧
      ancestry.hasAncestor (collapseSet order c.deletedPrefixes) file = false
  exact Nat.add_le_add (Nat.add_le_add htouched hrescans) hdeleted

theorem size_widenRescans_le : (widenRescans order root c).size ≤ c.size :=
  (size_collapsePaths_le _).trans (Nat.add_le_add_right (Nat.add_le_add_left Finset.card_image_le _) _)

theorem size_iterate_le (k : ℕ) : ((widenRescans order root)^[k] c).size ≤ c.size := by
  induction k with
  | zero => exact le_rfl
  | succ k ih =>
    rw [Function.iterate_succ_apply']
    exact (size_widenRescans_le _).trans ih

theorem narrows_of_size_le {c : ChangeSet} (h : c.size ≤ c.maxChangedPaths) : Narrows order root c :=
  fun k hk => absurd ((size_iterate_le c k).trans h) (not_le.mpr hk)

theorem narrows_iff : Narrows order root c ↔
    (c.maxChangedPaths < c.size → (widenRescans order root c).size < c.size) ∧
      Narrows order root (widenRescans order root c) := by
  constructor
  · exact fun h => ⟨h 0, fun k => h (k + 1)⟩
  · rintro ⟨hzero, hsucc⟩ k
    cases k with
    | zero => exact hzero
    | succ k => exact hsucc k

variable (order root) in
theorem size_widenLoop_le_iff :
    (widenLoop order root c).size ≤ c.maxChangedPaths ↔ Narrows order root c := by
  induction c using widenLoop.induct order root with
  | case1 c hfull hsmaller ih =>
    rw [widenLoop, if_pos hfull, if_pos hsmaller, narrows_iff]
    exact ih.trans ⟨fun h => ⟨fun _ => hsmaller, h⟩, And.right⟩
  | case2 c hfull hsame =>
    rw [widenLoop, if_pos hfull, if_neg hsame]
    have heq := (size_widenRescans_le c).antisymm (not_lt.mp hsame)
    rw [heq]
    constructor
    · exact narrows_of_size_le
    · intro h
      by_contra hmore
      exact hsame (h 0 (not_le.mp hmore))
  | case3 c hfits =>
    rw [widenLoop, if_neg hfits]
    have hle := (not_le.mp hfits).le
    exact iff_of_true hle (narrows_of_size_le hle)

theorem maxChangedPaths_widenLeaves : (widenLeaves order root c).maxChangedPaths = c.maxChangedPaths := by
  unfold widenLeaves
  split_ifs
  · rfl
  · rfl

structure SameFrame (c d : ChangeSet) : Prop where
  root : d.root = c.root
  budget : d.maxChangedPaths = c.maxChangedPaths

theorem SameFrame.trans {c d e : ChangeSet} (h : SameFrame c d) (h' : SameFrame d e) : SameFrame c e :=
  ⟨h'.root.trans h.root, h'.budget.trans h.budget⟩

theorem sameFrame_record (path : Text) (kind : ChangeKind) (isDirectory : Bool) :
    SameFrame c (c.record path kind isDirectory) ∧
      (c.record path kind isDirectory).forceFullReconcile = c.forceFullReconcile := by
  unfold record
  split_ifs
  · cases parentLexical path with
    | none => exact ⟨⟨rfl, rfl⟩, rfl⟩
    | some parent => exact ⟨⟨rfl, rfl⟩, rfl⟩
  · exact ⟨⟨rfl, rfl⟩, rfl⟩
  · exact ⟨⟨rfl, rfl⟩, rfl⟩
  · exact ⟨⟨rfl, rfl⟩, rfl⟩

variable (order root) in
theorem sameFrame_widenLoop : SameFrame c (widenLoop order root c) ∧
    (widenLoop order root c).forceFullReconcile = c.forceFullReconcile := by
  induction c using widenLoop.induct order root with
  | case1 c hfull hsmaller ih =>
    rw [widenLoop, if_pos hfull, if_pos hsmaller]
    exact ⟨⟨ih.1.root, ih.1.budget⟩, ih.2⟩
  | case2 c hfull hsame =>
    rw [widenLoop, if_pos hfull, if_neg hsame]
    exact ⟨⟨rfl, rfl⟩, rfl⟩
  | case3 c hfits =>
    rw [widenLoop, if_neg hfits]
    exact ⟨⟨rfl, rfl⟩, rfl⟩

variable (order root) in
theorem sameFrame_widenLeaves : SameFrame c (widenLeaves order root c) ∧
    (widenLeaves order root c).forceFullReconcile = c.forceFullReconcile := by
  unfold widenLeaves
  split_ifs
  · exact ⟨⟨rfl, rfl⟩, rfl⟩
  · exact ⟨⟨rfl, rfl⟩, rfl⟩

variable (order) in
theorem withinBudget_cases {c : ChangeSet} (hroot : c.root = some root) :
    ((collapsePaths order c).size < c.maxChangedPaths ∧
      (withinBudget order c = c ∧ c.size < c.maxChangedPaths ∨ withinBudget order c = collapsePaths order c)) ∨
    c.maxChangedPaths ≤ (collapsePaths order c).size ∧
      withinBudget order c = widenLoop order root (widenLeaves order root (collapsePaths order c)) := by
  have hroot' : (collapsePaths order c).root = some root := hroot
  unfold withinBudget
  split_ifs with hfull
  · unfold enforcePathBudget
    dsimp only
    rw [hroot']
    split_ifs with hsmall
    · exact .inl ⟨hsmall, .inr rfl⟩
    · exact .inr ⟨not_lt.mp hsmall, rfl⟩
  · exact .inl ⟨(size_collapsePaths_le c).trans_lt (not_le.mp hfull), .inl ⟨rfl, not_le.mp hfull⟩⟩

variable (order) in
theorem sameFrame_withinBudget {c : ChangeSet} (hroot : c.root = some root) :
    SameFrame c (withinBudget order c) ∧ (withinBudget order c).forceFullReconcile = c.forceFullReconcile := by
  rcases withinBudget_cases order hroot with ⟨-, ⟨heq, -⟩ | heq⟩ | ⟨-, heq⟩
  · rw [heq]
    exact ⟨⟨rfl, rfl⟩, rfl⟩
  · rw [heq]
    exact ⟨⟨rfl, rfl⟩, rfl⟩
  · rw [heq]
    have hleaves := sameFrame_widenLeaves order root (collapsePaths order c)
    have hloop := sameFrame_widenLoop order root (widenLeaves order root (collapsePaths order c))
    exact ⟨SameFrame.trans ⟨hleaves.1.root, hleaves.1.budget⟩ hloop.1, hloop.2.trans hleaves.2⟩

theorem bounded_withinBudget_iff {c : ChangeSet} (hroot : c.root = some root) :
    (withinBudget order c).Bounded ↔ (c.forceFullReconcile = false →
      c.maxChangedPaths ≤ (collapsePaths order c).size →
        Narrows order root (widenLeaves order root (collapsePaths order c))) := by
  have hframe := sameFrame_withinBudget order hroot
  unfold Bounded
  rw [hframe.1.budget, hframe.2]
  cases hforce : c.forceFullReconcile with
  | true => exact iff_of_true (.inl rfl) nofun
  | false =>
    rcases withinBudget_cases order hroot with ⟨hsmall, ⟨heq, hle⟩ | heq⟩ | ⟨hfull, heq⟩
    · rw [heq]
      exact iff_of_true (.inr hle.le) fun _ hfull => absurd hsmall (not_lt.mpr hfull)
    · rw [heq]
      exact iff_of_true (.inr hsmall.le) fun _ hfull => absurd hsmall (not_lt.mpr hfull)
    · have hloop := size_widenLoop_le_iff order root (widenLeaves order root (collapsePaths order c))
      rw [maxChangedPaths_widenLeaves] at hloop
      rw [heq]
      exact ⟨fun h _ _ => hloop.mp (h.resolve_left Bool.false_ne_true), fun h => .inr (hloop.mpr (h rfl hfull))⟩

theorem afterAdd_of_ignored {c : ChangeSet} {path : Text} (h : c.Ignored path) (kind : ChangeKind) (isDirectory : Bool) :
    c.afterAdd order path kind isDirectory = c := by
  unfold afterAdd add
  by_cases hforce : (c.forceFullReconcile && decide (0 < c.size)) = true
  · rw [if_pos hforce]
  · rw [if_neg hforce]
    by_cases habs : isAbsoluteLexical path = false
    · rw [if_pos habs]
    · rw [if_neg habs]
      dsimp only
      rw [if_pos ((h.resolve_left hforce).resolve_left habs)]

theorem afterAdd_of_not_ignored {c : ChangeSet} {path : Text} (h : ¬ c.Ignored path) (kind : ChangeKind)
    (isDirectory : Bool) :
    c.afterAdd order path kind isDirectory = withinBudget order (c.record (normalizeLexical path) kind isDirectory) := by
  obtain ⟨hforce, habs, hcovered⟩ := not_or.mp h |>.imp_right not_or.mp
  unfold afterAdd add
  rw [if_neg hforce, if_neg habs]
  dsimp only
  rw [if_neg hcovered]

theorem bounded_afterAdd_iff {c : ChangeSet} (hroot : c.root = some root) (path : Text) (kind : ChangeKind)
    (isDirectory : Bool) :
    (c.afterAdd order path kind isDirectory).Bounded ↔ AddSafe order root c path kind isDirectory := by
  by_cases hignored : c.Ignored path
  · rw [afterAdd_of_ignored hignored]
    exact ⟨fun h => ⟨fun _ => h, fun hnot => absurd hignored hnot⟩, fun h => h.ignored hignored⟩
  · obtain ⟨hframe, hforce⟩ := sameFrame_record c (normalizeLexical path) kind isDirectory
    rw [afterAdd_of_not_ignored hignored, bounded_withinBudget_iff (hframe.root.trans hroot), hforce, hframe.budget]
    exact ⟨fun h => ⟨fun hyes => absurd hyes hignored, fun _ => h⟩, fun h => h.recorded hignored⟩

theorem root_step {c : ChangeSet} (hroot : c.root = some root) (op : Op) : (c.step order op).root = some root := by
  cases op with
  | add path kind isDirectory =>
    by_cases hignored : c.Ignored path
    · exact (congrArg ChangeSet.root (afterAdd_of_ignored hignored kind isDirectory)).trans hroot
    · have hrecord := (sameFrame_record c (normalizeLexical path) kind isDirectory).1.root.trans hroot
      refine (congrArg ChangeSet.root (afterAdd_of_not_ignored hignored kind isDirectory)).trans ?_
      exact (sameFrame_withinBudget order hrecord).1.root.trans hrecord
  | merge other =>
    unfold step merge
    split_ifs
    · exact hroot
    · dsimp only
      split_ifs
      · exact hroot
      · exact (sameFrame_withinBudget order (show ChangeSet.root { c with
          touchedFiles := c.touchedFiles ∪ other.touchedFiles.toFinset
          rescanDirectories := c.rescanDirectories ∪ other.rescanDirectories.toFinset
          deletedPrefixes := c.deletedPrefixes ∪ other.deletedPrefixes.toFinset
          forceFullReconcile := c.forceFullReconcile || other.forceFullReconcile } = some root from hroot)).1.root.trans hroot
  | requireFullReconcile => exact hroot
  | snapshot => exact hroot

variable (order) in
def Keeps : Op → Prop
  | .add path kind isDirectory => (c.step order (.add path kind isDirectory)).Bounded
  | _ => True

variable (order root) in
def Safe : Op → Prop
  | .add path kind isDirectory => AddSafe order root c path kind isDirectory
  | _ => True

theorem budget_kept_iff (order : HashOrder Text) (root : Text) (budget : ℕ) (ops : List Op) :
    Respects (step order) (Keeps order) (new (some root) budget) ops ↔
      Respects (step order) (Safe order (normalizeLexical root)) (new (some root) budget) ops := by
  refine respects_congr (I := fun c => c.root = some (normalizeLexical root)) (fun c op hroot => root_step hroot op)
    (fun c op hroot => ?_) rfl
  cases op with
  | add path kind isDirectory => exact bounded_afterAdd_iff hroot path kind isDirectory
  | merge other => exact Iff.rfl
  | requireFullReconcile => exact Iff.rfl
  | snapshot => exact Iff.rfl

def rescansOnly (root : Text) (budget : ℕ) (paths : Finset Text) : ChangeSet := ⟨∅, paths, ∅, false, some root, budget⟩

theorem collapsePaths_of_sameLength {budget n : ℕ} {paths : Finset Text} (h : ∀ p ∈ paths, p.length = n) :
    collapsePaths order (rescansOnly root budget paths) = rescansOnly root budget paths := by
  have htops : collapseSet order paths = paths := by
    refine (Ancestry.prune_eq_tops fun p hp => List.mem_mergeSort.mpr ((order.mem_iter _ _).mpr hp)).trans ?_
    refine Finset.filter_true_of_mem fun p hp => Ancestry.hasAncestor_eq_false_iff.mpr fun q hq habove => ?_
    have hlt : q.length < p.length := habove.size_lt
    rw [h p hp, h q hq] at hlt
    exact lt_irrefl n hlt
  have hempty : collapseSet order ∅ = ∅ :=
    Finset.card_eq_zero.mp (Nat.le_zero.mp ((card_collapseSet_le ∅).trans_eq Finset.card_empty))
  have hnone : ∀ p, ancestry.hasAncestor (∅ : Finset Text) p = false := fun p =>
    Ancestry.hasAncestor_eq_false_iff.mpr fun q hq => absurd hq (Finset.notMem_empty q)
  unfold collapsePaths rescansOnly
  dsimp only
  rw [htops, hempty, Finset.filter_empty, Finset.filter_true_of_mem fun p _ => hnone p]

theorem withinBudget_of_sameLength {budget n m : ℕ} {paths : Finset Text} (h : ∀ p ∈ paths, p.length = n)
    (hparents : ∀ p ∈ paths.image (parentScope root), p.length = m) (hfull : budget ≤ paths.card)
    (hsame : paths.card ≤ (paths.image (parentScope root)).card) :
    withinBudget order (rescansOnly root budget paths) = rescansOnly root budget (paths.image (parentScope root)) := by
  have hsize : ∀ s : Finset Text, (rescansOnly root budget s).size = s.card := fun s => by
    unfold size rescansOnly
    rw [Finset.card_empty, Nat.zero_add, Nat.add_zero]
  have hwiden : widenRescans order root (rescansOnly root budget paths) =
      rescansOnly root budget (paths.image (parentScope root)) := collapsePaths_of_sameLength hparents
  have hfull' : (rescansOnly root budget paths).maxChangedPaths ≤ (rescansOnly root budget paths).size :=
    (hsize paths).symm ▸ hfull
  unfold withinBudget enforcePathBudget
  rw [if_pos hfull', collapsePaths_of_sameLength h]
  dsimp only
  rw [if_neg (not_lt.mpr hfull'), show (rescansOnly root budget paths).root = some root from rfl]
  dsimp only
  rw [show widenLeaves order root (rescansOnly root budget paths) = rescansOnly root budget paths from
    if_pos ⟨rfl, rfl⟩, widenLoop, if_pos hfull', hwiden, if_neg (by rw [hsize, hsize]; exact not_lt.mpr hsame)]

theorem step_of_sameLength {budget m : ℕ} {paths : Finset Text} {path : Text} (hname : fileNameLexical path ≠ gitignore)
    (habsolute : isAbsoluteLexical path = true) (hnormal : normalizeLexical path = path) (hnew : path ∉ paths)
    (hlen : ∀ p ∈ insert path paths, p.length = path.length)
    (hparents : ∀ p ∈ (insert path paths).image (parentScope root), p.length = m)
    (hfull : budget ≤ (insert path paths).card)
    (hsame : (insert path paths).card ≤ ((insert path paths).image (parentScope root)).card) :
    step order (rescansOnly root budget paths) (.add path .changed true) =
      rescansOnly root budget ((insert path paths).image (parentScope root)) := by
  have hnone : ∀ s : Finset Text, (∀ p ∈ s, p.length = path.length) → path ∉ s → pathCoveredBy s path = false := by
    intro s hs hmem
    unfold pathCoveredBy
    rw [decide_eq_false hmem, Bool.false_or]
    refine Ancestry.hasAncestor_eq_false_iff.mpr fun q hq habove => ?_
    have hlt : q.length < path.length := habove.size_lt
    exact absurd (hs q hq) hlt.ne
  have hignored : ¬ (rescansOnly root budget paths).Ignored path := by
    rintro (hforce | habs | hcovered)
    · cases hforce
    · rw [habsolute] at habs
      cases habs
    · have hrescans := hnone (rescansOnly root budget paths).rescanDirectories
        (fun p hp => hlen p (Finset.mem_insert_of_mem hp)) hnew
      have hdeleted := hnone (rescansOnly root budget paths).deletedPrefixes
        (fun p hp => absurd hp (Finset.notMem_empty p)) (Finset.notMem_empty path)
      rw [hnormal, hrescans, hdeleted] at hcovered
      cases hcovered
  have hrecord : (rescansOnly root budget paths).record path .changed true = rescansOnly root budget (insert path paths) := by
    unfold record
    rw [if_neg hname, if_neg (by decide), if_pos rfl]
    rfl
  refine (afterAdd_of_not_ignored hignored .changed true).trans ?_
  rw [hnormal, hrecord, withinBudget_of_sameLength hlen hparents hfull hsame]

theorem deep_directories_exceed_budget : Nonempty (HashOrder Text) ∧ ∀ order : HashOrder Text,
    ¬ Respects (step order) (Keeps order) (new (some "/r".toList) 1)
      [.add "/r/a/b/c".toList .changed true, .add "/r/x/y".toList .changed true] := by
  refine ⟨⟨⟨Finset.toList, Finset.nodup_toList, fun _ _ => Finset.mem_toList⟩⟩, fun order => ?_⟩
  have hstart : new (some "/r".toList) 1 = rescansOnly "/r".toList 1 ∅ :=
    congrArg (fun root => rescansOnly root 1 ∅) (show normalizeLexical "/r".toList = "/r".toList by decide +kernel)
  have hfirst : step order (rescansOnly "/r".toList 1 ∅) (.add "/r/a/b/c".toList .changed true) =
      rescansOnly "/r".toList 1 {"/r/a/b".toList} :=
    (step_of_sameLength (m := 6) (by decide +kernel) (by decide +kernel) (by decide +kernel) (by decide +kernel)
      (by decide +kernel) (by decide +kernel) (by decide +kernel) (by decide +kernel)).trans
        (congrArg (rescansOnly _ _) (by decide +kernel))
  have hsecond : step order (rescansOnly "/r".toList 1 {"/r/a/b".toList}) (.add "/r/x/y".toList .changed true) =
      rescansOnly "/r".toList 1 {"/r/x".toList, "/r/a".toList} :=
    (step_of_sameLength (m := 4) (by decide +kernel) (by decide +kernel) (by decide +kernel) (by decide +kernel)
      (by decide +kernel) (by decide +kernel) (by decide +kernel) (by decide +kernel)).trans
        (congrArg (rescansOnly _ _) (by decide +kernel))
  rw [hstart]
  rintro ⟨-, hbounded, -⟩
  rw [hfirst] at hbounded
  have hbounded : (step order (rescansOnly "/r".toList 1 {"/r/a/b".toList})
    (.add "/r/x/y".toList .changed true)).Bounded := hbounded
  rw [hsecond] at hbounded
  rcases hbounded with hforce | hsize
  · cases hforce
  · exact absurd hsize (by decide +kernel)

end ChangeSet

end Fluent.Guidance
