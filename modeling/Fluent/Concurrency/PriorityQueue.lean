import Mathlib.Data.Finset.Sort
import Fluent.Library.HashContainers

namespace Fluent.Concurrency

open Fluent.Library

structure PriorityQueue (T : Type) where
  simple : List T
  prioritized : HashMap ℤ (List T)
  count : ℕ

inductive Pick where
  | positive (key : ℤ)
  | simple
  | negative (key : ℤ)
  | empty
deriving DecidableEq

namespace PriorityQueue

variable {T : Type}

def new : PriorityQueue T := ⟨[], ∅, 0⟩

def push (q : PriorityQueue T) (item : T) (priority : ℤ) : PriorityQueue T :=
  if priority = 0 then { q with count := q.count + 1, simple := q.simple ++ [item] }
  else { q with count := q.count + 1, prioritized := HashMap.pushEntry q.prioritized priority item }

def keys (q : PriorityQueue T) : List ℤ := q.prioritized.keys.sort (· ≤ ·)

def pickBucket (q : PriorityQueue T) : Pick :=
  match q.keys.getLast?.filter (0 < ·) with
  | some key => .positive key
  | none =>
    if q.simple ≠ [] then .simple
    else
      match q.keys.getLast? with
      | some key => .negative key
      | none => .empty

def popBucket (q : PriorityQueue T) (key : ℤ) : Option (T × ℤ) × PriorityQueue T :=
  match q.prioritized.lookup key with
  | some bucket =>
    (bucket.head?.map (·, key),
      { q with
        count := if bucket.head?.isSome then q.count - 1 else q.count
        prioritized :=
          if bucket.tail = [] then q.prioritized.erase key else q.prioritized.insert key bucket.tail })
  | none => (none, q)

def popEntry (q : PriorityQueue T) : Option (T × ℤ) × PriorityQueue T :=
  match q.pickBucket with
  | .positive key | .negative key => q.popBucket key
  | .simple =>
    (q.simple.head?.map (·, 0),
      { q with count := if q.simple.head?.isSome then q.count - 1 else q.count, simple := q.simple.tail })
  | .empty => (none, q)

def pop (q : PriorityQueue T) : Option T × PriorityQueue T := (q.popEntry.1.map Prod.fst, q.popEntry.2)

def peek (q : PriorityQueue T) : Option (T × ℤ) :=
  match q.pickBucket with
  | .positive key | .negative key => (q.prioritized.lookup key).bind fun bucket => bucket.head?.map (·, key)
  | .simple => q.simple.head?.map (·, 0)
  | .empty => none

def len (q : PriorityQueue T) : ℕ := q.count

def items (q : PriorityQueue T) : List (ℤ × T) :=
  (q.keys.flatMap fun key => ((q.prioritized.lookup key).getD []).map (key, ·)) ++ q.simple.map (0, ·)

def intoIter (q : PriorityQueue T) : List (ℤ × T) := q.items.mergeSort fun a b => b.1 ≤ a.1

def drain (q : PriorityQueue T) : List (ℤ × T) × PriorityQueue T := (q.intoIter, new)

inductive Op (T : Type) where
  | push (item : T) (priority : ℤ)
  | pop

def step (q : PriorityQueue T) : Op T → PriorityQueue T
  | .push item priority => q.push item priority
  | .pop => q.pop.2

/-! The queue as the list of what is in it, in the order in which it was pushed. -/

section Entries

abbrev Entries (T : Type) := List (ℤ × T)

def top (entries : Entries T) : Option ℤ := (entries.map Prod.fst).max?

def next (entries : Entries T) : Option (ℤ × T) := (top entries).bind fun m => entries.find? (·.1 = m)

def rest (entries : Entries T) : Entries T := (top entries).elim [] fun m => entries.eraseP (·.1 = m)

def queued (entries : Entries T) : Op T → Entries T
  | .push item priority => entries ++ [(priority, item)]
  | .pop => rest entries

def pops : ℕ → PriorityQueue T → List (Option (T × ℤ))
  | 0, _ => []
  | n + 1, q => q.popEntry.1 :: pops n q.popEntry.2

def bucket (entries : Entries T) (key : ℤ) : List T := (entries.filter (·.1 = key)).map Prod.snd

theorem filter_eq_map_bucket (entries : Entries T) (key : ℤ) :
    entries.filter (·.1 = key) = (bucket entries key).map (key, ·) := by
  have hmap : ∀ e ∈ entries.filter (·.1 = key), ((key, ·) ∘ Prod.snd) e = id e := by
    intro e he
    have hkey : e.1 = key := by simpa using (List.mem_filter.mp he).2
    rw [← hkey]
    rfl
  rw [bucket, List.map_map, List.map_congr_left hmap, List.map_id]

theorem eq_of_sorted_of_filter {l l' : Entries T} (hl : l.Pairwise fun a b => b.1 ≤ a.1)
    (hl' : l'.Pairwise fun a b => b.1 ≤ a.1) (h : ∀ key, l.filter (·.1 = key) = l'.filter (·.1 = key)) : l = l' := by
  induction l generalizing l' with
  | nil =>
    refine (List.eq_nil_iff_forall_not_mem.mpr fun e he => ?_).symm
    have hmem : e ∈ l'.filter (·.1 = e.1) := List.mem_filter.mpr ⟨he, by simp⟩
    rw [← h] at hmem
    cases hmem
  | cons a l ih =>
    obtain ⟨hmax, hrest⟩ := List.pairwise_cons.mp hl
    cases l' with
    | nil =>
      have hmem : a ∈ (a :: l).filter (·.1 = a.1) := List.mem_filter.mpr ⟨List.mem_cons_self, by simp⟩
      rw [h] at hmem
      cases hmem
    | cons b l' =>
      obtain ⟨hmax', hrest'⟩ := List.pairwise_cons.mp hl'
      have hb : b ∈ a :: l := by
        have hmem : b ∈ (b :: l').filter (·.1 = b.1) := List.mem_filter.mpr ⟨List.mem_cons_self, by simp⟩
        rw [← h] at hmem
        exact (List.mem_filter.mp hmem).1
      have ha : a ∈ b :: l' := by
        have hmem : a ∈ (a :: l).filter (·.1 = a.1) := List.mem_filter.mpr ⟨List.mem_cons_self, by simp⟩
        rw [h] at hmem
        exact (List.mem_filter.mp hmem).1
      have hle : b.1 ≤ a.1 := by
        rcases List.mem_cons.mp hb with rfl | hb
        · exact le_rfl
        · exact hmax b hb
      have hge : a.1 ≤ b.1 := by
        rcases List.mem_cons.mp ha with rfl | ha
        · exact le_rfl
        · exact hmax' a ha
      have hkey : a.1 = b.1 := le_antisymm hge hle
      have hhead := h a.1
      rw [List.filter_cons_of_pos (by simp), List.filter_cons_of_pos (by simp [hkey])] at hhead
      obtain ⟨rfl, -⟩ := List.cons.inj hhead
      refine congrArg (a :: ·) (ih hrest hrest' fun key => ?_)
      have hkey := h key
      by_cases hk : a.1 = key
      · rw [List.filter_cons_of_pos (by simpa using hk), List.filter_cons_of_pos (by simpa using hk)] at hkey
        exact (List.cons.inj hkey).2
      · rwa [List.filter_cons_of_neg (by simpa using hk), List.filter_cons_of_neg (by simpa using hk)] at hkey

def ordered (entries : Entries T) : Entries T := entries.mergeSort fun a b => b.1 ≤ a.1

theorem sorted_ordered (entries : Entries T) : (ordered entries).Pairwise fun a b => b.1 ≤ a.1 := by
  have hsorted : (ordered entries).Pairwise fun a b => decide (b.1 ≤ a.1) = true := List.pairwise_mergeSort
    (fun a b c hab hbc => by simp only [decide_eq_true_eq] at *; omega)
    (fun a b => by simp only [Bool.or_eq_true, decide_eq_true_eq]; omega) entries
  simpa using hsorted

theorem filter_ordered (entries : Entries T) (key : ℤ) :
    (ordered entries).filter (·.1 = key) = entries.filter (·.1 = key) := by
  have hties : (entries.filter (·.1 = key)).Pairwise fun a b => decide (b.1 ≤ a.1) = true := by
    refine List.pairwise_of_forall_mem_list fun a ha b hb => ?_
    have hka : a.1 = key := by simpa using (List.mem_filter.mp ha).2
    have hkb : b.1 = key := by simpa using (List.mem_filter.mp hb).2
    simp [hka, hkb]
  have hsub : (entries.filter (·.1 = key)).Sublist (ordered entries) :=
    List.sublist_mergeSort (fun a b c hab hbc => by simp only [decide_eq_true_eq] at *; omega)
      (fun a b => by simp only [Bool.or_eq_true, decide_eq_true_eq]; omega) hties List.filter_sublist
  have hfilter := hsub.filter (·.1 = key)
  rw [List.filter_filter] at hfilter
  simp only [Bool.and_self] at hfilter
  refine (hfilter.eq_of_length ?_).symm
  exact (((List.mergeSort_perm entries _).filter _).length_eq).symm

theorem bucket_push (entries : Entries T) (item : T) (priority key : ℤ) :
    bucket (entries ++ [(priority, item)]) key =
      if key = priority then bucket entries key ++ [item] else bucket entries key := by
  unfold bucket
  by_cases h : priority = key
  · simp [h]
  · simp [h, Ne.symm h]

theorem bucket_ne_nil {entries : Entries T} {key : ℤ} : bucket entries key ≠ [] ↔ key ∈ entries.map Prod.fst := by
  unfold bucket
  rw [Ne, List.map_eq_nil_iff, List.filter_eq_nil_iff, not_forall, List.mem_map]
  exact exists_congr fun e => by simp

theorem top_eq_some {entries : Entries T} {m : ℤ} :
    top entries = some m ↔ bucket entries m ≠ [] ∧ ∀ key, bucket entries key ≠ [] → key ≤ m := by
  unfold top
  rw [List.max?_eq_some_iff, bucket_ne_nil]
  exact and_congr_right fun _ => forall_congr' fun key => by rw [bucket_ne_nil]

theorem top_eq_none {entries : Entries T} : top entries = none ↔ entries = [] := by
  unfold top
  rw [List.max?_eq_none_iff, List.map_eq_nil_iff]

section Top

variable {entries : Entries T} {m : ℤ} {item : T} {later : List T}

theorem next_of_top (htop : top entries = some m) (hbucket : bucket entries m = item :: later) :
    next entries = some (m, item) := by
  unfold next
  rw [htop, Option.bind_some, ← List.head?_filter, filter_eq_map_bucket, hbucket]
  rfl

theorem bucket_eraseP (entries : Entries T) (m key : ℤ) :
    bucket (entries.eraseP (·.1 = m)) key = if key = m then (bucket entries key).tail else bucket entries key := by
  unfold bucket
  induction entries with
  | nil => split_ifs <;> rfl
  | cons e entries ih =>
    by_cases he : e.1 = m
    · rw [List.eraseP_cons_of_pos (by simpa using he)]
      by_cases hk : key = m
      · simp [hk, he]
      · have hne : ¬e.1 = key := fun h => hk (h.symm.trans he)
        simp [hk, hne]
    · rw [List.eraseP_cons_of_neg (by simpa using he)]
      by_cases hk : e.1 = key
      · have hne : ¬key = m := fun h => he (hk.trans h)
        rw [if_neg hne] at ih ⊢
        simp [hk, ih]
      · simp [hk, ih]

theorem bucket_rest (htop : top entries = some m) (key : ℤ) :
    bucket (rest entries) key = if key = m then (bucket entries key).tail else bucket entries key := by
  unfold rest
  rw [htop]
  exact bucket_eraseP entries m key

theorem length_rest (htop : top entries = some m) : (rest entries).length = entries.length - 1 := by
  obtain ⟨e, he, hm⟩ := List.mem_map.mp (bucket_ne_nil.mp (top_eq_some.mp htop).1)
  unfold rest
  rw [htop]
  exact List.length_eraseP_of_mem he (by simpa using hm)

theorem ordered_of_top (htop : top entries = some m) (hbucket : bucket entries m = item :: later) :
    ordered entries = (m, item) :: ordered (rest entries) := by
  have hle : ∀ e ∈ rest entries, e.1 ≤ m := by
    intro e he
    refine (top_eq_some.mp htop).2 e.1 (bucket_ne_nil.mpr ?_)
    unfold rest at he
    rw [htop] at he
    exact List.mem_map_of_mem (List.mem_of_mem_eraseP he)
  refine eq_of_sorted_of_filter (sorted_ordered entries) ?_ fun key => ?_
  · refine List.pairwise_cons.mpr ⟨fun e he => hle e ?_, sorted_ordered _⟩
    exact (List.mergeSort_perm _ _).mem_iff.mp he
  · rw [filter_ordered, filter_eq_map_bucket]
    by_cases hk : m = key
    · rw [List.filter_cons_of_pos (by simpa using hk), filter_ordered, filter_eq_map_bucket, bucket_rest htop,
        if_pos hk.symm, ← hk, hbucket]
      rfl
    · rw [List.filter_cons_of_neg (by simpa using hk), filter_ordered, filter_eq_map_bucket, bucket_rest htop,
        if_neg (Ne.symm hk)]

end Top

end Entries

theorem flatMap_ite {K β : Type} [DecidableEq K] {keys : List K} (hnodup : keys.Nodup) (key : K) (f : K → List β) :
    (keys.flatMap fun k => if k = key then f k else []) = if key ∈ keys then f key else [] := by
  induction keys with
  | nil => rfl
  | cons k keys ih =>
    obtain ⟨hk, hkeys⟩ := List.nodup_cons.mp hnodup
    rw [List.flatMap_cons, ih hkeys]
    by_cases h : k = key
    · subst h
      rw [if_pos rfl, if_neg hk, if_pos List.mem_cons_self, List.append_nil]
    · simp [h, Ne.symm h]

structure Refines (q : PriorityQueue T) (entries : Entries T) : Prop where
  simple : q.simple = bucket entries 0
  prioritized : ∀ key, q.prioritized.lookup key =
    if key = 0 ∨ bucket entries key = [] then none else some (bucket entries key)
  count : q.count = entries.length

theorem refines_new : Refines (new : PriorityQueue T) [] where
  simple := rfl
  prioritized key := by rw [if_pos (.inr rfl)]; exact Finmap.lookup_empty key
  count := rfl

namespace Refines

variable {q : PriorityQueue T} {entries : Entries T}

theorem push (h : Refines q entries) (item : T) (priority : ℤ) :
    Refines (q.push item priority) (entries ++ [(priority, item)]) := by
  have hcount : q.count + 1 = (entries ++ [(priority, item)]).length := by
    rw [h.count, List.length_append, List.length_singleton]
  unfold PriorityQueue.push
  split_ifs with hzero
  · subst hzero
    refine ⟨?_, fun key => ?_, hcount⟩
    · rw [bucket_push, if_pos rfl, ← h.simple]
    · rw [h.prioritized, bucket_push]
      by_cases hk : key = 0
      · rw [if_pos (.inl hk), if_pos (.inl hk)]
      · rw [if_neg hk]
  · refine ⟨?_, fun key => ?_, hcount⟩
    · rw [bucket_push, if_neg (Ne.symm hzero), ← h.simple]
    · rw [HashMap.lookup_pushEntry, bucket_push]
      by_cases hk : key = priority
      · subst hk
        rw [if_pos rfl, if_pos rfl, if_neg (by simp [hzero]), h.prioritized]
        by_cases hnil : bucket entries key = []
        · simp [hnil]
        · simp [hnil, hzero]
      · rw [if_neg hk, if_neg hk, h.prioritized]

theorem mem_keys (h : Refines q entries) {key : ℤ} : key ∈ q.keys ↔ key ≠ 0 ∧ bucket entries key ≠ [] := by
  unfold keys
  rw [Finset.mem_sort, Finmap.mem_keys, ← Finmap.lookup_isSome, h.prioritized]
  split_ifs with hk
  · simp only [Option.isSome_none, Bool.false_eq_true, false_iff]
    tauto
  · simpa [not_or] using hk

theorem getLast_keys (h : Refines q entries) {key : ℤ} :
    q.keys.getLast? = some key ↔ (key ≠ 0 ∧ bucket entries key ≠ []) ∧
      ∀ key', key' ≠ 0 ∧ bucket entries key' ≠ [] → key' ≤ key := by
  have hlast : ∀ {k}, q.keys.getLast? = some k → k ∈ q.keys ∧ ∀ k' ∈ q.keys, k' ≤ k := by
    intro k hk
    obtain ⟨l, hl⟩ := List.getLast?_eq_some_iff.mp hk
    have hsorted : q.keys.Pairwise (· ≤ ·) := Finset.pairwise_sort _ _
    rw [hl] at hsorted ⊢
    refine ⟨by simp, fun k' hk' => ?_⟩
    rcases List.mem_append.mp hk' with hk' | hk'
    · exact (List.pairwise_append.mp hsorted).2.2 k' hk' k List.mem_cons_self
    · exact (List.mem_singleton.mp hk').le
  simp only [← h.mem_keys]
  refine ⟨hlast, fun ⟨hmem, hmax⟩ => ?_⟩
  cases hk : q.keys.getLast? with
  | none => exact absurd (List.getLast?_eq_none_iff.mp hk) (List.ne_nil_of_mem hmem)
  | some k =>
    obtain ⟨hk, hle⟩ := hlast hk
    exact congrArg some (le_antisymm (hmax k hk) (hle key hmem))

theorem simple_eq_nil (h : Refines q entries) : q.simple = [] ↔ bucket entries 0 = [] := by
  rw [h.simple]

theorem pick_of_top (h : Refines q entries) {m : ℤ} (htop : top entries = some m) :
    q.pickBucket = if 0 < m then .positive m else if m = 0 then .simple else .negative m := by
  obtain ⟨hm, hmax⟩ := top_eq_some.mp htop
  unfold pickBucket
  rcases lt_trichotomy m 0 with hneg | rfl | hpos
  · have hlast : q.keys.getLast? = some m := h.getLast_keys.mpr ⟨⟨hneg.ne, hm⟩, fun key hkey => hmax key hkey.2⟩
    have hsimple : q.simple = [] := by
      rw [h.simple_eq_nil]
      by_contra hne
      exact absurd (hmax 0 hne) (not_le.mpr hneg)
    rw [hlast, Option.filter_some_neg (by simpa using hneg.le), if_neg (by simp [hsimple]), if_neg (by omega),
      if_neg hneg.ne]
  · have hnone : q.keys.getLast?.filter (0 < ·) = none := by
      rw [Option.filter_eq_none_iff]
      intro key hkey
      obtain ⟨⟨-, hkey⟩, -⟩ := h.getLast_keys.mp hkey
      simpa using hmax key hkey
    rw [hnone]
    dsimp only
    rw [if_pos (by rwa [Ne, h.simple_eq_nil]), if_neg (lt_irrefl 0), if_pos rfl]
  · have hlast : q.keys.getLast? = some m := h.getLast_keys.mpr ⟨⟨hpos.ne', hm⟩, fun key hkey => hmax key hkey.2⟩
    rw [hlast, Option.filter_some_pos (by simpa using hpos), if_pos hpos]

theorem pick_of_nil (h : Refines q []) : q.pickBucket = .empty := by
  have hlast : q.keys.getLast? = none := by
    rw [List.getLast?_eq_none_iff, List.eq_nil_iff_forall_not_mem]
    intro key hkey
    exact (h.mem_keys.mp hkey).2 rfl
  unfold pickBucket
  have hsimple : q.simple = [] := h.simple
  rw [hlast, hsimple]
  rfl

theorem popEntry_of_nil (h : Refines q []) : q.popEntry = (none, q) := by
  unfold popEntry
  rw [h.pick_of_nil]

theorem popBucket (h : Refines q entries) {m : ℤ} (hzero : m ≠ 0) (htop : top entries = some m) :
    (q.popBucket m).1 = (next entries).map Prod.swap ∧ Refines (q.popBucket m).2 (rest entries) := by
  obtain ⟨hm, -⟩ := top_eq_some.mp htop
  obtain ⟨item, later, hbucket⟩ := List.exists_cons_of_ne_nil hm
  have hlookup : q.prioritized.lookup m = some (item :: later) := by
    rw [h.prioritized, if_neg (by simp [hzero, hm]), hbucket]
  unfold PriorityQueue.popBucket
  rw [hlookup, next_of_top htop hbucket]
  refine ⟨rfl, ?_, fun key => ?_, ?_⟩
  · rw [bucket_rest htop, if_neg (Ne.symm hzero), ← h.simple]
  · rw [bucket_rest htop]
    by_cases hk : key = m
    · subst hk
      rw [if_pos rfl, hbucket]
      dsimp only
      by_cases hlater : (item :: later).tail = []
      · rw [if_pos hlater, if_pos (.inr hlater), Finmap.lookup_erase]
      · rw [if_neg hlater, if_neg (not_or.mpr ⟨hzero, hlater⟩), Finmap.lookup_insert]
    · rw [if_neg hk, ← h.prioritized]
      dsimp only
      split_ifs
      · rw [Finmap.lookup_erase_ne hk]
      · rw [Finmap.lookup_insert_of_ne _ hk]
  · rw [length_rest htop, ← h.count]
    rfl

theorem popSimple (h : Refines q entries) (htop : top entries = some 0) :
    q.popEntry.1 = (next entries).map Prod.swap ∧ Refines q.popEntry.2 (rest entries) := by
  obtain ⟨item, later, hbucket⟩ := List.exists_cons_of_ne_nil (top_eq_some.mp htop).1
  unfold popEntry
  rw [h.pick_of_top htop, if_neg (lt_irrefl 0), if_pos rfl, h.simple, hbucket, next_of_top htop hbucket]
  refine ⟨rfl, ?_, fun key => ?_, ?_⟩
  · rw [bucket_rest htop, if_pos rfl, hbucket]
  · rw [bucket_rest htop]
    by_cases hk : key = 0
    · rw [h.prioritized, if_pos (.inl hk), if_pos (.inl hk)]
    · rw [if_neg hk, h.prioritized]
  · rw [length_rest htop, ← h.count]
    rfl

theorem popEntry (h : Refines q entries) :
    q.popEntry.1 = (next entries).map Prod.swap ∧ Refines q.popEntry.2 (rest entries) := by
  cases htop : top entries with
  | none =>
    obtain rfl := top_eq_none.mp htop
    rw [h.popEntry_of_nil]
    exact ⟨rfl, h⟩
  | some m =>
    rcases lt_trichotomy m 0 with hneg | rfl | hpos
    · unfold PriorityQueue.popEntry
      rw [h.pick_of_top htop, if_neg (by omega), if_neg hneg.ne]
      exact h.popBucket hneg.ne htop
    · exact h.popSimple htop
    · unfold PriorityQueue.popEntry
      rw [h.pick_of_top htop, if_pos hpos]
      exact h.popBucket hpos.ne' htop

theorem peek (h : Refines q entries) : q.peek = (next entries).map Prod.swap := by
  unfold PriorityQueue.peek
  cases htop : top entries with
  | none =>
    obtain rfl := top_eq_none.mp htop
    rw [h.pick_of_nil]
    rfl
  | some m =>
    obtain ⟨hm, -⟩ := top_eq_some.mp htop
    obtain ⟨item, later, hbucket⟩ := List.exists_cons_of_ne_nil hm
    rw [h.pick_of_top htop, next_of_top htop hbucket]
    have hlookup (hzero : m ≠ 0) : q.prioritized.lookup m = some (item :: later) := by
      rw [h.prioritized, if_neg (by simp [hzero, hm]), hbucket]
    split_ifs with hpos hzero
    · dsimp only
      rw [hlookup hpos.ne']
      rfl
    · subst hzero
      dsimp only
      rw [h.simple, hbucket]
      rfl
    · dsimp only
      rw [hlookup hzero]
      rfl

theorem filter_items (h : Refines q entries) (key : ℤ) : q.items.filter (·.1 = key) = entries.filter (·.1 = key) := by
  have hone (k : ℤ) (b : List T) : (b.map (k, ·)).filter (·.1 = key) = if k = key then b.map (k, ·) else [] := by
    rw [List.filter_map]
    split_ifs with hk
    · simp [Function.comp_def, hk]
    · simp [Function.comp_def, hk]
  have hnodup : q.keys.Nodup := Finset.sort_nodup _ _
  unfold items
  rw [List.filter_append, List.filter_flatMap, hone, filter_eq_map_bucket, h.simple]
  simp only [hone]
  rw [flatMap_ite hnodup]
  by_cases hzero : key = 0
  · rw [if_neg fun hk => (h.mem_keys.mp hk).1 hzero, if_pos hzero.symm, hzero]
    rfl
  · rw [if_neg (Ne.symm hzero), List.append_nil]
    by_cases hnil : bucket entries key = []
    · rw [if_neg fun hk => (h.mem_keys.mp hk).2 hnil, hnil]
      rfl
    · rw [if_pos (h.mem_keys.mpr ⟨hzero, hnil⟩), h.prioritized, if_neg (by simp [hzero, hnil])]
      rfl

theorem intoIter (h : Refines q entries) : q.intoIter = ordered entries :=
  eq_of_sorted_of_filter (sorted_ordered q.items) (sorted_ordered entries) fun key => by
    rw [filter_ordered entries, ← h.filter_items]
    exact filter_ordered q.items key

theorem pops (h : Refines q entries) (n : ℕ) :
    pops n q = (List.range n).map fun i => (ordered entries)[i]?.map Prod.swap := by
  induction n generalizing q entries with
  | zero => rfl
  | succ n ih =>
    obtain ⟨hitem, hrest⟩ := h.popEntry
    rw [PriorityQueue.pops, hitem, ih hrest, List.range_succ_eq_map, List.map_cons, List.map_map]
    cases htop : top entries with
    | none =>
      obtain rfl := top_eq_none.mp htop
      simp [ordered, next, rest, top, Function.comp_def]
    | some m =>
      obtain ⟨item, later, hbucket⟩ := List.exists_cons_of_ne_nil (top_eq_some.mp htop).1
      rw [next_of_top htop hbucket, ordered_of_top htop hbucket]
      rfl

theorem step (h : Refines q entries) (op : Op T) : Refines (q.step op) (queued entries op) := by
  cases op with
  | push item priority => exact h.push item priority
  | pop => exact h.popEntry.2

end Refines

theorem refines_run (ops : List (Op T)) : Refines (ops.foldl step new) (ops.foldl queued []) := by
  induction ops using List.reverseRecOn with
  | nil => exact refines_new
  | append_singleton ops op ih =>
    rw [List.foldl_append, List.foldl_append]
    exact ih.step op

theorem priority_list_refined (ops : List (Op T)) :
    let q := ops.foldl step new
    let entries := ops.foldl queued []
    q.pop.1 = (next entries).map Prod.snd ∧ q.peek = q.popEntry.1 ∧ q.len = entries.length ∧
      (∀ n, pops n q = (List.range n).map fun i => q.drain.1[i]?.map Prod.swap) ∧
      q.drain.1.length = q.len ∧ q.intoIter = q.drain.1 ∧ q.drain.2 = new ∧ q.drain.2.len = 0 := by
  intro q entries
  have h : Refines q entries := refines_run ops
  obtain ⟨hitem, -⟩ := h.popEntry
  refine ⟨?_, ?_, h.count, fun n => ?_, ?_, rfl, rfl, rfl⟩
  · unfold pop
    rw [hitem, Option.map_map]
    rfl
  · rw [h.peek, hitem]
  · rw [h.pops n]
    unfold drain
    rw [h.intoIter]
  · unfold drain len
    rw [h.intoIter, h.count]
    exact List.length_mergeSort _

end PriorityQueue

end Fluent.Concurrency
