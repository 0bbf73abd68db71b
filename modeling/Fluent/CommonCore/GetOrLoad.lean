import Fluent.CommonCore.LoadCache

namespace Fluent.CommonCore.LoadCache

variable {K V E : Type*} [DecidableEq K] {c : LoadCache K V} {k : K} {v : V} {load : K → Except E V} {r : List K}

def getOrLoad (load : K → Except E V) (c : LoadCache K V) (k : K) : Except E V × LoadCache K V :=
  match c.get k with
  | (some v, c) => (.ok v, c)
  | (none, c) =>
    match load k with
    | .ok v => (.ok v, c.insert k v)
    | .error e => (.error e, c)

def touch (load : K → Except E V) (r : List K) (k : K) : List K := if (load k).isOk then k :: r.erase k else r

structure Recent (load : K → Except E V) (n : ℕ) (r : List K) (c : LoadCache K V) : Prop where
  capacity : c.capacity = n + 1
  keys : c.entries.keys = r.take (n + 1)
  loaded : ∀ k v, c.lookup k = some v → load k = .ok v

theorem take_erase_take (k : K) (r : List K) (n : ℕ) : ((r.take (n + 1)).erase k).take n = (r.erase k).take n := by
  induction r generalizing n with
  | nil => rfl
  | cons a r ih =>
    rw [List.take_succ_cons]
    by_cases ha : a = k
    · rw [ha, List.erase_cons_head, List.erase_cons_head, List.take_take, min_self]
    · rw [List.erase_cons_tail (by simpa using ha), List.erase_cons_tail (by simpa using ha)]
      cases n with
      | zero => rfl
      | succ n => rw [List.take_succ_cons, List.take_succ_cons, ih]

theorem Recent.insert {n : ℕ} (h : Recent load n r c) (hload : load k = .ok v) :
    Recent load n (k :: r.erase k) (c.insert k v) where
  capacity := h.capacity
  keys := by
    change ((c.entries.insert k v).entries.take c.capacity).keys = _
    rw [h.capacity, List.keys, List.map_take, entries_insert, List.map_cons]
    change (k :: (c.entries.entries.kerase k).keys).take (n + 1) = _
    rw [List.keys_kerase, show c.entries.entries.keys = _ from h.keys, List.take_succ_cons, take_erase_take]
    rfl
  loaded x w hx := by
    by_cases hxk : x = k
    · subst hxk
      cases (lookup_insert_self c x v).symm.trans hx
      exact hload
    · exact h.loaded x w (lookup_of_lookup_insert hxk hx)

theorem Recent.getOrLoad {n : ℕ} (h : Recent load n r c) (k : K) :
    (c.getOrLoad load k).1 = load k ∧ Recent load n (touch load r k) (c.getOrLoad load k).2 := by
  rw [LoadCache.getOrLoad, get, touch]
  cases hlookup : c.lookup k with
  | some v =>
    have hload := h.loaded k v hlookup
    rw [hload]
    exact ⟨rfl, h.insert hload⟩
  | none =>
    dsimp only
    cases hload : load k with
    | ok v => exact ⟨rfl, h.insert hload⟩
    | error e => exact ⟨rfl, h⟩

theorem Recent.run {n : ℕ} (ks : List K) (h : Recent load n r c) :
    Recent load n (ks.foldl (touch load) r) (ks.foldl (fun c k => (c.getOrLoad load k).2) c) := by
  induction ks generalizing r c with
  | nil => exact h
  | cons k ks ih => exact ih (h.getOrLoad k).2

theorem get_or_load_exact (load : K → Except E V) (n : ℕ) (ks : List K) :
    let c := ks.foldl (fun c k => (c.getOrLoad load k).2) (new (n + 1) n.succ_pos)
    (∀ k, (c.getOrLoad load k).1 = load k) ∧ (∀ k v, c.lookup k = some v → load k = .ok v) ∧
      c.entries.keys = (ks.foldl (touch load) []).take (n + 1) := by
  intro c
  have h : Recent load n (ks.foldl (touch load) []) c :=
    Recent.run ks ⟨rfl, rfl, fun k v hk => nomatch (lookup_new _ _ k).symm.trans hk⟩
  exact ⟨fun k => (h.getOrLoad k).1, h.loaded, h.keys⟩

end Fluent.CommonCore.LoadCache
