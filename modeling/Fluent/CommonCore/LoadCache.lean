import Mathlib.Data.List.AList
import Mathlib.Order.Lattice.Nat

namespace Fluent.CommonCore

structure LoadCache (K V : Type*) where
  capacity : ℕ
  nonzero : 0 < capacity
  entries : AList fun _ : K => V
  bounded : entries.entries.length ≤ capacity

namespace LoadCache

variable {K V : Type*} [DecidableEq K]

def new (capacity : ℕ) (nonzero : 0 < capacity) : LoadCache K V := ⟨capacity, nonzero, ∅, Nat.zero_le _⟩

def lookup (c : LoadCache K V) (k : K) : Option V := c.entries.lookup k

def insert (c : LoadCache K V) (k : K) (v : V) : LoadCache K V where
  capacity := c.capacity
  nonzero := c.nonzero
  entries := ⟨(c.entries.insert k v).entries.take c.capacity,
    (c.entries.insert k v).nodupKeys.sublist (List.take_sublist _ _)⟩
  bounded := List.length_take_le _ _

def get (c : LoadCache K V) (k : K) : Option V × LoadCache K V :=
  match c.lookup k with
  | some v => (some v, c.insert k v)
  | none => (none, c)

variable {c : LoadCache K V} {k x : K} {v w : V}

theorem lookup_new (capacity : ℕ) (nonzero : 0 < capacity) (k : K) :
    (new capacity nonzero : LoadCache K V).lookup k = none := AList.lookup_empty k

theorem entries_insert (c : LoadCache K V) (k : K) (v : V) :
    (c.entries.insert k v).entries = ⟨k, v⟩ :: c.entries.entries.kerase k := rfl

theorem length_entries_insert_le (c : LoadCache K V) (k : K) (v : V) :
    (c.entries.insert k v).entries.length ≤ c.entries.entries.length + 1 := by
  rw [entries_insert, List.length_cons]
  exact Nat.succ_le_succ (List.kerase_sublist _ _).length_le

theorem lookup_insert_self (c : LoadCache K V) (k : K) (v : V) : (c.insert k v).lookup k = some v := by
  change AList.lookup k _ = _
  rw [← Option.mem_def, AList.mem_lookup_iff]
  obtain ⟨n, hn⟩ := Nat.exists_eq_add_one.mpr c.nonzero
  change _ ∈ List.take c.capacity _
  rw [hn, entries_insert, List.take_succ_cons]
  exact List.mem_cons_self

theorem lookup_of_lookup_insert (hx : x ≠ k) (h : (c.insert k v).lookup x = some w) : c.lookup x = some w := by
  have hmem := AList.mem_lookup_iff.mp (Option.mem_def.mpr h)
  have hinsert : (c.entries.insert k v).lookup x = some w := AList.mem_lookup_iff.mpr (List.mem_of_mem_take hmem)
  rwa [AList.lookup_insert_ne hx] at hinsert

theorem length_insert_le (c : LoadCache K V) (k : K) (v : V) :
    (c.insert k v).entries.entries.length ≤ c.entries.entries.length + 1 := by
  exact (List.length_take_le' _ _).trans (length_entries_insert_le c k v)

theorem lookup_insert_of_room (h : c.entries.entries.length < c.capacity) (k x : K) (v : V) :
    (c.insert k v).lookup x = if x = k then some v else c.lookup x := by
  have hlength : (c.entries.insert k v).entries.length ≤ c.capacity :=
    (length_entries_insert_le c k v).trans (Nat.succ_le_of_lt h)
  have hwhole : (c.insert k v).entries = c.entries.insert k v := AList.ext (List.take_of_length_le hlength)
  rw [lookup, hwhole]
  split_ifs with hx
  · rw [hx, AList.lookup_insert]
  · rw [AList.lookup_insert_ne hx, lookup]

end LoadCache

end Fluent.CommonCore
