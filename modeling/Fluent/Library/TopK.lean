import Mathlib.Data.List.Basic
import Mathlib.Data.List.Perm.Basic
import Mathlib.Order.Lattice.Nat
import Mathlib.Order.OrderDual

namespace Fluent.Library

variable {α β S T : Type*} [LE S] [LE T]

structure TopK (key : α → S) (k : ℕ) (pool l : List α) : Prop where
  exists_rest : ∃ rest, (l ++ rest).Perm pool ∧ ∀ a ∈ l, ∀ b ∈ rest, key b ≤ key a
  length : l.length = min k pool.length
  sorted : l.Pairwise fun a b => key b ≤ key a

variable {key : α → S} {k : ℕ} {pool l : List α}

theorem TopK.mem (h : TopK key k pool l) {a : α} (ha : a ∈ l) : a ∈ pool := by
  obtain ⟨rest, hperm, -⟩ := h.exists_rest
  exact hperm.subset (List.mem_append_left rest ha)

theorem topK_nil_iff : TopK key k pool [] ↔ k = 0 ∨ pool = [] := by
  constructor
  · intro h
    have hlength := h.length
    rw [List.length_nil] at hlength
    obtain hk | hpool := Nat.min_eq_zero_iff.mp hlength.symm
    · exact Or.inl hk
    · exact Or.inr (List.length_eq_zero_iff.mp hpool)
  · intro h
    refine ⟨⟨pool, .rfl, by simp⟩, ?_, .nil⟩
    obtain rfl | rfl := h <;> simp

theorem TopK.map {key' : β → T} (f : α → β) (hf : ∀ a b, key b ≤ key a → key' (f b) ≤ key' (f a))
    (h : TopK key k pool l) : TopK key' k (pool.map f) (l.map f) := by
  obtain ⟨rest, hperm, hrest⟩ := h.exists_rest
  refine ⟨⟨rest.map f, ?_, ?_⟩, by simp [h.length], ?_⟩
  · rw [← List.map_append]
    exact hperm.map f
  · simp only [List.forall_mem_map]
    exact fun a ha b hb => hf a b (hrest a ha b hb)
  · exact List.pairwise_map.mpr (h.sorted.imp fun hab => hf _ _ hab)

theorem TopK.filter_iff (h : TopK key k pool l) (hnodup : pool.Nodup) (p : α → Bool) :
    TopK key k (pool.filter p) (l.filter p) ↔
      (∀ a ∈ l, p a = true) ∨ ∀ a ∈ pool, p a = true → a ∈ l := by
  obtain ⟨rest, hperm, hrest⟩ := h.exists_rest
  have hfilter : (l.filter p ++ rest.filter p).Perm (pool.filter p) := by
    rw [← List.filter_append]
    exact hperm.filter p
  have hlength := h.length
  have htotal := hperm.length_eq
  have hkept := hfilter.length_eq
  rw [List.length_append] at htotal hkept
  constructor
  · intro htop
    have hcut := htop.length
    by_cases hnone : rest.filter p = []
    · refine Or.inr fun a ha hpa => ?_
      obtain hl | hr := List.mem_append.mp (hperm.mem_iff.mpr ha)
      · exact hl
      · have hmem : a ∈ rest.filter p := List.mem_filter.mpr ⟨hr, hpa⟩
        rw [hnone] at hmem
        cases hmem
    · refine Or.inl (List.length_filter_eq_length_iff.mp ?_)
      have hpos := List.length_pos_of_ne_nil hnone
      have hle := List.length_filter_le p l
      omega
  · intro hor
    refine ⟨⟨rest.filter p, hfilter, fun a ha b hb => ?_⟩, ?_, h.sorted.filter p⟩
    · exact hrest a (List.mem_filter.mp ha).1 b (List.mem_filter.mp hb).1
    · have hle := List.length_filter_le p l
      obtain hall | hin := hor
      · rw [List.length_filter_eq_length_iff.mpr hall] at hkept ⊢
        have hrestle := List.length_filter_le p rest
        omega
      · have hnone : rest.filter p = [] := by
          refine List.filter_eq_nil_iff.mpr fun a ha hpa => ?_
          have hdisjoint := List.disjoint_of_nodup_append (hperm.nodup_iff.mpr hnodup)
          exact hdisjoint (hin a (hperm.subset (List.mem_append_right l ha)) hpa) ha
        rw [hnone, List.length_nil] at hkept
        omega

end Fluent.Library
