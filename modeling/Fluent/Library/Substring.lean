import Mathlib.Data.List.Basic
import Mathlib.Data.List.Infix

namespace Fluent.Library

variable {α β : Type*}

def StandsAt (w s : List α) (i : ℕ) : Prop := w <+: s.drop i

theorem StandsAt.append {w s : List α} {i : ℕ} (h : StandsAt w s i) (hi : i ≤ s.length) (u : List α) :
    StandsAt w (s ++ u) i := by
  rw [StandsAt, List.drop_append_of_le_length hi]
  exact h.trans (List.prefix_append _ _)

theorem StandsAt.length_le {w s : List α} {i : ℕ} (h : StandsAt w s i) (hi : i ≤ s.length) :
    i + w.length ≤ s.length := by
  have hle := List.IsPrefix.length_le h
  rw [List.length_drop] at hle
  omega

theorem StandsAt.of_append {w s u : List α} {i : ℕ} (h : StandsAt w (s ++ u) i) (hi : i ≤ s.length) :
    StandsAt w s i ∨ s.drop i <+: w ∧ s.length < i + w.length := by
  rw [StandsAt, List.drop_append_of_le_length hi] at h
  by_cases hlen : i + w.length ≤ s.length
  · left
    refine List.prefix_of_prefix_length_le h (List.prefix_append _ _) ?_
    rw [List.length_drop]
    omega
  · right
    refine ⟨List.prefix_of_prefix_length_le (List.prefix_append _ _) h ?_, by omega⟩
    rw [List.length_drop]
    omega

theorem StandsAt.getElem? {w s : List α} {i k : ℕ} (h : StandsAt w s i) (hk : k < w.length) :
    s[i + k]? = w[k]? := by
  obtain ⟨u, hu⟩ := h
  rw [← List.getElem?_drop, ← hu, List.getElem?_append_left hk]

variable [DecidableEq α]

def find (w : List α) : List α → Option ℕ
  | [] => if w = [] then some 0 else none
  | c :: s => if w <+: c :: s then some 0 else (find w s).map (· + 1)

theorem find_eq_none {w s : List α} : find w s = none ↔ ∀ i, ¬StandsAt w s i := by
  induction s with
  | nil => simp [find, StandsAt]
  | cons c s ih =>
    rw [find]
    split
    · next h =>
      constructor
      · rintro ⟨⟩
      · intro hno
        exact absurd h (hno 0)
    · next h =>
      rw [Option.map_eq_none_iff, ih]
      constructor
      · intro hno i
        cases i with
        | zero => exact h
        | succ i => exact hno i
      · intro hno i
        exact hno (i + 1)

theorem find_spec {w s : List α} {i : ℕ} (h : find w s = some i) :
    StandsAt w s i ∧ i ≤ s.length ∧ ∀ j < i, ¬StandsAt w s j := by
  induction s generalizing i with
  | nil =>
    rw [find] at h
    split at h
    · next hw =>
      obtain rfl := Option.some.inj h
      exact ⟨by simp [StandsAt, hw], Nat.zero_le _, fun j hj => absurd hj (Nat.not_lt_zero j)⟩
    · cases h
  | cons c s ih =>
    rw [find] at h
    split at h
    · next hw =>
      obtain rfl := Option.some.inj h
      exact ⟨hw, Nat.zero_le _, fun j hj => absurd hj (Nat.not_lt_zero j)⟩
    · next hw =>
      obtain ⟨k, hk, rfl⟩ := Option.map_eq_some_iff.mp h
      obtain ⟨hat, hle, hno⟩ := ih hk
      refine ⟨hat, Nat.succ_le_succ hle, fun j hj => ?_⟩
      cases j with
      | zero => exact hw
      | succ j => exact hno j (Nat.lt_of_succ_lt_succ hj)

theorem find_eq_some_of_first {w s : List α} {i : ℕ} (h : StandsAt w s i) (hno : ∀ j < i, ¬StandsAt w s j) :
    find w s = some i := by
  cases hfind : find w s with
  | none => exact absurd h (find_eq_none.mp hfind i)
  | some k =>
    obtain ⟨hat, -, hbefore⟩ := find_spec hfind
    have hle : k ≤ i := by
      by_contra hlt
      exact hbefore i (Nat.lt_of_not_le hlt) h
    have hge : i ≤ k := by
      by_contra hlt
      exact hno k (Nat.lt_of_not_le hlt) hat
    rw [Nat.le_antisymm hle hge]

theorem find_append {w : List α} (pre s : List α) (h : ∀ j < pre.length, ¬StandsAt w (pre ++ s) j) :
    find w (pre ++ s) = (find w s).map (pre.length + ·) := by
  induction pre with
  | nil => simp
  | cons c pre ih =>
    have hhead : ¬w <+: c :: (pre ++ s) := h 0 (by simp)
    have htail : ∀ j < pre.length, ¬StandsAt w (pre ++ s) j := by
      intro j hj
      exact h (j + 1) (by simpa using hj)
    rw [List.cons_append, find, if_neg hhead, ih htail, Option.map_map]
    congr 1
    funext k
    simp only [Function.comp_apply, List.length_cons]
    omega

def earliest (key : β → List α) (items : List β) (s : List α) : Option (ℕ × β) :=
  items.foldl (fun best item =>
    (find (key item) s).elim best fun pos => if best.all fun b => pos < b.1 then some (pos, item) else best) none

section Earliest

variable {key : β → List α} {s : List α}

structure Leads (key : β → List α) (seen : List β) (s : List α) (best : Option (ℕ × β)) : Prop where
  stands : ∀ b ∈ best, b.2 ∈ seen ∧ StandsAt (key b.2) s b.1 ∧ b.1 ≤ s.length
  first : ∀ item ∈ seen, ∀ i, StandsAt (key item) s i → ∃ b ∈ best, b.1 ≤ i

theorem Leads.step {seen : List β} {best : Option (ℕ × β)} (h : Leads key seen s best) (item : β) :
    Leads key (seen ++ [item]) s ((find (key item) s).elim best fun pos =>
      if best.all fun b => pos < b.1 then some (pos, item) else best) := by
  cases hfind : find (key item) s with
  | none =>
    refine ⟨fun b hb => ?_, fun x hx i hi => ?_⟩
    · obtain ⟨hmem, hrest⟩ := h.stands b hb
      exact ⟨List.mem_append_left _ hmem, hrest⟩
    · rcases List.mem_append.mp hx with hx | hx
      · exact h.first x hx i hi
      · rw [List.mem_singleton.mp hx] at hi
        exact absurd hi (find_eq_none.mp hfind i)
  | some pos =>
    obtain ⟨hat, hle, hno⟩ := find_spec hfind
    have hnew : ∀ i, StandsAt (key item) s i → pos ≤ i := by
      intro i hi
      by_contra hlt
      exact hno i (Nat.lt_of_not_le hlt) hi
    rw [Option.elim_some]
    split
    · next hbest =>
      refine ⟨?_, fun x hx i hi => ?_⟩
      · rintro b ⟨⟩
        exact ⟨by simp, hat, hle⟩
      · refine ⟨(pos, item), rfl, ?_⟩
        rcases List.mem_append.mp hx with hx | hx
        · obtain ⟨b, hb, hbi⟩ := h.first x hx i hi
          rw [Option.mem_def] at hb
          rw [hb, Option.all_some, decide_eq_true_eq] at hbest
          exact (hbest.trans_le hbi).le
        · rw [List.mem_singleton.mp hx] at hi
          exact hnew i hi
    · next hbest =>
      refine ⟨fun b hb => ?_, fun x hx i hi => ?_⟩
      · obtain ⟨hmem, hrest⟩ := h.stands b hb
        exact ⟨List.mem_append_left _ hmem, hrest⟩
      · rcases List.mem_append.mp hx with hx | hx
        · exact h.first x hx i hi
        · rw [List.mem_singleton.mp hx] at hi
          cases best with
          | none => simp at hbest
          | some b =>
            rw [Option.all_some, decide_eq_true_eq] at hbest
            exact ⟨b, rfl, (Nat.le_of_not_lt hbest).trans (hnew i hi)⟩

theorem leads_earliest (key : β → List α) (items : List β) (s : List α) :
    Leads key items s (earliest key items s) := by
  suffices h : ∀ (rest seen : List β) (best : Option (ℕ × β)), Leads key seen s best →
      Leads key (seen ++ rest) s (rest.foldl (fun best item => (find (key item) s).elim best fun pos =>
        if best.all fun b => pos < b.1 then some (pos, item) else best) best) by
    exact h items [] none ⟨by simp, by simp⟩
  intro rest
  induction rest with
  | nil =>
    intro seen best h
    rw [List.append_nil]
    exact h
  | cons item rest ih =>
    intro seen best h
    rw [List.foldl_cons, List.append_cons]
    exact ih _ _ (h.step item)

theorem earliest_eq_none {items : List β} :
    earliest key items s = none ↔ ∀ item ∈ items, ∀ i, ¬StandsAt (key item) s i := by
  have hleads := leads_earliest key items s
  constructor
  · intro h item hitem i hi
    obtain ⟨b, hb, -⟩ := hleads.first item hitem i hi
    rw [h] at hb
    cases hb
  · intro h
    cases he : earliest key items s with
    | none => rfl
    | some b =>
      obtain ⟨hmem, hat, -⟩ := hleads.stands b he
      exact absurd hat (h b.2 hmem b.1)

theorem earliest_spec {items : List β} {i : ℕ} {item : β} (h : earliest key items s = some (i, item)) :
    item ∈ items ∧ StandsAt (key item) s i ∧ i ≤ s.length ∧
      ∀ x ∈ items, ∀ j < i, ¬StandsAt (key x) s j := by
  have hleads := leads_earliest key items s
  obtain ⟨hmem, hat, hle⟩ := hleads.stands _ h
  refine ⟨hmem, hat, hle, fun x hx j hj hstands => ?_⟩
  obtain ⟨b, hb, hbj⟩ := hleads.first x hx j hstands
  rw [h] at hb
  obtain rfl := Option.some.inj hb
  exact absurd hj (Nat.not_lt.mpr hbj)

theorem earliest_map {γ : Type*} (g : γ → β) (items : List γ) :
    earliest key (items.map g) s = (earliest (key ∘ g) items s).map fun r => (r.1, g r.2) := by
  suffices hfold : ∀ best : Option (ℕ × γ),
      (items.map g).foldl (fun best item => (find (key item) s).elim best fun pos =>
        if best.all fun b => pos < b.1 then some (pos, item) else best) (best.map fun r => (r.1, g r.2)) =
      (items.foldl (fun best item => (find ((key ∘ g) item) s).elim best fun pos =>
        if best.all fun b => pos < b.1 then some (pos, item) else best) best).map fun r => (r.1, g r.2) by
    exact hfold none
  induction items with
  | nil => exact fun _ => rfl
  | cons item items ih =>
    intro best
    rw [List.map_cons, List.foldl_cons, List.foldl_cons, ← ih]
    congr 1
    rw [Function.comp_apply]
    cases find (key (g item)) s with
    | none => rfl
    | some pos =>
      cases best with
      | none => rfl
      | some b =>
        simp only [Option.map_some, Option.elim_some, Option.all_some]
        split
        · rfl
        · rfl

theorem earliest_append {items : List β} (pre s : List α)
    (h : ∀ item ∈ items, ∀ j < pre.length, ¬StandsAt (key item) (pre ++ s) j) :
    earliest key items (pre ++ s) = (earliest key items s).map fun b => (pre.length + b.1, b.2) := by
  suffices hfold : ∀ best : Option (ℕ × β),
      items.foldl (fun best item => (find (key item) (pre ++ s)).elim best fun pos =>
        if best.all fun b => pos < b.1 then some (pos, item) else best)
          (best.map fun b => (pre.length + b.1, b.2)) =
      (items.foldl (fun best item => (find (key item) s).elim best fun pos =>
        if best.all fun b => pos < b.1 then some (pos, item) else best) best).map
          fun b => (pre.length + b.1, b.2) by
    exact hfold none
  induction items with
  | nil => exact fun _ => rfl
  | cons item items ih =>
    intro best
    rw [List.foldl_cons, List.foldl_cons, ← ih fun x hx => h x (List.mem_cons_of_mem _ hx),
      find_append pre s (h item List.mem_cons_self)]
    congr 1
    cases find (key item) s with
    | none => rfl
    | some pos =>
      cases best with
      | none => rfl
      | some b =>
        simp only [Option.map_some, Option.elim_some, Option.all_some, Nat.add_lt_add_iff_left]
        split
        · rfl
        · rfl

end Earliest

omit [DecidableEq α] in
theorem splitOnP_of_notMem [BEq α] [LawfulBEq α] {sep : α} {l : List α} (h : sep ∉ l) :
    l.splitOnP (· == sep) = [l] := by
  refine List.splitOnP_eq_singleton fun x hx => ?_
  rw [beq_eq_false_iff_ne]
  rintro rfl
  exact h hx

end Fluent.Library
