import Mathlib.Data.Finset.Basic
import Mathlib.Data.Finset.Max
import Mathlib.Data.Set.Finite.Basic
import Mathlib.Data.List.Lex
import Mathlib.Logic.Relation
import Mathlib.Order.WellFounded
import Mathlib.Order.Bounds.Basic

namespace Fluent.Library

section Positions

variable {α : Type*}

def Before (l : List α) (a b : α) : Prop := ∃ l₁ l₂, l = l₁ ++ b :: l₂ ∧ a ∈ l₁

theorem Before.mem_left {l : List α} {a b : α} (h : Before l a b) : a ∈ l := by
  obtain ⟨l₁, l₂, rfl, ha⟩ := h
  exact List.mem_append_left _ ha

theorem split_unique {l₁ l₂ m₁ m₂ : List α} {b : α} (hd : (l₁ ++ b :: l₂).Nodup)
    (h : l₁ ++ b :: l₂ = m₁ ++ b :: m₂) : l₁ = m₁ := by
  have hl : b ∉ l₁ := fun hb => (List.disjoint_of_nodup_append hd) hb (by simp)
  have hm : b ∉ m₁ := fun hb => (List.disjoint_of_nodup_append (h ▸ hd)) hb (by simp)
  induction l₁ generalizing m₁ with
  | nil =>
    cases m₁ with
    | nil => rfl
    | cons y m₁ => simp only [List.nil_append, List.cons_append, List.cons.injEq] at h; simp [h.1] at hm
  | cons x l₁ ih =>
    cases m₁ with
    | nil => simp only [List.nil_append, List.cons_append, List.cons.injEq] at h; simp [h.1] at hl
    | cons y m₁ =>
      simp only [List.cons_append, List.cons.injEq] at h
      rw [h.1, ih hd.tail h.2 (fun hb => hl (List.mem_cons_of_mem _ hb))
        (fun hb => hm (List.mem_cons_of_mem _ hb))]

theorem Before.trans {l : List α} {a b c : α} (hd : l.Nodup) (hab : Before l a b)
    (hbc : Before l b c) : Before l a c := by
  obtain ⟨l₁, l₂, hl, hb⟩ := hbc
  obtain ⟨m₁, m₂, hm, ha⟩ := hab
  obtain ⟨k₁, k₂, rfl⟩ := List.append_of_mem hb
  refine ⟨_, l₂, hl, List.mem_append_left _ ?_⟩
  have he : k₁ ++ b :: (k₂ ++ c :: l₂) = m₁ ++ b :: m₂ := by rw [← hm, hl]; simp
  rw [split_unique (by rw [he, ← hm]; exact hd) he]
  exact ha

theorem Before.irrefl {l : List α} {a : α} (hd : l.Nodup) : ¬Before l a a := by
  rintro ⟨l₁, l₂, rfl, ha⟩
  exact (List.disjoint_of_nodup_append hd) ha (by simp)

theorem Before.total {l : List α} {a b : α} (ha : a ∈ l) (hb : b ∈ l) (hne : a ≠ b) : Before l a b ∨ Before l b a := by
  obtain ⟨l₁, l₂, rfl⟩ := List.append_of_mem hb
  rcases List.mem_append.mp ha with ha | ha
  · exact .inl ⟨l₁, l₂, rfl, ha⟩
  · obtain ⟨m₁, m₂, rfl⟩ := List.append_of_mem ((List.mem_cons.mp ha).resolve_left hne)
    exact .inr ⟨l₁ ++ b :: m₁, m₂, by simp, by simp⟩

theorem Before.of_filter {l : List α} {p : α → Bool} {a b : α} (h : Before (l.filter p) a b) : Before l a b := by
  obtain ⟨l₁, l₂, hl, ha⟩ := h
  obtain ⟨m₁, m₂, rfl, hleft, hright⟩ := List.filter_eq_append_iff.mp hl
  obtain ⟨k₁, k₂, rfl, -, -, -⟩ := List.filter_eq_cons_iff.mp hright
  rw [← hleft] at ha
  exact ⟨m₁ ++ k₁, k₂, by simp, List.mem_append_left _ (List.mem_filter.mp ha).1⟩

end Positions

variable {α : Type*} (E : α → α → Prop) (N : Finset α)

structure Topological (l : List α) : Prop where
  nodup : l.Nodup
  mem_iff : ∀ x, x ∈ l ↔ x ∈ N
  respects : ∀ a b, E a b → Before l a b

def Available (done : List α) (x : α) : Prop := x ∈ N ∧ x ∉ done ∧ ∀ a, E a x → a ∈ done

inductive Greedy [LinearOrder α] : List α → List α → Prop
  | stop {done : List α} : (∀ x, ¬Available E N done x) → Greedy done []
  | take {done rest : List α} {x : α} : IsLeast {y | Available E N done y} x →
      Greedy (done ++ [x]) rest → Greedy done (x :: rest)

variable {E N}

theorem greedy_unique [LinearOrder α] {done l l' : List α} (h : Greedy E N done l)
    (h' : Greedy E N done l') : l = l' := by
  induction h generalizing l' with
  | stop hs =>
    cases h' with
    | stop _ => rfl
    | take hx _ => exact absurd hx.1 (hs _)
  | take hx _ ih =>
    cases h' with
    | stop hs => exact absurd hx.1 (hs _)
    | take hy hr => rw [hx.unique hy] at ih ⊢; rw [ih hr]

theorem greedy_congr_on [LinearOrder α] {E' : α → α → Prop} (he : ∀ a b, b ∈ N → (E a b ↔ E' a b))
    {done l : List α} (h : Greedy E N done l) : Greedy E' N done l := by
  have havailable : ∀ done x, Available E N done x ↔ Available E' N done x := fun done x =>
    and_congr_right fun hx => and_congr_right fun _ => forall_congr' fun a => by rw [he a x hx]
  induction h with
  | stop hs => exact .stop fun x hx => hs x ((havailable _ x).mpr hx)
  | take hx _ ih =>
    refine .take ?_ ih
    simpa only [havailable] using hx

theorem greedy_congr [LinearOrder α] {E' : α → α → Prop} (he : ∀ a b, E a b ↔ E' a b)
    {done l : List α} (h : Greedy E N done l) : Greedy E' N done l :=
  greedy_congr_on (fun a b _ => he a b) h

theorem Greedy.restrict [LinearOrder α] {S : Finset α} (hS : S ⊆ N) (hclosed : ∀ a b, E a b → b ∈ S → a ∈ S)
    {done l : List α} (h : Greedy E N done l) : Greedy E S (done.filter (· ∈ S)) (l.filter (· ∈ S)) := by
  have hinside {done : List α} {x : α} (hx : Available E S (done.filter (· ∈ S)) x) : Available E N done x :=
    ⟨hS hx.1, fun hd => hx.2.1 (List.mem_filter.mpr ⟨hd, decide_eq_true hx.1⟩),
      fun a ha => (List.mem_filter.mp (hx.2.2 a ha)).1⟩
  induction h with
  | stop hs => exact .stop fun x hx => hs x (hinside hx)
  | @take done rest x hx _ ih =>
    rw [List.filter_append] at ih
    by_cases hxS : x ∈ S
    · have hkept : [x].filter (· ∈ S) = [x] := by simp [hxS]
      rw [hkept] at ih
      rw [List.filter_cons_of_pos (by simpa using hxS)]
      refine .take ⟨⟨hxS, fun hd => hx.1.2.1 (List.mem_filter.mp hd).1, fun a ha => ?_⟩, fun y hy => hx.2 (hinside hy)⟩ ih
      exact List.mem_filter.mpr ⟨hx.1.2.2 a ha, decide_eq_true (hclosed a x ha hxS)⟩
    · have hleft : [x].filter (· ∈ S) = [] := by simp [hxS]
      rw [hleft, List.append_nil] at ih
      rwa [List.filter_cons_of_neg (by simpa using hxS)]

section

variable [LinearOrder α]

theorem Greedy.least {done l₁ l₂ : List α} {x : α} (h : Greedy E N done (l₁ ++ x :: l₂)) :
    IsLeast {y | Available E N (done ++ l₁) y} x := by
  induction l₁ generalizing done with
  | nil =>
    cases h with
    | take hx _ => simpa using hx
  | cons z l₁ ih =>
    cases h with
    | take _ hr => simpa using ih hr

theorem Greedy.exhausted {done l : List α} (h : Greedy E N done l) (x : α) :
    ¬Available E N (done ++ l) x := by
  induction h with
  | stop hs => simpa using hs x
  | take _ _ ih => simpa using ih

theorem Greedy.subset {done l : List α} (h : Greedy E N done l) {x : α} (hx : x ∈ l) : x ∈ N := by
  obtain ⟨l₁, l₂, rfl⟩ := List.append_of_mem hx
  exact h.least.1.1

theorem Greedy.nodup {done l : List α} (h : Greedy E N done l) (hd : done.Nodup) :
    (done ++ l).Nodup := by
  induction h with
  | stop _ => simpa using hd
  | take hx _ ih =>
    have := ih (List.nodup_append.mpr ⟨hd, by simp, by
      rintro a ha b hb rfl
      exact hx.1.2.1 (List.mem_singleton.mp hb ▸ ha)⟩)
    simpa using this

variable {l : List α}

theorem Greedy.source_before (h : Greedy E N [] l) {a b : α} (hb : b ∈ l)
    (he : E a b) : Before l a b := by
  obtain ⟨l₁, l₂, rfl⟩ := List.append_of_mem hb
  exact ⟨l₁, l₂, rfl, h.least.1.2.2 a he⟩

theorem Greedy.topological (h : Greedy E N [] l) (hc : ∀ x ∈ N, x ∈ l)
    (hE : ∀ a b, E a b → b ∈ N) : Topological E N l where
  nodup := by simpa using h.nodup List.nodup_nil
  mem_iff x := ⟨h.subset, hc x⟩
  respects a b he := h.source_before (hc b (hE a b he)) he

theorem Greedy.le_topological {done rest l : List α} (h : Greedy E N done rest)
    (hl : Topological E N (done ++ l)) : rest ≤ l := by
  induction h generalizing l with
  | stop hs => exact not_lt.mp (fun hlt => nomatch hlt)
  | @take done rest x hx hr ih =>
    cases l with
    | nil =>
      have hmem := (hl.mem_iff x).mpr hx.1.1
      rw [List.append_nil] at hmem
      exact absurd hmem hx.1.2.1
    | cons y l =>
      have hy : Available E N done y := by
        refine ⟨(hl.mem_iff y).mp (by simp), fun hd => ?_, fun a he => ?_⟩
        · exact (List.disjoint_of_nodup_append hl.nodup) hd (by simp)
        · obtain ⟨l₁, l₂, heq, ha⟩ := hl.respects a y he
          rw [split_unique hl.nodup heq]
          exact ha
      rcases (hx.2 hy).lt_or_eq with hlt | rfl
      · exact le_of_lt (List.Lex.rel hlt)
      · exact List.cons_le_cons x (ih (by simpa using hl))

theorem Greedy.isLeast (h : Greedy E N [] l) (hc : ∀ x ∈ N, x ∈ l)
    (hE : ∀ a b, E a b → b ∈ N) : IsLeast {l' | Topological E N l'} l :=
  ⟨h.topological hc hE, fun _ hl' => h.le_topological hl'⟩

theorem Greedy.left_out_iff (h : Greedy E N [] l)
    (hE : ∀ a b, E a b → a ∈ N ∧ b ∈ N) {n : α} (hn : n ∈ N) :
    n ∉ l ↔ ∃ c, Relation.TransGen E c c ∧ Relation.ReflTransGen E c n := by
  have hd : l.Nodup := by simpa using h.nodup List.nodup_nil
  constructor
  · intro hout
    have hback : ∀ m, m ∈ N → m ∉ l → ∃ p, E p m ∧ p ∈ N ∧ p ∉ l := by
      intro m hm hml
      by_contra hnone
      push Not at hnone
      apply h.exhausted m
      exact ⟨hm, by simpa using hml, fun a he => by simpa using hnone a he (hE a m he).1⟩
    by_contra hcyc
    push Not at hcyc
    let R := {m : α | m ∈ N ∧ m ∉ l ∧ Relation.ReflTransGen E m n}
    have hfin : R.Finite := N.finite_toSet.subset (fun m hm => hm.1)
    have : Finite R := hfin
    have : IsTrans R (fun a b => Relation.TransGen E a.1 b.1) :=
      ⟨fun a b c hab hbc => hab.trans hbc⟩
    have : Std.Irrefl (fun a b : R => Relation.TransGen E a.1 b.1) :=
      ⟨fun a haa => hcyc a.1 haa a.2.2.2⟩
    have hwf : WellFounded (fun a b : R => Relation.TransGen E a.1 b.1) :=
      Finite.wellFounded_of_trans_of_irrefl _
    obtain ⟨m, -, hmin⟩ := hwf.has_min Set.univ ⟨⟨n, hn, hout, .refl⟩, trivial⟩
    obtain ⟨p, hp, hpN, hpl⟩ := hback m.1 m.2.1 m.2.2.1
    exact hmin ⟨p, hpN, hpl, .head hp m.2.2.2⟩ trivial (.single hp)
  · rintro ⟨c, hcc, hcn⟩ hnl
    have hcl : c ∈ l := by
      clear hcc
      induction hcn using Relation.ReflTransGen.head_induction_on with
      | refl => exact hnl
      | head he _ ih => exact (h.source_before ih he).mem_left
    have hbefore : ∀ a b, Relation.TransGen E a b → b ∈ l → Before l a b := by
      intro a b hab hb
      induction hab using Relation.TransGen.head_induction_on with
      | single he => exact h.source_before hb he
      | head he _ ih => exact (h.source_before ih.mem_left he).trans hd ih
    exact Before.irrefl hd (hbefore c c hcc hcl)

theorem Greedy.covers_iff (h : Greedy E N [] l)
    (hE : ∀ a b, E a b → a ∈ N ∧ b ∈ N) :
    (∀ x ∈ N, x ∈ l) ↔ ∀ c, ¬Relation.TransGen E c c := by
  constructor
  · intro hc c hcc
    obtain ⟨d, hd, -⟩ := (Relation.TransGen.head'_iff).mp hcc
    have hcN := (hE c d hd).1
    exact (h.left_out_iff hE hcN).mpr ⟨c, hcc, .refl⟩ (hc c hcN)
  · intro ha x hx
    by_contra hout
    obtain ⟨c, hcc, -⟩ := (h.left_out_iff hE hx).mp hout
    exact ha c hcc

theorem Greedy.length_eq_iff (h : Greedy E N [] l) :
    l.length = N.card ↔ ∀ x ∈ N, x ∈ l := by
  have hd : l.Nodup := by simpa using h.nodup List.nodup_nil
  have hsub : l.toFinset ⊆ N := fun x hx => h.subset (List.mem_toFinset.mp hx)
  rw [← List.toFinset_card_of_nodup hd]
  constructor
  · intro hcard x hx
    rw [← Finset.eq_of_subset_of_card_le hsub hcard.ge] at hx
    exact List.mem_toFinset.mp hx
  · intro hc
    rw [Finset.Subset.antisymm hsub (fun x hx => List.mem_toFinset.mpr (hc x hx))]

/-- The precedences a greedy run cannot avoid: those the edges force, and those of a smaller
node all of whose own sources are forced to come first. -/
inductive Forced (E : α → α → Prop) (N : Finset α) : α → α → Prop
  | edge {a b : α} : E a b → Forced E N a b
  | trans {a b c : α} : Forced E N a b → Forced E N b c → Forced E N a c
  | smaller {a b : α} : a ∈ N → a < b → (∀ p, E p a → Forced E N p b) → Forced E N a b

theorem Greedy.forced_before (h : Greedy E N [] l) {a b : α}
    (hf : Forced E N a b) (hb : b ∈ l) : Before l a b := by
  have hd : l.Nodup := by simpa using h.nodup List.nodup_nil
  induction hf with
  | edge he => exact h.source_before hb he
  | trans _ _ ih₁ ih₂ => exact (ih₁ (ih₂ hb).mem_left).trans hd (ih₂ hb)
  | @smaller a b ha hlt _ ih =>
    obtain ⟨l₁, l₂, rfl⟩ := List.append_of_mem hb
    by_contra hnot
    have hal : a ∉ l₁ := fun hm => hnot ⟨l₁, l₂, rfl, hm⟩
    have hav : Available E N l₁ a := by
      refine ⟨ha, hal, fun p hp => ?_⟩
      obtain ⟨m₁, m₂, heq, hm⟩ := ih p hp hb
      rw [split_unique hd heq]
      exact hm
    have := h.least.2 (show Available E N ([] ++ l₁) a from hav)
    exact absurd hlt (not_lt.mpr this)

theorem Greedy.exists_waiting {k₁ k₂ : List α} {a b : α} (h : Greedy E N [] (k₁ ++ a :: k₂)) (hb : b ∈ k₂)
    (hlt : b < a) : ∃ q, E q b ∧ q ∉ k₁ := by
  have hd : (k₁ ++ a :: k₂).Nodup := by simpa using h.nodup List.nodup_nil
  have hleast : IsLeast {y | Available E N k₁ y} a := by simpa using h.least
  have hbl : b ∉ k₁ := fun hk => List.disjoint_of_nodup_append hd hk (List.mem_cons_of_mem a hb)
  have hbN : b ∈ N := h.subset (List.mem_append_right _ (List.mem_cons_of_mem a hb))
  by_contra hnone
  push Not at hnone
  exact absurd (hleast.2 ⟨hbN, hbl, hnone⟩) (not_le.mpr hlt)

theorem Greedy.before_forced (h : Greedy E N [] l) {a b : α}
    (hab : Before l a b) : Forced E N a b := by
  have hd : l.Nodup := by simpa using h.nodup List.nodup_nil
  suffices H : ∀ n, ∀ l₁ b l₂, l = l₁ ++ b :: l₂ → l₁.length = n → ∀ a ∈ l₁, Forced E N a b by
    obtain ⟨l₁, l₂, hl, ha⟩ := hab
    exact H _ l₁ b l₂ hl rfl a ha
  intro n
  induction n using Nat.strong_induction_on with
  | _ n ih =>
    intro l₁ b l₂ hl hn
    have inner : ∀ m, ∀ k₁ a k₂, l₁ = k₁ ++ a :: k₂ → k₁.length = m → Forced E N a b := by
      intro m
      induction m using Nat.strong_induction_on with
      | _ m ihm =>
        intro k₁ a k₂ hk hm
        have hl' : l = k₁ ++ a :: (k₂ ++ b :: l₂) := by rw [hl, hk]; simp
        have hleast : IsLeast {y | Available E N k₁ y} a := by
          have := h
          rw [hl'] at this
          simpa using this.least
        have hsources : ∀ p, E p a → Forced E N p b := by
          intro p hp
          obtain ⟨j₁, j₂, hj⟩ := List.append_of_mem (hleast.1.2.2 p hp)
          refine ihm j₁.length ?_ j₁ p (j₂ ++ a :: k₂) (by rw [hk, hj]; simp) rfl
          rw [← hm, hj]; simp
        rcases lt_trichotomy a b with hlt | heq | hgt
        · exact .smaller hleast.1.1 hlt hsources
        · have hb : Before l b b := ⟨l₁, l₂, hl, by rw [hk, heq]; simp⟩
          exact absurd hb (Before.irrefl hd)
        · obtain ⟨q, hq, hqk⟩ := Greedy.exists_waiting (hl' ▸ h) (by simp) hgt
          have hql : q ∈ l₁ := by
            have := h
            rw [hl] at this
            simpa using this.least.1.2.2 q hq
          by_cases hqa : q = a
          · exact .edge (hqa ▸ hq)
          · rw [hk] at hql
            have hqk₂ : q ∈ k₂ := by simpa [hqk, hqa] using hql
            obtain ⟨j₁, j₂, rfl⟩ := List.append_of_mem hqk₂
            have haq : Forced E N a q := by
              refine ih (k₁ ++ a :: j₁).length ?_ (k₁ ++ a :: j₁) q (j₂ ++ b :: l₂) ?_ rfl a (by simp)
              · rw [← hn, hk]; simp
              · rw [hl']; simp
            exact haq.trans (.edge hq)
    intro a ha
    obtain ⟨k₁, k₂, hk⟩ := List.append_of_mem ha
    exact inner _ k₁ a k₂ hk rfl

end

end Fluent.Library
