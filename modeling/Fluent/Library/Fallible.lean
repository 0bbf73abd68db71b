import Mathlib.Order.Lattice
import Mathlib.Data.List.Basic
import Mathlib.Data.List.Forall2

namespace Fluent.Library

variable {α β ε S D : Type*}

def collect (f : α → Except ε (List β)) : List α → Except ε (List β)
  | [] => .ok []
  | a :: as =>
    match f a with
    | .error e => .error e
    | .ok bs =>
      match collect f as with
      | .error e => .error e
      | .ok rest => .ok (bs ++ rest)

theorem collect_error {f : α → Except ε (List β)} {as : List α} {e : ε} (h : collect f as = .error e) :
    ∃ a ∈ as, f a = .error e := by
  induction as with
  | nil => simp [collect] at h
  | cons a as ih =>
    cases ha : f a with
    | error e' =>
      simp only [collect, ha] at h
      exact ⟨a, List.mem_cons_self, ha.trans h⟩
    | ok bs =>
      cases hr : collect f as with
      | error e' =>
        simp only [collect, ha, hr] at h
        obtain ⟨a', ha', he⟩ := ih (hr.trans h)
        exact ⟨a', List.mem_cons_of_mem a ha', he⟩
      | ok rest => simp [collect, ha, hr] at h

theorem collect_ok {f : α → Except ε (List β)} {as : List α} {ys : List β} (h : collect f as = .ok ys) :
    (∀ a ∈ as, ∃ bs, f a = .ok bs) ∧ ∀ y, y ∈ ys ↔ ∃ a ∈ as, ∃ bs, f a = .ok bs ∧ y ∈ bs := by
  induction as generalizing ys with
  | nil =>
    obtain rfl : [] = ys := Except.ok.inj h
    simp
  | cons a as ih =>
    cases ha : f a with
    | error e => simp [collect, ha] at h
    | ok bs =>
      cases hr : collect f as with
      | error e => simp [collect, ha, hr] at h
      | ok rest =>
        obtain rfl : bs ++ rest = ys := by simpa [collect, ha, hr] using h
        obtain ⟨hall, hmem⟩ := ih hr
        refine ⟨List.forall_mem_cons.mpr ⟨⟨bs, ha⟩, hall⟩, fun y => ?_⟩
        rw [List.mem_append, hmem, List.exists_mem_cons_iff]
        apply or_congr_left
        constructor
        · intro hy
          exact ⟨bs, ha, hy⟩
        · rintro ⟨bs', hb, hy⟩
          rwa [Except.ok.inj (ha.symm.trans hb)]

theorem exists_collect_ok_iff {f : α → Except ε (List β)} {as : List α} :
    (∃ ys, collect f as = .ok ys) ↔ ∀ a ∈ as, ∃ bs, f a = .ok bs := by
  constructor
  · rintro ⟨ys, h⟩
    exact (collect_ok h).1
  · intro h
    cases hc : collect f as with
    | ok ys => exact ⟨ys, rfl⟩
    | error e =>
      obtain ⟨a, ha, he⟩ := collect_error hc
      obtain ⟨bs, hb⟩ := h a ha
      rw [he] at hb
      exact absurd hb (by simp)

theorem foldlM_rel {step : S → D → Except ε S} {R : S → S → Prop} (hrefl : ∀ s, R s s)
    (htrans : ∀ s t u, R s t → R t u → R s u) (hstep : ∀ s d s', step s d = .ok s' → R s s')
    {ds : List D} {s s' : S} (h : ds.foldlM step s = .ok s') : R s s' := by
  induction ds generalizing s with
  | nil =>
    obtain rfl : s = s' := Except.ok.inj h
    exact hrefl s
  | cons d ds ih =>
    rw [List.foldlM_cons] at h
    cases hd : step s d with
    | error e =>
      rw [hd] at h
      simp [bind, Except.bind] at h
    | ok t =>
      rw [hd] at h
      exact htrans s t s' (hstep s d t hd) (ih h)

theorem forall₂_mem_left {R : α → β → Prop} {l : List α} {r : List β} (h : List.Forall₂ R l r) {a : α} (ha : a ∈ l) :
    ∃ b ∈ r, R a b := by
  induction h with
  | nil => cases ha
  | cons hab _ ih =>
    rcases List.mem_cons.mp ha with rfl | ha
    · exact ⟨_, List.mem_cons_self, hab⟩
    · obtain ⟨b, hb, hR⟩ := ih ha
      exact ⟨b, List.mem_cons_of_mem _ hb, hR⟩

theorem forall₂_mem_right {R : α → β → Prop} {l : List α} {r : List β} (h : List.Forall₂ R l r) {b : β} (hb : b ∈ r) :
    ∃ a ∈ l, R a b := forall₂_mem_left h.flip hb

theorem not_exists_error_ok {e : ε} : ¬∃ a : α, (.error e : Except ε α) = .ok a := by
  rintro ⟨a, h⟩
  cases h

section Bind

universe u

variable {A B : Type u}

theorem bind_ok {x : Except ε A} {f : A → Except ε B} {b : B} (h : (x >>= f) = .ok b) :
    ∃ a, x = .ok a ∧ f a = .ok b := by
  cases x with
  | error e => simp [bind, Except.bind] at h
  | ok a => exact ⟨a, rfl, h⟩

theorem mapM_ok {α : Type*} {β : Type u} {f : α → Except ε β} {l : List α} {r : List β} (h : l.mapM f = .ok r) :
    List.Forall₂ (fun a b => f a = .ok b) l r := by
  induction l generalizing r with
  | nil =>
    obtain rfl : [] = r := Except.ok.inj h
    exact .nil
  | cons a l ih =>
    rw [List.mapM_cons] at h
    obtain ⟨b, hb, h⟩ := bind_ok h
    obtain ⟨bs, hbs, h⟩ := bind_ok h
    obtain rfl : b :: bs = r := Except.ok.inj h
    exact .cons hb (ih hbs)

theorem exists_mapM_ok_iff {α : Type*} {β : Type u} {f : α → Except ε β} {l : List α} :
    (∃ r, l.mapM f = .ok r) ↔ ∀ a ∈ l, ∃ b, f a = .ok b := by
  induction l with
  | nil => exact ⟨fun _ => List.forall_mem_nil _, fun _ => ⟨[], rfl⟩⟩
  | cons a l ih =>
    rw [List.forall_mem_cons, ← ih]
    constructor
    · rintro ⟨r, h⟩
      rw [List.mapM_cons] at h
      obtain ⟨b, hb, h⟩ := bind_ok h
      obtain ⟨bs, hbs, -⟩ := bind_ok h
      exact ⟨⟨b, hb⟩, bs, hbs⟩
    · rintro ⟨⟨b, hb⟩, bs, hbs⟩
      refine ⟨b :: bs, ?_⟩
      rw [List.mapM_cons, hb]
      change (List.mapM f l >>= fun bs => pure (b :: bs)) = _
      rw [hbs]
      rfl

theorem toOption_bind {x x' : Except ε A} {f f' : A → Except ε B} (h : x.toOption = x'.toOption)
    (hf : ∀ a, (f a).toOption = (f' a).toOption) : (x >>= f).toOption = (x' >>= f').toOption := by
  cases x with
  | error e =>
    cases x' with
    | error e' => rfl
    | ok a' => simp [Except.toOption] at h
  | ok a =>
    cases x' with
    | error e' => simp [Except.toOption] at h
    | ok a' =>
      obtain rfl : a = a' := by simpa [Except.toOption] using h
      exact hf a

end Bind

theorem toOption_ok {x x' : Except ε α} (h : x.toOption = x'.toOption) {a : α} (hx : x = .ok a) :
    x' = .ok a := by
  subst hx
  cases x' with
  | error e => simp [Except.toOption] at h
  | ok a' => simpa [Except.toOption] using h.symm

theorem toOption_error {x x' : Except ε α} (h : x.toOption = x'.toOption) {e : ε} (hx : x = .error e) :
    ∃ e', x' = .error e' := by
  subst hx
  cases x' with
  | error e' => exact ⟨e', rfl⟩
  | ok a' => simp [Except.toOption] at h

section Joining

variable [SemilatticeSup S]

theorem foldl_sup_le_iff (eff : D → S) (ds : List D) (s b : S) :
    ds.foldl (fun s d => s ⊔ eff d) s ≤ b ↔ s ≤ b ∧ ∀ d ∈ ds, eff d ≤ b := by
  induction ds generalizing s with
  | nil => simp
  | cons d ds ih => rw [List.foldl_cons, ih, sup_le_iff, List.forall_mem_cons, and_assoc]

theorem foldl_sup_congr (eff : D → S) {ds ds' : List D} (h : ∀ d, d ∈ ds ↔ d ∈ ds') (s : S) :
    ds.foldl (fun s d => s ⊔ eff d) s = ds'.foldl (fun s d => s ⊔ eff d) s := by
  apply eq_of_forall_ge_iff
  intro b
  rw [foldl_sup_le_iff, foldl_sup_le_iff]
  simp only [h]

theorem foldlM_join {step : S → D → Except ε S} {Inv : S → Prop} {fails : D → Prop} {eff : D → S}
    (hfail : ∀ s d, Inv s → fails d → ∃ e, step s d = .error e)
    (hok : ∀ s d, Inv s → ¬fails d → step s d = .ok (s ⊔ eff d) ∧ Inv (s ⊔ eff d))
    (ds : List D) {s : S} (hs : Inv s) :
    (∃ e, ds.foldlM step s = .error e) ∧ (∃ d ∈ ds, fails d) ∨
      ds.foldlM step s = .ok (ds.foldl (fun s d => s ⊔ eff d) s) ∧ (∀ d ∈ ds, ¬fails d) ∧
        Inv (ds.foldl (fun s d => s ⊔ eff d) s) := by
  induction ds generalizing s with
  | nil => exact Or.inr ⟨rfl, by simp, hs⟩
  | cons d ds ih =>
    rw [List.foldlM_cons, List.foldl_cons]
    by_cases hd : fails d
    · obtain ⟨e, he⟩ := hfail s d hs hd
      exact Or.inl ⟨⟨e, by rw [he]; rfl⟩, d, List.mem_cons_self, hd⟩
    · obtain ⟨hstep, hinv⟩ := hok s d hs hd
      rw [hstep]
      rcases ih hinv with ⟨he, d', hd', hf⟩ | ⟨hr, hall, hi⟩
      · exact Or.inl ⟨he, d', List.mem_cons_of_mem d hd', hf⟩
      · exact Or.inr ⟨hr, List.forall_mem_cons.mpr ⟨hd, hall⟩, hi⟩

end Joining

end Fluent.Library
