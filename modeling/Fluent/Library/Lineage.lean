import Mathlib.Data.Fintype.Card
import Mathlib.Data.Fintype.EquivFin
import Mathlib.Logic.Relation

namespace Fluent.Library

section Acyclic

theorem acyclic_induction {R : ℕ → ℕ → Prop} (hacyclic : ∀ i, ¬Relation.TransGen R i i) {n : ℕ}
    (hfin : ∀ j i, R j i → j < n) {P : ℕ → Prop} (h : ∀ i, (∀ j, R j i → P j) → P i) (i : ℕ) : P i := by
  let above (a b : Fin n) : Prop := Relation.TransGen R a b
  have : IsTrans (Fin n) above := ⟨fun _ _ _ => Relation.TransGen.trans⟩
  have : Std.Irrefl above := ⟨fun a => hacyclic a⟩
  have hwf : WellFounded above := Finite.wellFounded_of_trans_of_irrefl above
  have hlow : ∀ i : Fin n, P i := fun i => hwf.induction (C := fun i : Fin n => P i) i fun i ih =>
    h i fun j hj => ih ⟨j, hfin j i hj⟩ (.single hj)
  exact h i fun j hj => hlow ⟨j, hfin j i hj⟩

end Acyclic

/-! A forest as the function that takes everything to what is right above it, and a root to itself. -/

section Forest

variable (up : ℕ → ℕ)

def Below (d i : ℕ) : Prop := Relation.ReflTransGen (fun j k => up j = k) d i

def Child (j i : ℕ) : Prop := up j = i ∧ j ≠ i

def Acyclic : Prop := ∀ i, ¬Relation.TransGen (Child up) i i

def Projective : Prop := ∀ j k, up j ≠ j → (j < k ∧ k < up j ∨ up j < k ∧ k < j) → Below up k (up j)

variable {up}

theorem below_iff_eq_or {d i : ℕ} : Below up d i ↔ d = i ∨ Relation.TransGen (Child up) d i := by
  constructor
  · intro h
    induction h with
    | refl => exact .inl rfl
    | @tail j k _ hstep ih =>
      by_cases hjk : j = k
      · exact hjk ▸ ih
      · have hchild : Child up j k := ⟨hstep, hjk⟩
        rcases ih with rfl | ih
        · exact .inr (.single hchild)
        · exact .inr (ih.tail hchild)
  · rintro (rfl | h)
    · exact .refl
    · exact (Relation.TransGen.mono (fun _ _ h => h.1) _ _ h).to_reflTransGen

theorem Acyclic.antisymm (h : Acyclic up) {a b : ℕ} (hab : Below up a b) (hba : Below up b a) : a = b := by
  rcases below_iff_eq_or.mp hab with rfl | hab
  · rfl
  · rcases below_iff_eq_or.mp hba with rfl | hba
    · rfl
    · exact absurd (hab.trans hba) (h a)

theorem below_cases {d i : ℕ} : Below up d i ↔ d = i ∨ ∃ j, Child up j i ∧ Below up d j := by
  rw [below_iff_eq_or]
  refine or_congr_right ⟨fun h => ?_, ?_⟩
  · obtain ⟨j, hpath, hchild⟩ := Relation.TransGen.tail'_iff.mp h
    exact ⟨j, hchild, Relation.ReflTransGen.mono (fun _ _ h => h.1) _ _ hpath⟩
  · rintro ⟨j, hchild, hpath⟩
    rcases below_iff_eq_or.mp hpath with rfl | hpath
    · exact .single hchild
    · exact hpath.tail hchild

theorem Acyclic.child_unique (h : Acyclic up) {d i j j' : ℕ} (hj : Child up j i) (hj' : Child up j' i)
    (hd : Below up d j) (hd' : Below up d j') : j = j' := by
  have hone {a b : ℕ} (ha : Child up a i) (hb : Child up b i) (hab : Below up a b) : a = b := by
    rcases below_iff_eq_or.mp hab with rfl | hab
    · rfl
    · obtain ⟨c, hc, hcb⟩ := Relation.TransGen.head'_iff.mp hab
      obtain rfl : i = c := ha.1.symm.trans hc.1
      exact absurd (Relation.TransGen.tail' hcb hb) (h i)
  have hunique : Relator.RightUnique fun j k => up j = k := fun _ _ _ hb hc => hb.symm.trans hc
  rcases Relation.ReflTransGen.total_of_right_unique hunique hd hd' with hab | hba
  · exact hone hj hj' hab
  · exact (hone hj' hj hba).symm

section Rising

variable {n : ℕ} {r : ℕ → ℕ}

def Rise (up r : ℕ → ℕ) (j k : ℕ) : Prop := up j = k ∧ r j < r k

theorem rise_below {d q : ℕ} (h : Relation.ReflTransGen (Rise up r) d q) : Below up d q :=
  Relation.ReflTransGen.mono (fun _ _ h => h.1) _ _ h

theorem rise_passes {d p q : ℕ} (h : Relation.ReflTransGen (Rise up r) d q) (hd : r d ≤ r p) (hq : r p < r q) :
    ∃ m m', Rise up r m m' ∧ Relation.ReflTransGen (Rise up r) m' q ∧ r m ≤ r p ∧ r p < r m' := by
  induction h with
  | refl => omega
  | @tail m m' hpath hstep ih =>
    by_cases hm : r p < r m
    · obtain ⟨a, a', ha, ha', hle⟩ := ih hm
      exact ⟨a, a', ha, ha'.tail hstep, hle⟩
    · exact ⟨m, m', hstep, .refl, by omega, hq⟩

theorem Projective.rising (hproj : Projective up) (hacyclic : Acyclic up) (hin : ∀ j, up j ≠ j → j < n ∧ up j < n)
    (hinj : ∀ j < n, ∀ k < n, r j = r k → j = k)
    (hbetween : ∀ j k m, r j < r k → r k < r m → m < n → k < n → (j < k ∧ k < m ∨ m < k ∧ k < j)) {d i : ℕ}
    (hleast : ∀ p, Below up p i → r d ≤ r p) (hdi : Below up d i) :
    Relation.ReflTransGen (Rise up r) d i := by
  have hway : ∀ p, Below up d p → Below up p i → Relation.ReflTransGen (Rise up r) d p := by
    intro p hdp
    induction hdp with
    | refl => exact fun _ => .refl
    | @tail q p hdq hstep ih =>
      intro hpi
      have hqi : Below up q i := Relation.ReflTransGen.head hstep hpi
      have hdq' := ih hqi
      by_cases hqp : q = p
      · exact hqp ▸ hdq'
      · refine hdq'.tail ⟨hstep, ?_⟩
        have hself : up q ≠ q := fun h => hqp (h.symm.trans hstep)
        obtain ⟨hqn, hpn⟩ := hin q hself
        rw [show up q = p from hstep] at hpn
        by_contra hback
        have hne : r p ≠ r q := fun h => hqp (hinj p hpn q hqn h).symm
        obtain ⟨m, m', hm, hmq, hle, hlt⟩ := rise_passes hdq' (hleast p hpi) (by omega)
        have hmself : up m ≠ m := fun h => absurd hm.2 (by rw [← hm.1, h]; omega)
        obtain ⟨hmn, hmn'⟩ := hin m hmself
        have hpq : Below up p q := by
          rcases Nat.lt_or_eq_of_le hle with hle | hle
          · have hunder := hproj m p hmself (hbetween m p (up m) hle (hm.1.symm ▸ hlt) hmn' hpn)
            exact (hm.1 ▸ hunder).trans (rise_below hmq)
          · obtain rfl := hinj m hmn p hpn hle
            exact Relation.ReflTransGen.head hm.1 (rise_below hmq)
        exact hqp (hacyclic.antisymm hpq (.single hstep)).symm
  exact hway i hdi .refl

end Rising

section Convex

variable (hproj : Projective up)
include hproj

theorem Projective.between {d i p : ℕ} (hd : Below up d i) (hp : d ≤ p ∧ p ≤ i ∨ i ≤ p ∧ p ≤ d) : Below up p i := by
  induction hd using Relation.ReflTransGen.head_induction_on with
  | refl =>
    obtain rfl : p = i := by omega
    exact .refl
  | @head d e hde hei ih =>
    by_cases hout : e ≤ p ∧ p ≤ i ∨ i ≤ p ∧ p ≤ e
    · exact ih hout
    · have hself : up d ≠ d := by
        intro hself
        obtain rfl : d = e := hself.symm.trans hde
        exact hout hp
      by_cases hpd : p = d
      · exact hpd ▸ Relation.ReflTransGen.head hde hei
      · have hunder := hproj d p hself (by rw [show up d = e from hde]; omega)
        exact (show Below up p e from hde ▸ hunder).trans hei

theorem Projective.convex {a b j p : ℕ} (ha : Below up a j) (hb : Below up b j) (hap : a ≤ p) (hpb : p ≤ b) :
    Below up p j := by
  obtain hpj | hjp := Nat.le_total p j
  · exact hproj.between ha (Or.inl ⟨hap, hpj⟩)
  · exact hproj.between hb (Or.inr ⟨hjp, hpb⟩)

theorem Projective.lt_of_disjoint {j k a b : ℕ} (hdisjoint : ∀ d, Below up d j → ¬Below up d k) (hjk : j < k)
    (ha : Below up a j) (hb : Below up b k) : a < b := by
  by_contra hba
  have hak : a < k := by
    by_contra hka
    exact hdisjoint k (hproj.convex .refl ha hjk.le (by omega)) .refl
  exact hdisjoint a ha (hproj.convex hb .refl (by omega) hak.le)

theorem Projective.lt_of_left (hacyclic : Acyclic up) {j i d : ℕ} (hchild : Child up j i) (hji : j < i)
    (hd : Below up d j) : d < i := by
  by_contra hid
  have hij : Below up i j := hproj.convex .refl hd hji.le (by omega)
  exact hchild.2 (hacyclic.antisymm (.single hchild.1) hij)

theorem Projective.lt_of_right (hacyclic : Acyclic up) {j i d : ℕ} (hchild : Child up j i) (hij : i < j)
    (hd : Below up d j) : i < d := by
  by_contra hdi
  have hbelow : Below up i j := hproj.convex hd .refl (by omega) hij.le
  exact hchild.2 (hacyclic.antisymm (.single hchild.1) hbelow)

end Convex

end Forest

end Fluent.Library
