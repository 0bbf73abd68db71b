import Fluent.Library.Substring
import Mathlib.Data.Nat.Init

namespace Fluent.Library

/-! Bytes read as UTF-8, with one replacement character for each longest start of a character that is not one. -/

namespace Lossy

def replacement : Char := '�'

structure Pending where
  codePoint : ℕ
  needed : ℕ
  lower : ℕ
  upper : ℕ
deriving DecidableEq

def lead (b : ℕ) : List Char × Option Pending :=
  if b < 0x80 then ([Char.ofNat b], none)
  else if 0xC2 ≤ b ∧ b ≤ 0xDF then ([], some ⟨b - 0xC0, 0, 0x80, 0xBF⟩)
  else if 0xE0 ≤ b ∧ b ≤ 0xEF then
    ([], some ⟨b - 0xE0, 1, if b = 0xE0 then 0xA0 else 0x80, if b = 0xED then 0x9F else 0xBF⟩)
  else if 0xF0 ≤ b ∧ b ≤ 0xF4 then
    ([], some ⟨b - 0xF0, 2, if b = 0xF0 then 0x90 else 0x80, if b = 0xF4 then 0x8F else 0xBF⟩)
  else ([replacement], none)

def Pending.continue (p : Pending) (b : ℕ) : List Char × Option Pending :=
  let codePoint := p.codePoint * 64 + (b - 0x80)
  match p.needed with
  | 0 => ([Char.ofNat codePoint], none)
  | needed + 1 => ([], some ⟨codePoint, needed, 0x80, 0xBF⟩)

def feed : Option Pending → ℕ → List Char × Option Pending
  | none, b => lead b
  | some p, b =>
    if p.lower ≤ b ∧ b ≤ p.upper then p.continue b
    else (replacement :: (lead b).1, (lead b).2)

def decodeFrom : Option Pending → List UInt8 → List Char
  | none, [] => []
  | some _, [] => [replacement]
  | st, b :: bs => (feed st b.toNat).1 ++ decodeFrom (feed st b.toNat).2 bs

structure Pending.Wide (p : Pending) : Prop where
  lower : 0x80 ≤ p.lower
  codePoint : 2 ≤ p.codePoint ∨ 0 < p.needed ∧ 2 ≤ p.codePoint * 64 + (p.lower - 0x80)

def Wide (st : Option Pending) : Prop := ∀ p ∈ st, p.Wide

theorem wide_none : Wide none := by
  rintro p ⟨⟩

theorem wide_some {p : Pending} : Wide (some p) ↔ p.Wide := by
  simp [Wide]

theorem toNat_ofNat_ascii {m : ℕ} (hm : m < 0x80) : (Char.ofNat m).toNat = m := by
  have hvalid : m.isValidChar := Or.inl (by omega)
  rw [Char.ofNat, dif_pos hvalid]
  rfl

theorem ofNat_inj_of_ascii {m n : ℕ} (hm : m < 0x80) (h : Char.ofNat n = Char.ofNat m) : n = m ∨ m = 0 := by
  have hnat := congrArg Char.toNat h
  rw [toNat_ofNat_ascii hm] at hnat
  by_cases hvalid : n.isValidChar
  · rw [Char.ofNat, dif_pos hvalid] at hnat
    exact Or.inl hnat
  · rw [Char.ofNat, dif_neg hvalid] at hnat
    exact Or.inr hnat.symm

theorem lead_ascii {b : ℕ} (h : b < 0x80) : lead b = ([Char.ofNat b], none) := by
  rw [lead, if_pos h]

theorem wide_lead (b : ℕ) : Wide (lead b).2 := by
  rw [lead]
  split
  · exact wide_none
  split
  · exact wide_some.mpr ⟨Nat.le_refl _, Or.inl (by dsimp only; omega)⟩
  split
  · refine wide_some.mpr ⟨by dsimp only; split <;> omega, Or.inr ⟨Nat.one_pos, ?_⟩⟩
    dsimp only
    split <;> omega
  split
  · refine wide_some.mpr ⟨by dsimp only; split <;> omega, Or.inr ⟨Nat.two_pos, ?_⟩⟩
    dsimp only
    split <;> omega
  · exact wide_none

theorem Pending.Wide.continue {p : Pending} (h : p.Wide) {b : ℕ} (hb : p.lower ≤ b) : Lossy.Wide (p.continue b).2 := by
  have hlower := h.lower
  have hcode := h.codePoint
  rw [Pending.continue]
  split
  · exact wide_none
  · exact wide_some.mpr ⟨Nat.le_refl _, Or.inl (by dsimp only; omega)⟩

theorem wide_feed {st : Option Pending} (h : Wide st) (b : ℕ) : Wide (feed st b).2 := by
  cases st with
  | none => exact wide_lead b
  | some p =>
    rw [feed]
    split
    · rename_i hb
      exact (wide_some.mp h).continue hb.1
    · exact wide_lead b

theorem feed_ascii {st : Option Pending} (h : Wide st) {b : ℕ} (hb : b < 0x80) :
    feed st b = (decodeFrom st [] ++ [Char.ofNat b], none) := by
  cases st with
  | none => exact lead_ascii hb
  | some p =>
    have hlower := (wide_some.mp h).lower
    rw [feed, if_neg (by omega), lead_ascii hb]
    rfl

theorem decodeFrom_append_ascii {st : Option Pending} (h : Wide st) (bs rest : List UInt8) {b : UInt8}
    (hb : b.toNat < 0x80) :
    decodeFrom st (bs ++ b :: rest) = decodeFrom st bs ++ Char.ofNat b.toNat :: decodeFrom none rest := by
  induction bs generalizing st with
  | nil =>
    rw [List.nil_append, decodeFrom, feed_ascii h hb, List.append_assoc]
    rfl
  | cons c bs ih => rw [List.cons_append, decodeFrom, decodeFrom, ih (wide_feed h _), List.append_assoc]

theorem replacement_ne {m : ℕ} (hm : m < 0x80) : Char.ofNat m ≠ replacement := by
  intro h
  have hnat := congrArg Char.toNat h
  rw [toNat_ofNat_ascii hm] at hnat
  have hreplacement : replacement.toNat = 0xFFFD := rfl
  omega

theorem notMem_lead {m b : ℕ} (hm : m < 0x80) (hzero : m ≠ 0) (hb : b ≠ m) : Char.ofNat m ∉ (lead b).1 := by
  rw [lead]
  split
  · intro hmem
    obtain h | h := ofNat_inj_of_ascii hm (List.mem_singleton.mp hmem).symm
    · exact hb h
    · exact hzero h
  split
  · simp
  split
  · simp
  split
  · simp
  · simpa using replacement_ne hm

theorem notMem_feed {st : Option Pending} (h : Wide st) {m b : ℕ} (hm : m < 0x80) (hzero : m ≠ 0) (hb : b ≠ m) :
    Char.ofNat m ∉ (feed st b).1 := by
  cases st with
  | none => exact notMem_lead hm hzero hb
  | some p =>
    have hcode := (wide_some.mp h).codePoint
    rw [feed]
    split
    · rw [Pending.continue]
      split
      · intro hmem
        obtain hn | hn := ofNat_inj_of_ascii hm (List.mem_singleton.mp hmem).symm
        · omega
        · exact hzero hn
      · simp
    · simpa using ⟨replacement_ne hm, notMem_lead hm hzero hb⟩

theorem notMem_decodeFrom {st : Option Pending} (h : Wide st) {sep : UInt8} (hsep : sep.toNat < 0x80)
    (hzero : sep ≠ 0) {bs : List UInt8} (hbs : sep ∉ bs) : Char.ofNat sep.toNat ∉ decodeFrom st bs := by
  induction bs generalizing st with
  | nil =>
    cases st with
    | none => simp [decodeFrom]
    | some p => simpa [decodeFrom] using replacement_ne hsep
  | cons b bs ih =>
    obtain ⟨hb, hrest⟩ := not_or.mp (List.mem_cons.not.mp hbs)
    have hfeed : Char.ofNat sep.toNat ∉ (feed st b.toNat).1 :=
      notMem_feed h hsep (fun hz => hzero (UInt8.toNat_inj.mp hz)) fun hc => hb (UInt8.toNat_inj.mp hc).symm
    rw [decodeFrom, List.mem_append, not_or]
    exact ⟨hfeed, ih (wide_feed h _) hrest⟩

end Lossy

open Lossy

def decodeLossy (bs : List UInt8) : List Char := decodeFrom none bs

theorem decodeLossy_append_ascii (bs rest : List UInt8) {b : UInt8} (hb : b.toNat < 0x80) :
    decodeLossy (bs ++ b :: rest) = decodeLossy bs ++ Char.ofNat b.toNat :: decodeLossy rest :=
  decodeFrom_append_ascii wide_none bs rest hb

example : decodeLossy [0xE4, 0xBD, 0xA0, 0xF0, 0x9F, 0x41] = ['你', '�', 'A'] := by decide

theorem splitOnP_decodeLossy {sep : UInt8} (hsep : sep.toNat < 0x80) (hzero : sep ≠ 0) (bs : List UInt8) :
    (decodeLossy bs).splitOnP (· == Char.ofNat sep.toNat) = (bs.splitOnP (· == sep)).map decodeLossy := by
  induction hn : bs.length using Nat.strong_induction_on generalizing bs with
  | _ n ih =>
    by_cases hmem : sep ∈ bs
    · obtain ⟨first, rest, rfl, hfirst⟩ := List.eq_append_cons_of_mem hmem
      have hlt : rest.length < n := by
        rw [← hn]
        simp
        omega
      rw [decodeLossy_append_ascii _ _ hsep, List.splitOnP_append_cons _ _ (by simp),
        List.splitOnP_append_cons _ _ (by simp), List.map_append, ih _ hlt rest rfl]
      have hno : Char.ofNat sep.toNat ∉ decodeLossy first := notMem_decodeFrom wide_none hsep hzero hfirst
      rw [splitOnP_of_notMem hno, splitOnP_of_notMem hfirst, List.map_singleton]
    · have hno : Char.ofNat sep.toNat ∉ decodeLossy bs := notMem_decodeFrom wide_none hsep hzero hmem
      rw [splitOnP_of_notMem hno, splitOnP_of_notMem hmem, List.map_singleton]

end Fluent.Library
