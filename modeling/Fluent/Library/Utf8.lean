import Mathlib.Algebra.GroupWithZero.Nat
import Mathlib.Data.List.Basic
import Mathlib.Data.List.Infix

namespace Fluent.Library

open String (utf8EncodeChar)

scoped instance (priority := 2000) decidableForallMem (l : List Char) (p : Char → Prop) [DecidablePred p] :
    Decidable (∀ c ∈ l, p c) := List.decidableBAll p l

scoped instance (priority := 2000) lawfulBEqChars : LawfulBEq (List Char) := List.instLawfulBEq

def utf8 (s : List Char) : List UInt8 := s.flatMap utf8EncodeChar

def utf8Len (s : List Char) : ℕ := (s.map Char.utf8Size).sum

theorem utf8Len_append (s t : List Char) : utf8Len (s ++ t) = utf8Len s + utf8Len t := by
  unfold utf8Len
  rw [List.map_append, List.sum_append]

theorem utf8Len_cons (c : Char) (s : List Char) : utf8Len (c :: s) = c.utf8Size + utf8Len s := rfl

theorem utf8_append (s t : List Char) : utf8 (s ++ t) = utf8 s ++ utf8 t := List.flatMap_append

theorem utf8_cons (c : Char) (s : List Char) : utf8 (c :: s) = utf8EncodeChar c ++ utf8 s := List.flatMap_cons

theorem length_utf8 (s : List Char) : (utf8 s).length = utf8Len s := by
  induction s with
  | nil => rfl
  | cons c s ih => rw [utf8_cons, List.length_append, ih, String.length_utf8EncodeChar, utf8Len_cons]

theorem utf8Len_pos {s : List Char} (hs : s ≠ []) : 0 < utf8Len s := by
  obtain ⟨c, s, rfl⟩ := List.exists_cons_of_ne_nil hs
  rw [utf8Len_cons]
  have := c.utf8Size_pos
  omega

def sliceFrom : List Char → ℕ → Option (List Char)
  | s, 0 => some s
  | [], _ + 1 => none
  | c :: s, n + 1 => if c.utf8Size ≤ n + 1 then sliceFrom s (n + 1 - c.utf8Size) else none

def sliceTo : List Char → ℕ → Option (List Char)
  | _, 0 => some []
  | [], _ + 1 => none
  | c :: s, n + 1 => if c.utf8Size ≤ n + 1 then (sliceTo s (n + 1 - c.utf8Size)).map (c :: ·) else none

theorem sliceFrom_append (p s : List Char) : sliceFrom (p ++ s) (utf8Len p) = some s := by
  induction p with
  | nil =>
    cases s with
    | nil => rfl
    | cons c s => rfl
  | cons c p ih =>
    have hpos := c.utf8Size_pos
    obtain ⟨n, hn⟩ : ∃ n, utf8Len (c :: p) = n + 1 := ⟨utf8Len (c :: p) - 1, by rw [utf8Len_cons]; omega⟩
    have hsub : n + 1 - c.utf8Size = utf8Len p := by
      rw [← hn, utf8Len_cons, Nat.add_sub_cancel_left]
    rw [hn, List.cons_append, sliceFrom, hsub, ih, if_pos]
    rw [← hn, utf8Len_cons]
    omega

theorem sliceTo_append (p s : List Char) : sliceTo (p ++ s) (utf8Len p) = some p := by
  induction p with
  | nil =>
    cases s with
    | nil => rfl
    | cons c s => rfl
  | cons c p ih =>
    have hpos := c.utf8Size_pos
    obtain ⟨n, hn⟩ : ∃ n, utf8Len (c :: p) = n + 1 := ⟨utf8Len (c :: p) - 1, by rw [utf8Len_cons]; omega⟩
    have hsub : n + 1 - c.utf8Size = utf8Len p := by
      rw [← hn, utf8Len_cons, Nat.add_sub_cancel_left]
    rw [hn, List.cons_append, sliceTo, hsub, ih, if_pos]
    · rfl
    · rw [← hn, utf8Len_cons]
      omega

theorem sliceFrom_inside {p s : List Char} {c : Char} {k : ℕ} (hpos : 0 < k) (hk : k < c.utf8Size) :
    sliceFrom (p ++ c :: s) (utf8Len p + k) = none := by
  induction p with
  | nil =>
    obtain ⟨n, rfl⟩ : ∃ n, k = n + 1 := ⟨k - 1, by omega⟩
    rw [show utf8Len [] + (n + 1) = n + 1 from Nat.zero_add _, List.nil_append, sliceFrom, if_neg (by omega)]
  | cons d p ih =>
    have hd := d.utf8Size_pos
    obtain ⟨n, hn⟩ : ∃ n, utf8Len (d :: p) + k = n + 1 := ⟨utf8Len (d :: p) + k - 1, by omega⟩
    have hsub : n + 1 - d.utf8Size = utf8Len p + k := by
      rw [← hn, utf8Len_cons, Nat.add_assoc, Nat.add_sub_cancel_left]
    rw [hn, List.cons_append, sliceFrom, hsub, ih, ite_self]

theorem getElem?_utf8 {p s : List Char} {c : Char} {k : ℕ} (hk : k < c.utf8Size) :
    (utf8 (p ++ c :: s))[utf8Len p + k]? = (utf8EncodeChar c)[k]? := by
  rw [utf8_append, utf8_cons, ← length_utf8 p, List.getElem?_append_right (Nat.le_add_right _ _),
    Nat.add_sub_cancel_left, List.getElem?_append_left (by rw [String.length_utf8EncodeChar]; exact hk)]

theorem first_ne_later {c d : Char} {k : ℕ} (hpos : 0 < k) (hk : k < d.utf8Size) :
    (utf8EncodeChar c)[0]? ≠ (utf8EncodeChar d)[k]? := by
  have hc : 0 < (utf8EncodeChar c).length := by
    rw [String.length_utf8EncodeChar]
    exact c.utf8Size_pos
  have hd : k < (utf8EncodeChar d).length := by
    rw [String.length_utf8EncodeChar]
    exact hk
  rw [List.getElem?_eq_getElem hc, List.getElem?_eq_getElem hd]
  intro h
  have hfirst : ((utf8EncodeChar c)[0]).IsUTF8FirstByte ↔ 0 = 0 := UInt8.isUTF8FirstByte_getElem_utf8EncodeChar
  rw [Option.some.inj h, UInt8.isUTF8FirstByte_getElem_utf8EncodeChar] at hfirst
  omega

theorem eq_of_utf8_leads {c d : Char} (h : utf8EncodeChar c <+: utf8EncodeChar d) : c = d := by
  obtain ⟨t, ht⟩ := h
  have hc := ByteArray.utf8DecodeChar?_utf8EncodeChar_append (c := c) (b := t.toByteArray)
  have hd := ByteArray.utf8DecodeChar?_utf8EncodeChar_append (c := d) (b := ByteArray.empty)
  rw [← List.toByteArray_append, ht] at hc
  rw [ByteArray.append_empty] at hd
  exact Option.some.inj (hc.symm.trans hd)

theorem utf8_injective : Function.Injective utf8 := by
  intro s
  induction s with
  | nil =>
    intro t h
    cases t with
    | nil => rfl
    | cons d t =>
      have hlen := congrArg List.length h
      rw [length_utf8, length_utf8] at hlen
      exact absurd hlen.symm (Nat.ne_of_gt (utf8Len_pos (List.cons_ne_nil d t)))
  | cons c s ih =>
    intro t h
    cases t with
    | nil =>
      have hlen := congrArg List.length h
      rw [length_utf8, length_utf8] at hlen
      exact absurd hlen (Nat.ne_of_gt (utf8Len_pos (List.cons_ne_nil c s)))
    | cons d t =>
      rw [utf8_cons, utf8_cons] at h
      have hc : utf8EncodeChar c <+: utf8EncodeChar d ++ utf8 t := h ▸ List.prefix_append _ _
      have hcd : c = d := (List.prefix_or_prefix_of_prefix hc (List.prefix_append _ _)).elim eq_of_utf8_leads
        fun hd => (eq_of_utf8_leads hd).symm
      subst hcd
      rw [ih (List.append_cancel_left h)]

theorem exists_mismatch {α : Type*} {l m : List α} (hl : ¬l <+: m) (hm : ¬m <+: l) :
    ∃ k, k < l.length ∧ k < m.length ∧ (∀ j < k, l[j]? = m[j]?) ∧ l[k]? ≠ m[k]? := by
  induction l generalizing m with
  | nil => exact absurd List.nil_prefix hl
  | cons x l ih =>
    cases m with
    | nil => exact absurd List.nil_prefix hm
    | cons y m =>
      by_cases hxy : x = y
      · subst hxy
        rw [List.prefix_cons_inj] at hl hm
        obtain ⟨k, hkl, hkm, heq, hne⟩ := ih hl hm
        refine ⟨k + 1, Nat.succ_lt_succ hkl, Nat.succ_lt_succ hkm, fun j hj => ?_, hne⟩
        cases j with
        | zero => rfl
        | succ j => exact heq j (by omega)
      · exact ⟨0, Nat.succ_pos _, Nat.succ_pos _, fun j hj => absurd hj (Nat.not_lt_zero j), by simpa using hxy⟩

def Continues (b : UInt8) : Prop := 0x80 ≤ b ∧ b < 0xc0

theorem utf8EncodeChar_shape (c : Char) :
    ∃ b t, utf8EncodeChar c = b :: t ∧ ¬Continues b ∧ (∀ x ∈ t, Continues x) ∧ (b < 0x80 → t = []) := by
  unfold utf8EncodeChar Continues
  dsimp only
  split_ifs with h1 h2 h3
  · refine ⟨_, _, rfl, ?_, by simp, fun _ => rfl⟩
    simp only [UInt8.le_iff_toNat_le, UInt8.lt_iff_toNat_lt, UInt8.toNat_ofNat, UInt8.toNat_ofNat']
    omega
  all_goals
    refine ⟨_, _, rfl, ?_, ?_, ?_⟩
    · simp only [UInt8.le_iff_toNat_le, UInt8.lt_iff_toNat_lt, UInt8.toNat_ofNat, UInt8.toNat_ofNat']
      omega
    · simp only [List.mem_cons, List.not_mem_nil, or_false, forall_eq_or_imp, forall_eq, UInt8.le_iff_toNat_le,
        UInt8.lt_iff_toNat_lt, UInt8.toNat_ofNat, UInt8.toNat_ofNat']
      omega
    · simp only [UInt8.lt_iff_toNat_lt, UInt8.toNat_ofNat, UInt8.toNat_ofNat']
      omega

theorem not_continues_of_lt {b : UInt8} (h : b < 0x80) : ¬Continues b := fun hb => absurd h (UInt8.not_lt.mpr hb.1)

theorem not_continues_head_utf8 (s : List Char) {b : UInt8} (h : b ∈ (utf8 s).head?) : ¬Continues b := by
  cases s with
  | nil => cases h
  | cons c s =>
    obtain ⟨x, t, hx, hfirst, -, -⟩ := utf8EncodeChar_shape c
    rw [utf8_cons, hx] at h
    obtain rfl := Option.some.inj h
    exact hfirst

theorem drop_utf8_of_not_continues {s : List Char} {n : ℕ} (h : ∀ b ∈ ((utf8 s).drop n).head?, ¬Continues b) :
    ∃ t, (utf8 s).drop n = utf8 t := by
  induction s generalizing n with
  | nil => exact ⟨[], List.drop_nil⟩
  | cons c s ih =>
    obtain ⟨x, t, hx, -, hlater, -⟩ := utf8EncodeChar_shape c
    cases n with
    | zero => exact ⟨c :: s, rfl⟩
    | succ n =>
      rw [utf8_cons, hx, List.cons_append, List.drop_succ_cons] at h ⊢
      rcases Nat.lt_or_ge n t.length with hn | hn
      · rw [List.drop_append_of_le_length hn.le, List.drop_eq_getElem_cons hn] at h
        exact absurd (hlater _ (List.getElem_mem hn)) (h _ rfl)
      · rw [List.drop_append, List.drop_eq_nil_of_le hn, List.nil_append] at h ⊢
        exact ih h

theorem not_continues_after_ascii {s : List Char} {n : ℕ} {b : UInt8} (hn : (utf8 s)[n]? = some b) (hb : b < 0x80) :
    ∀ b ∈ ((utf8 s).drop (n + 1)).head?, ¬Continues b := by
  induction s generalizing n with
  | nil => cases hn
  | cons c s ih =>
    obtain ⟨x, t, hx, -, hlater, hsingle⟩ := utf8EncodeChar_shape c
    rw [utf8_cons, hx, List.cons_append] at hn ⊢
    cases n with
    | zero =>
      obtain rfl := Option.some.inj hn
      rw [hsingle hb]
      exact fun _ h => not_continues_head_utf8 s h
    | succ n =>
      rw [List.getElem?_cons_succ] at hn
      rw [List.drop_succ_cons]
      rcases Nat.lt_or_ge n t.length with hlt | hge
      · rw [List.getElem?_append_left hlt] at hn
        exact absurd (hlater b (List.mem_of_getElem? hn)) (not_continues_of_lt hb)
      · rw [List.getElem?_append_right hge] at hn
        rw [List.drop_append, List.drop_eq_nil_of_le (by omega), List.nil_append, Nat.succ_sub hge]
        exact ih hn

def BesideAscii (s : List UInt8) (n : ℕ) : Prop :=
  (∀ b ∈ s[n]?, b < 0x80) ∨ ∃ m b, n = m + 1 ∧ s[m]? = some b ∧ b < 0x80

def Cut (s : List UInt8) (n : ℕ) : Prop := n = 0 ∨ BesideAscii s n

theorem BesideAscii.cons {s : List UInt8} {n : ℕ} (h : BesideAscii s n) (c : UInt8) : BesideAscii (c :: s) (n + 1) := by
  rcases h with h | ⟨m, b, rfl, hm, hb⟩
  · exact .inl h
  · exact .inr ⟨m + 1, b, rfl, hm, hb⟩

theorem besideAscii_one {c : UInt8} (hc : c < 0x80) (s : List UInt8) : BesideAscii (c :: s) 1 :=
  .inr ⟨0, c, rfl, rfl, hc⟩

theorem Cut.drop_utf8 {t : List Char} {n : ℕ} (h : Cut (utf8 t) n) : ∃ t', (utf8 t).drop n = utf8 t' := by
  rcases h with rfl | h | ⟨m, b, rfl, hm, hb⟩
  · exact ⟨t, rfl⟩
  · refine drop_utf8_of_not_continues fun b hb => ?_
    rw [List.head?_drop] at hb
    exact not_continues_of_lt (h b hb)
  · exact drop_utf8_of_not_continues (not_continues_after_ascii hm hb)

theorem Cut.add {s : List UInt8} {n m : ℕ} (hn : Cut s n) (hm : Cut (s.drop n) m) : Cut s (n + m) := by
  rcases hm with rfl | h | ⟨m, b, rfl, hm, hb⟩
  · exact hn
  · rw [List.getElem?_drop] at h
    exact .inr (.inl h)
  · rw [List.getElem?_drop] at hm
    exact .inr (.inr ⟨n + m, b, rfl, hm, hb⟩)

theorem cut_zero (s : List UInt8) : Cut s 0 := .inl rfl

theorem cut_one {c : UInt8} (hc : c < 0x80) (s : List UInt8) : Cut (c :: s) 1 := .inr (besideAscii_one hc s)

theorem cut_takeWhile {p : UInt8 → Bool} (hp : ∀ b, 0x80 ≤ b → p b) (s : List UInt8) : Cut s (s.takeWhile p).length := by
  refine .inr (.inl fun b hb => ?_)
  have hstop : b ∈ (s.dropWhile p).head? := by
    rw [← List.takeWhile_append_dropWhile (p := p) (l := s), List.getElem?_append_right (by simp)] at hb
    simpa [List.head?_eq_getElem?] using hb
  have hfails := List.head?_dropWhile_not p s
  rw [Option.mem_def.mp hstop] at hfails
  by_contra hlow
  exact absurd (hp b (UInt8.not_lt.mp hlow)) (by simpa using hfails)

theorem cut_takeWhile_ascii {p : UInt8 → Bool} (hp : ∀ b, p b → b < 0x80) (s : List UInt8) :
    Cut s (s.takeWhile p).length := by
  cases hlen : (s.takeWhile p).length with
  | zero => exact cut_zero s
  | succ m =>
    have hm : m < (s.takeWhile p).length := by omega
    have hall := List.all_eq_true.mp (List.all_takeWhile (p := p) (l := s)) _ (List.getElem_mem hm)
    refine .inr (.inr ⟨m, (s.takeWhile p)[m], rfl, ?_, hp _ hall⟩)
    have hsplit := congrArg (·[m]?) (List.takeWhile_append_dropWhile (p := p) (l := s))
    rw [List.getElem?_append_left hm, List.getElem?_eq_getElem hm] at hsplit
    exact hsplit.symm

end Fluent.Library
