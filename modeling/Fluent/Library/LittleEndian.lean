import Mathlib.Algebra.GroupWithZero.Nat
import Mathlib.Data.List.Basic
import Mathlib.Data.Nat.Notation

namespace Fluent.Library

def leValue (bytes : List UInt8) : ℕ := bytes.foldr (fun b acc => b.toNat + 256 * acc) 0

def leBytes : ℕ → ℕ → List UInt8
  | 0, _ => []
  | width + 1, n => UInt8.ofNat n :: leBytes width (n / 256)

def wordAt (width : ℕ) (data : List UInt8) (offset : ℕ) : ℕ := leValue ((data.drop offset).take width)

@[simp] theorem length_leBytes (width n : ℕ) : (leBytes width n).length = width := by
  induction width generalizing n with
  | zero => rfl
  | succ width ih => rw [leBytes, List.length_cons, ih]

theorem leValue_leBytes (width n : ℕ) : leValue (leBytes width n) = n % 256 ^ width := by
  induction width generalizing n with
  | zero => rw [pow_zero, Nat.mod_one]; rfl
  | succ width ih =>
    change (UInt8.ofNat n).toNat + 256 * leValue (leBytes width (n / 256)) = _
    rw [ih, pow_succ', Nat.mod_mul, UInt8.toNat_ofNat']

theorem wordAt_append {width n : ℕ} (h : n < 256 ^ width) (pre rest : List UInt8) :
    wordAt width (pre ++ (leBytes width n ++ rest)) pre.length = n := by
  rw [wordAt, List.drop_left, List.take_left' (length_leBytes width n), leValue_leBytes, Nat.mod_eq_of_lt h]

def toLeBytes (x : UInt32) : List UInt8 := leBytes 4 x.toNat

def readU32 (data : List UInt8) (offset : ℕ) : UInt32 := .ofNat (wordAt 4 data offset)

theorem readU32_append (pre : List UInt8) (x : UInt32) (rest : List UInt8) :
    readU32 (pre ++ (toLeBytes x ++ rest)) pre.length = x := by
  rw [readU32, toLeBytes, wordAt_append x.toNat_lt, UInt32.ofNat_toNat]

theorem readU32_left {p t : List UInt8} {i : ℕ} (h : i + 4 ≤ p.length) : readU32 (p ++ t) i = readU32 p i := by
  rw [readU32, wordAt, List.drop_append_of_le_length (by omega), List.take_append_of_le_length (by simp; omega)]
  rfl

end Fluent.Library
