import Mathlib.Data.List.Basic

namespace Fluent.Spacy

abbrev Text := List Char

def isWhitespace (c : Char) : Bool :=
  let n := c.toNat
  (9 ≤ n && n ≤ 13) || n == 0x20 || n == 0x85 || n == 0xA0 || n == 0x1680 || (0x2000 ≤ n && n ≤ 0x200A) ||
    n == 0x2028 || n == 0x2029 || n == 0x202F || n == 0x205F || n == 0x3000

namespace Text

def bytes (t : Text) : List UInt8 := t.flatMap String.utf8EncodeChar

def byteLen (t : Text) : ℕ := t.bytes.length

def trim (t : Text) : Text := ((t.dropWhile isWhitespace).reverse.dropWhile isWhitespace).reverse

def lower (t : Text) : Text := t.map Char.toLower

def upper (t : Text) : Text := t.map Char.toUpper

end Text

def hashSeed : UInt64 := 1

def murmurM : UInt64 := 0xc6a4a7935bd1e995

def murmurR : UInt64 := 47

def fromLeBytes (bs : List UInt8) : UInt64 := bs.foldr (fun b acc => (acc <<< 8) ||| b.toUInt64) 0

def murmurBlocks : List UInt8 → UInt64 → UInt64
  | b0 :: b1 :: b2 :: b3 :: b4 :: b5 :: b6 :: b7 :: rest, h =>
    let k := fromLeBytes [b0, b1, b2, b3, b4, b5, b6, b7] * murmurM
    let k := (k ^^^ (k >>> murmurR)) * murmurM
    murmurBlocks rest ((h ^^^ k) * murmurM)
  | [], h => h
  | tail, h => (h ^^^ fromLeBytes tail) * murmurM

def murmur64a (data : List UInt8) (seed : UInt64) : UInt64 :=
  let h := murmurBlocks data (seed ^^^ (UInt64.ofNat data.length * murmurM))
  let h := (h ^^^ (h >>> murmurR)) * murmurM
  h ^^^ (h >>> murmurR)

def hashUtf8 (s : Text) : UInt64 := murmur64a s.bytes hashSeed

example : hashUtf8 "hello world".toList = 2758594965276909933 := by decide +kernel

end Fluent.Spacy
