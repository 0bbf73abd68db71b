import Fluent.Library.HashContainers
import Fluent.Spacy.Labels

open Fluent.Library

namespace Fluent.Spacy

def u32 (n : ℕ) : ℕ := n % 2 ^ 32

abbrev StringStore := HashMap UInt64 Text

namespace StringStore

def get (m : StringStore) (hash : UInt64) : Option Text := if hash = 0 then some [] else m.lookup hash

def intern (m : StringStore) (hash : UInt64) (s : Text) : StringStore :=
  if hash ∈ m then m else m.insert hash s

def add (m : StringStore) (s : Text) : UInt64 × StringStore :=
  if s = [] then (0, m) else (hashUtf8 s, m.intern (hashUtf8 s) s)

end StringStore

structure LexemeValues where
  lang : UInt64
  id : UInt64
  lower : UInt64
  norm : UInt64
  shape : UInt64
  prefixHash : UInt64
  suffixHash : UInt64
deriving DecidableEq

def oovRank : UInt64 := 0xFFFFFFFFFFFFFFFF

structure LexemeFlags where
  bits : UInt64
deriving DecidableEq

def LexemeFlags.check (f : LexemeFlags) (flagId : UInt64) : Bool := f.bits &&& (1 <<< flagId) != 0

structure Lexeme where
  flags : LexemeFlags
  length : ℕ
  orth : UInt64
  values : LexemeValues
deriving DecidableEq

def Lexeme.empty : Lexeme := ⟨⟨0⟩, 0, 0, ⟨0, oovRank, 0, 0, 0, 0, 0⟩⟩

end Fluent.Spacy
