import Mathlib.Data.List.DropRight
import Fluent.Library.Ancestry
import Fluent.Library.Utf8
import Fluent.Spacy.Hash

namespace Fluent.CommonCore.Path

open Fluent.Library
open Fluent.Spacy (Text)

/-! Paths as texts: nothing here looks at a file system. -/

def collapseRuns : Bool → Text → Text
  | _, [] => []
  | previousSlash, c :: rest =>
    if c = '/' then if previousSlash then collapseRuns true rest else c :: collapseRuns true rest
    else c :: collapseRuns false rest

def collapseSeparators (path : Text) : Text :=
  collapseRuns false (path.map fun c => if c = '\\' then '/' else c)

def pushPart (parts : List Text) (part : Text) : List Text :=
  if part = [] ∨ part = ['.'] then parts
  else if part = ['.', '.'] then parts.dropLast
  else parts ++ [part]

def normalizeLexical (path : Text) : Text :=
  let slashed := collapseSeparators path
  let parts := (slashed.splitOn '/').foldl pushPart []
  let joined := List.intercalate ['/'] parts
  if slashed.head? = some '/' then '/' :: joined else joined

def trimEnd (path : Text) : Text := path.rdropWhile (· = '/')

def parentLexical (path : Text) : Option Text :=
  if '/' ∈ trimEnd path then
    let before := ((trimEnd path).rdropWhile (· ≠ '/')).dropLast
    some (if before = [] then ['/'] else before)
  else none

def fileNameLexical (path : Text) : Text := (trimEnd path).rtakeWhile (· ≠ '/')

def isAbsoluteLexical (path : Text) : Bool :=
  path.head? = some '/' ||
    (3 ≤ (utf8 path).length && (utf8 path)[1]? = some 58 &&
      ((utf8 path)[2]? = some 47 || (utf8 path)[2]? = some 92))

theorem parentLexical_length {path parent : Text} (h : parentLexical path = some parent) :
    parent.length < path.length := by
  have htrim : (trimEnd path).length ≤ path.length := (List.rdropWhile_prefix _ _).length_le
  unfold parentLexical at h
  split_ifs at h with hslash
  obtain rfl := Option.some.inj h
  obtain ⟨upTo, hupTo⟩ : ∃ upTo, (trimEnd path).rdropWhile (· ≠ '/') = upTo := ⟨_, rfl⟩
  have hne : upTo ≠ [] := by
    rw [← hupTo, Ne, List.rdropWhile_eq_nil_iff]
    intro hall
    exact absurd (hall '/' hslash) (by decide)
  have hlt : upTo.length < (trimEnd path).length := by
    refine Nat.lt_of_le_of_ne (hupTo ▸ (List.rdropWhile_prefix _ _).length_le) fun he => ?_
    have hself : upTo = trimEnd path := (hupTo ▸ List.rdropWhile_prefix _ _ : upTo <+: trimEnd path).eq_of_length he
    have hne' : trimEnd path ≠ [] := hself ▸ hne
    have hlast : (trimEnd path).getLast hne' = '/' := by
      have := List.rdropWhile_last_not (· ≠ '/') (trimEnd path) (hupTo ▸ hne)
      simp only [hupTo, hself] at this
      simpa using this
    exact List.rdropWhile_last_not (· = '/') path hne' (decide_eq_true hlast)
  rw [hupTo]
  have hpos := List.length_pos_iff.mpr hne
  split_ifs with hbefore
  · rw [List.length_singleton]
    omega
  · rw [List.length_dropLast]
    omega

def ancestry : Ancestry Text := ⟨parentLexical, List.length, parentLexical_length⟩

example : normalizeLexical "a//b/./c/../d".toList = "a/b/d".toList := by decide +kernel

example : normalizeLexical "/../a".toList = "/a".toList := by decide +kernel

example : parentLexical "/a/b".toList = some "/a".toList := by decide +kernel

end Fluent.CommonCore.Path
