import Fluent.Library.JsonText
import Fluent.Router.Charts.Schema
import Fluent.Wvr.Boundary

namespace Fluent.Llm

open Fluent.Library Fluent.Library.JsonText
open Fluent.Spacy (Text)
open Fluent.Router.Charts (Json)
open Fluent.Wvr (between escapedChar repairBoundary BoundaryOptions)

section Printing

theorem raw_of_not_escaped {c : Char} (hq : ¬c = '"') (hb : ¬c = '\\') (h : ¬c.toNat < 0x20) :
    0x20 ≤ c.toNat ∧ c ≠ '"' ∧ c ≠ '\\' :=
  ⟨Nat.le_of_not_lt h, hq, hb⟩

def printChar (c : Char) : Item :=
  if hq : c = '"' then .short .quote
  else if hb : c = '\\' then .short .backslash
  else if c.toNat = 8 then .short .backspace
  else if c.toNat = 12 then .short .formFeed
  else if c = '\n' then .short .newline
  else if c = '\r' then .short .ret
  else if c = '\t' then .short .tab
  else if h : c.toNat < 0x20 then .unicode (.lower 0) (.lower 0) (.lower (c.toNat / 16)) (.lower c.toNat)
  else .raw ⟨c, raw_of_not_escaped hq hb h⟩

def printStr (s : Text) : List Item := s.map printChar

variable {N : Type} (number : N → Number)

mutual

def concrete : Json N → Value
  | .null => .scalar .null
  | .bool b => .scalar (.bool b)
  | .number n => .scalar (.number (number n))
  | .string s => .scalar (.string (printStr s))
  | .array items => containerOf .square (concreteItems items)
  | .object fields => containerOf .curly (concreteFields fields)

def concreteItems : List (Json N) → List (Label .square × Value)
  | [] => []
  | v :: items => ((), concrete v) :: concreteItems items

def concreteFields : List (Text × Json N) → List (Label .curly × Value)
  | [] => []
  | (name, v) :: fields => (⟨printStr name, [], []⟩, concrete v) :: concreteFields fields

end

def print (v : Json N) : Text := (concrete number v).render

def IsContainer : Json N → Prop
  | .array _ => True
  | .object _ => True
  | _ => False

end Printing

structure Serde (J : Type) where
  fromStr : Text → Option J
  toString : J → Text

inductive JsonParseError where
  | noJson
  | serde (message : Text)
deriving DecidableEq

def fence : Text := "```".toList

def jsonFence : Text := "```json".toList

def stripPrefix (pat t : Text) : Option Text := if pat <+: t then some (t.drop pat.length) else none

def trimStartMatches (pat : Text) : ℕ → Text → Text
  | 0, t => t
  | n + 1, t => if pat <+: t then trimStartMatches pat n (t.drop pat.length) else t

def trimEndMatches (pat t : Text) : Text := (trimStartMatches pat.reverse t.length t.reverse).reverse

def stripJsonFence (raw : Text) : Text :=
  let trimmed := raw.trim
  let afterOpen := ((stripPrefix jsonFence trimmed).or (stripPrefix fence trimmed)).getD trimmed
  (trimEndMatches fence afterOpen).trim

def afterBalanced (depth : ℕ) (inString escaped : Bool) : Text → Option Text
  | [] => none
  | c :: rest =>
    if inString then
      if escaped then afterBalanced depth true false rest
      else if c = '\\' then afterBalanced depth true true rest
      else if c = '"' then afterBalanced depth false false rest
      else afterBalanced depth true false rest
    else if c = '"' then afterBalanced depth true escaped rest
    else if c = '{' ∨ c = '[' then afterBalanced (depth + 1) false escaped rest
    else if c = '}' ∨ c = ']' then
      if depth - 1 = 0 then some rest else afterBalanced (depth - 1) false escaped rest
    else afterBalanced depth false escaped rest

def extractFrom {J : Type} (fromStr : Text → Option J) : ℕ → Text → Option J
  | _, [] => none
  | skip + 1, _ :: rest => extractFrom fromStr skip rest
  | 0, c :: rest =>
    if c = '{' ∨ c = '[' then
      match afterBalanced 0 false false (c :: rest) with
      | none => none
      | some after =>
        match fromStr (between (c :: rest) after) with
        | some v => some v
        | none => extractFrom fromStr (rest.length - after.length) rest
    else extractFrom fromStr 0 rest

def extractFirstJsonValue {J : Type} (fromStr : Text → Option J) (raw : Text) : Option J := extractFrom fromStr 0 raw

structure Closing where
  out : Text
  stack : List Char
  inString : Bool
  escaped : Bool

def Closing.step (s : Closing) (c : Char) : Closing :=
  if s.inString then
    if s.escaped then { s with out := s.out ++ [c], escaped := false }
    else if c = '\\' then { s with out := s.out ++ ['\\'], escaped := true }
    else if c = '"' then { s with out := s.out ++ ['"'], inString := false }
    else { s with out := s.out ++ (escapedChar c).getD [c] }
  else if c = '"' then { s with out := s.out ++ ['"'], inString := true }
  else if c = '{' ∨ c = '[' then { s with out := s.out ++ [c], stack := c :: s.stack }
  else if c = '}' ∨ c = ']' then
    if s.stack.head? = some (if c = '}' then '{' else '[') then { s with out := s.out ++ [c], stack := s.stack.tail }
    else s
  else { s with out := s.out ++ [c] }

def closeOpenContainers (healed : Text) : Text :=
  let s := healed.foldl Closing.step ⟨[], [], false, false⟩
  let out := if s.inString then s.out ++ (if s.escaped then ['\\'] else []) ++ ['"'] else s.out
  out ++ s.stack.map fun bracket => if bracket = '[' then ']' else '}'

def topLevelCommas (depth : ℕ) (inString escaped : Bool) (i : ℕ) : Text → List ℕ
  | [] => []
  | c :: rest =>
    if inString then
      if escaped then topLevelCommas depth true false (i + 1) rest
      else if c = '\\' then topLevelCommas depth true true (i + 1) rest
      else if c = '"' then topLevelCommas depth false false (i + 1) rest
      else topLevelCommas depth true false (i + 1) rest
    else if c = '"' then topLevelCommas depth true escaped (i + 1) rest
    else if c = '{' ∨ c = '[' then topLevelCommas (depth + 1) false escaped (i + 1) rest
    else if c = '}' ∨ c = ']' then topLevelCommas (depth - 1) false escaped (i + 1) rest
    else if c = ',' ∧ depth = 1 then i :: topLevelCommas depth false escaped (i + 1) rest
    else topLevelCommas depth false escaped (i + 1) rest

section Pipeline

variable {J : Type} (serde : Serde J)

def dropIncompleteTail (healed : Text) : Option Text :=
  (topLevelCommas 0 false false 0 healed).reverse.findSome? fun pos =>
    let closed := closeOpenContainers (healed.take pos)
    if (serde.fromStr closed).isSome then some closed else none

def repairJson (raw : Text) : Option Text :=
  match raw.dropWhile fun c => c ≠ '{' ∧ c ≠ '[' with
  | [] => none
  | found =>
    let healed := (repairBoundary found .lenient).text
    match extractFirstJsonValue serde.fromStr healed with
    | some v => some (serde.toString v)
    | none =>
      let closed := closeOpenContainers healed
      if (serde.fromStr closed).isSome then some closed else dropIncompleteTail serde healed

def parseJsonResponse (text : Text) : Except JsonParseError J :=
  let cleaned := stripJsonFence text
  match serde.fromStr cleaned with
  | some v => .ok v
  | none =>
    match extractFirstJsonValue serde.fromStr cleaned with
    | some v => .ok v
    | none =>
      match (repairJson serde cleaned).bind serde.fromStr with
      | some v => .ok v
      | none => .error .noJson

end Pipeline

end Fluent.Llm
