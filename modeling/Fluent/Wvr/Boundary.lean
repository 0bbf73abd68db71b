import Mathlib.Logic.Function.Iterate
import Fluent.Library.Utf8
import Fluent.Spacy.Hash

namespace Fluent.Wvr

open Fluent.Library
open Fluent.Spacy (Text isWhitespace)

def isControl (c : Char) : Bool := c.toNat < 0x20 || (0x7f ≤ c.toNat && c.toNat < 0xa0)

def hexDigit (n : ℕ) : Char := Char.ofNat (if n < 10 then 48 + n else 87 + n)

def hex4 (n : ℕ) : Text :=
  [hexDigit (n / 4096 % 16), hexDigit (n / 256 % 16), hexDigit (n / 16 % 16), hexDigit (n % 16)]

def escapedChar (c : Char) : Option Text :=
  if c = '\n' then some ['\\', 'n']
  else if c = '\t' then some ['\\', 't']
  else if c = '\r' then some ['\\', 'r']
  else if c.toNat = 8 then some ['\\', 'b']
  else if c.toNat = 12 then some ['\\', 'f']
  else if isControl c then some ('\\' :: 'u' :: hex4 c.toNat)
  else none

def isNullLiteral (s : Text) : Bool :=
  s ∈ ["null".toList, "None".toList, "undefined".toList, "NaN".toList, "Infinity".toList, "-Infinity".toList,
    "-NaN".toList]

inductive LiteralKind where
  | null
  | bool (b : Bool)
  | text
deriving DecidableEq

def literalKind (s : Text) : LiteralKind :=
  let t := s.trim
  if isNullLiteral t then .null
  else if t ∈ ["true".toList, "True".toList] then .bool true
  else if t ∈ ["false".toList, "False".toList] then .bool false
  else .text

/-! The walker. A position in the text is kept as the text from there on. -/

structure BoundaryOptions where
  schema : Option (List Text)
  allowBareKeys : Bool
  allowSingleQuotes : Bool
  allowComments : Bool
  allowTrailingComma : Bool
  allowBareLiterals : Bool
  allowUnterminatedString : Bool

namespace BoundaryOptions

def lenient : BoundaryOptions := ⟨none, true, true, true, true, true, true⟩

def forSchema (fieldNames : List Text) : BoundaryOptions := { lenient with schema := some fieldNames }

end BoundaryOptions

def prevSignificant (out : Text) : Option Char := out.reverse.find? fun c => !isWhitespace c

def atMemberStart (opts : BoundaryOptions) (prev : Option Char) : Bool :=
  if opts.schema.isSome then prev ∈ [none, some '{', some ',', some ';'] else prev ∈ [some '{', some ',']

def between (start stop : Text) : Text := start.take (start.length - stop.length)

theorem between_append (a t : Text) : between (a ++ t) t = a := by
  simp [between]

def captureFrom (depth : ℕ) (quote : Option Char) (escaped : Bool) : Text → Text
  | [] => []
  | c :: rest =>
    match quote with
    | some q =>
      if escaped then captureFrom depth quote false rest
      else if c = '\\' then captureFrom depth quote true rest
      else if c = q then captureFrom depth none false rest
      else captureFrom depth quote false rest
    | none =>
      if c = '\'' ∨ c = '"' then captureFrom depth (some c) escaped rest
      else if c = '{' ∨ c = '[' then captureFrom (depth + 1) none escaped rest
      else if c = '}' ∨ c = ']' then
        if depth = 0 then c :: rest else captureFrom (depth - 1) none escaped rest
      else if c = ',' ∧ depth = 0 then c :: rest
      else captureFrom depth none escaped rest

def captureValue (v0 : Text) : Text := captureFrom 0 none false v0

def pushMember (members : List (Text × Text)) (key v0 : Text) : List (Text × Text) :=
  members ++ [(key, (between v0 (captureValue v0)).trim)]

def afterSeparator (rest : Text) : Option Text :=
  match rest.dropWhile isWhitespace with
  | ':' :: v0 => some v0
  | '=' :: v0 => some v0
  | _ => none

def recognise (opts : BoundaryOptions) (members : List (Text × Text)) (key rest : Text) : List (Text × Text) :=
  match opts.schema with
  | none => members
  | some fieldNames =>
    if key ∈ fieldNames then
      match afterSeparator rest with
      | some v0 => pushMember members key v0
      | none => members
    else members

structure WalkState where
  rest : Text
  out : Text
  members : List (Text × Text)
  inString : Bool
  escaped : Bool
  depth : ℕ
  keySlice : Option (Text × Text)

def closeKey (opts : BoundaryOptions) (s : WalkState) (rest : Text) : WalkState :=
  match s.keySlice with
  | none => s
  | some (ks, ke) => { s with keySlice := none, members := recognise opts s.members (between ks ke) rest }

def stringStep (opts : BoundaryOptions) (s : WalkState) (c : Char) (rest : Text) : WalkState :=
  let s :=
    if s.escaped then { s with out := s.out ++ [c], escaped := false }
    else if c = '\\' then { s with out := s.out ++ ['\\'], escaped := true }
    else if c = '"' then closeKey opts { s with out := s.out ++ ['"'], inString := false } rest
    else { s with out := s.out ++ (escapedChar c).getD [c] }
  { s with rest := rest, keySlice := s.keySlice.map fun slice => (slice.1, c :: rest) }

structure SingleQuoted where
  rest : Text
  out : Text
  members : List (Text × Text)
  closed : Bool
  escaped : Bool

def singleQuoted (opts : BoundaryOptions) (ks : Option Text) (out : Text) (members : List (Text × Text))
    (escaped : Bool) : Text → SingleQuoted
  | [] => ⟨[], out, members, false, escaped⟩
  | c :: rest =>
    if escaped then singleQuoted opts ks (out ++ if c = '\'' then ['\''] else ['\\', c]) members false rest
    else if c = '\\' then singleQuoted opts ks out members true rest
    else if c = '\'' then
      let members :=
        match ks with
        | none => members
        | some ks => recognise opts members (between ks (c :: rest)) rest
      ⟨rest, out ++ ['"'], members, true, false⟩
    else if c = '"' then singleQuoted opts ks (out ++ ['\\', '"']) members false rest
    else singleQuoted opts ks (out ++ (escapedChar c).getD [c]) members false rest

def maybeKey (opts : BoundaryOptions) (s : WalkState) : Bool :=
  opts.schema.isSome && s.depth ≤ 1 && atMemberStart opts (prevSignificant s.out)

def singleQuoteStep (opts : BoundaryOptions) (s : WalkState) (rest : Text) : WalkState :=
  let q := singleQuoted opts (if maybeKey opts s then some rest else none) (s.out ++ ['"']) s.members false rest
  if q.closed then { s with rest := q.rest, out := q.out, members := q.members, inString := false }
  else if opts.allowUnterminatedString then
    { s with
      rest := q.rest
      out := q.out ++ (if q.escaped then ['\\'] else []) ++ ['"']
      members := q.members
      inString := false }
  else { s with rest := q.rest, out := q.out, members := q.members, inString := true }

def skipBlock : Text → Text
  | c :: d :: rest => if c = '*' ∧ d = '/' then rest else skipBlock (d :: rest)
  | _ => []

def commentStep (rest : Text) : Text :=
  match rest with
  | '/' :: rest => rest.dropWhile (· ≠ '\n')
  | '*' :: rest => skipBlock rest
  | rest => rest

def isWordChar (c : Char) : Bool := c.isAlphanum || c = '_'

def isIdentStart (c : Char) : Bool := c.isAlpha || c = '_' || c = '$'

def isIdentChar (c : Char) : Bool := c.isAlphanum || c = '_' || c = '$'

def literalText (ident : Text) : Text :=
  match literalKind ident with
  | .null => "null".toList
  | .bool true => "true".toList
  | .bool false => "false".toList
  | .text => '"' :: (ident ++ ['"'])

def identStep (opts : BoundaryOptions) (s : WalkState) (text : Text) : WalkState :=
  let ident := text.takeWhile isIdentChar
  let rest := text.dropWhile isIdentChar
  match afterSeparator rest, opts.allowBareKeys && atMemberStart opts (prevSignificant s.out) with
  | some v0, true =>
    { s with
      rest := rest.dropWhile isWhitespace
      out := s.out ++ '"' :: (ident ++ ['"'])
      members :=
        match opts.schema with
        | none => s.members
        | some fieldNames => if ident ∈ fieldNames ∧ s.depth ≤ 1 then pushMember s.members ident v0 else s.members }
  | _, _ => { s with rest := rest, out := s.out ++ if opts.allowBareLiterals then literalText ident else ident }

def outsideStep (opts : BoundaryOptions) (s : WalkState) (c : Char) (rest : Text) : WalkState :=
  if c = '"' then
    { s with
      rest := rest
      out := s.out ++ ['"']
      inString := true
      keySlice := if maybeKey opts s then some (rest, rest) else s.keySlice }
  else if c = '\'' ∧ opts.allowSingleQuotes then singleQuoteStep opts s rest
  else if c = '/' ∧ opts.allowComments then { s with rest := commentStep rest }
  else if c = ',' then
    let next := (rest.dropWhile isWhitespace).head?
    if opts.allowTrailingComma ∧ (next = some '}' ∨ next = some ']') then { s with rest := rest }
    else { s with rest := rest, out := s.out ++ [','] }
  else if c = '-' then
    let word := rest.takeWhile isWordChar
    if word ∈ ["Infinity".toList, "NaN".toList] then
      { s with rest := rest.dropWhile isWordChar, out := s.out ++ "null".toList }
    else { s with rest := rest, out := s.out ++ ['-'] }
  else if isIdentStart c then identStep opts s (c :: rest)
  else if c = '=' then
    { s with rest := rest, out := s.out ++ [if prevSignificant s.out = some '"' then ':' else '='] }
  else if c = ';' then { s with rest := rest }
  else if c = '{' ∨ c = '[' then { s with rest := rest, out := s.out ++ [c], depth := s.depth + 1 }
  else if c = '}' ∨ c = ']' then { s with rest := rest, out := s.out ++ [c], depth := s.depth - 1 }
  else { s with rest := rest, out := s.out ++ [c] }

def walkStep (opts : BoundaryOptions) (s : WalkState) : WalkState :=
  match s.rest with
  | [] => s
  | c :: rest => if s.inString then stringStep opts s c rest else outsideStep opts s c rest

def WalkState.start (raw : Text) : WalkState := ⟨raw, [], [], false, false, 0, none⟩

def walk (opts : BoundaryOptions) (raw : Text) : Text × List (Text × Text) :=
  let s := (walkStep opts)^[raw.length] (.start raw)
  (s.out, s.members)

structure BoundaryRepair where
  text : Text
  members : List (Text × Text)
deriving DecidableEq

def repairBoundary (raw : Text) (opts : BoundaryOptions) : BoundaryRepair :=
  let start :=
    if opts.schema.isSome then raw
    else
      match raw.dropWhile fun c => c ≠ '{' ∧ c ≠ '[' with
      | [] => raw
      | found => found
  let (text, members) := walk opts start
  ⟨text, members⟩

inductive BoundaryError where
  | noMembers
  | field (message : Text)
deriving DecidableEq

def extractMembers (raw : Text) (opts : BoundaryOptions) : Except BoundaryError (List (Text × Text)) :=
  let repair := repairBoundary raw opts
  if repair.members = [] then .error .noMembers else .ok repair.members

end Fluent.Wvr
