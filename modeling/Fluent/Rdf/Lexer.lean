import Mathlib.Data.List.Basic
import Fluent.Library.Utf8

namespace Fluent.Rdf

open Fluent.Library

abbrev Bytes := List UInt8

def ascii (c : Char) : UInt8 := c.toUInt8

def ofString (s : String) : Bytes := utf8 s.toList

inductive RdfError where
  | unterminatedIRI
  | unterminatedLiteral
  | invalidEscape
  | unexpectedChar (line col : UInt32)
  | unexpectedEOF
  | unexpectedToken (line col : UInt32) (expected got : Bytes)
  | invalidPrefix
deriving DecidableEq

inductive ScanError where
  | unterminatedIRI
  | unterminatedLiteral
  | invalidEscape
deriving DecidableEq

def ScanError.rdf : ScanError → RdfError
  | .unterminatedIRI => .unterminatedIRI
  | .unterminatedLiteral => .unterminatedLiteral
  | .invalidEscape => .invalidEscape

inductive TokenKind where
  | iri | prefixedName | blankNode | blankNodeOpen | blankNodeClose | literal | langTag | datatypeMarker | keyword
  | dot | semicolon | comma | openParen | closeParen | eof
deriving DecidableEq

def TokenKind.debug : TokenKind → Bytes
  | .iri => ofString "Iri"
  | .prefixedName => ofString "PrefixedName"
  | .blankNode => ofString "BlankNode"
  | .blankNodeOpen => ofString "BlankNodeOpen"
  | .blankNodeClose => ofString "BlankNodeClose"
  | .literal => ofString "Literal"
  | .langTag => ofString "LangTag"
  | .datatypeMarker => ofString "DatatypeMarker"
  | .keyword => ofString "Keyword"
  | .dot => ofString "Dot"
  | .semicolon => ofString "Semicolon"
  | .comma => ofString "Comma"
  | .openParen => ofString "OpenParen"
  | .closeParen => ofString "CloseParen"
  | .eof => ofString "Eof"

structure Token where
  kind : TokenKind
  value : Bytes
  line : UInt32
  col : UInt32
deriving DecidableEq

variable (b : UInt8)

def isAsciiAlphabetic : Bool := (65 ≤ b ∧ b ≤ 90) ∨ (97 ≤ b ∧ b ≤ 122)

def isAsciiDigit : Bool := 48 ≤ b ∧ b ≤ 57

def isNameEndChar : Bool :=
  b = ascii ' ' ∨ b = ascii '\t' ∨ b = ascii '\n' ∨ b = ascii '\r' ∨ b = ascii '.' ∨ b = ascii ';' ∨ b = ascii ',' ∨
    b = ascii ')' ∨ b = ascii ']'

def isPrefixStartChar : Bool := isAsciiAlphabetic b ∨ 127 < b

def isPrefixChar : Bool := isPrefixStartChar b ∨ isAsciiDigit b ∨ b = ascii '-' ∨ b = ascii '_'

def isLocalNameChar : Bool := isPrefixChar b ∨ b = ascii '.' ∨ b = ascii '%' ∨ b = ascii ':'

def isNameChar : Bool :=
  isAsciiAlphabetic b ∨ isAsciiDigit b ∨ b = ascii '_' ∨ b = ascii '-' ∨ b = ascii '.'

def isLangChar : Bool := isAsciiAlphabetic b ∨ b = ascii '-'

/-! Each scanner gives the number of bytes it goes over and the error it stops with. -/

def quotedEnd (close : UInt8) (escape : UInt8 → Bool) (unterminated : ScanError) : Bytes → Option ScanError × ℕ
  | [] => (some unterminated, 0)
  | c :: s =>
    if c = close then (none, 1)
    else if c = ascii '\\' then
      match s with
      | [] => (some .invalidEscape, 1)
      | e :: s =>
        if escape e then ((quotedEnd close escape unterminated s).1, (quotedEnd close escape unterminated s).2 + 2)
        else (some .invalidEscape, 1)
    else if c = ascii '\n' ∨ c = ascii '\r' then (some unterminated, 0)
    else ((quotedEnd close escape unterminated s).1, (quotedEnd close escape unterminated s).2 + 1)

def isIriEscape : Bool := b = ascii 'u' ∨ b = ascii 'U'

def iriEnd : Bytes → Option ScanError × ℕ := quotedEnd (ascii '>') isIriEscape .unterminatedIRI

def isEscape : Bool :=
  b = ascii 't' ∨ b = ascii 'n' ∨ b = ascii 'r' ∨ b = ascii '"' ∨ b = ascii '\'' ∨ b = ascii '\\' ∨ b = ascii 'u' ∨
    b = ascii 'U'

def literalEnd : Bytes → Option ScanError × ℕ := quotedEnd (ascii '"') isEscape .unterminatedLiteral

-- the loop asks for three more bytes; a backslash takes the byte after it along, whatever it is
def longEnd : Bytes → Option ScanError × ℕ
  | c :: d :: e :: s =>
    if c = ascii '"' ∧ d = ascii '"' ∧ e = ascii '"' then (none, 3)
    else if c = ascii '\\' then ((longEnd (e :: s)).1, (longEnd (e :: s)).2 + 2)
    else ((longEnd (d :: e :: s)).1, (longEnd (d :: e :: s)).2 + 1)
  | _ => (some .unterminatedLiteral, 0)

variable (s : Bytes)

def digitsEnd : ℕ := (s.takeWhile isAsciiDigit).length

def signEnd : Bytes → ℕ
  | c :: _ => if c = ascii '+' ∨ c = ascii '-' then 1 else 0
  | [] => 0

def fractionEnd : Bytes → ℕ
  | c :: d :: s => if c = ascii '.' ∧ isAsciiDigit d then 1 + digitsEnd (d :: s) else 0
  | _ => 0

def exponentEnd : Bytes → ℕ
  | c :: s => if c = ascii 'e' ∨ c = ascii 'E' then 1 + signEnd s + digitsEnd (s.drop (signEnd s)) else 0
  | [] => 0

def integerEnd : ℕ := signEnd s + digitsEnd (s.drop (signEnd s))

def decimalEnd : ℕ := integerEnd s + fractionEnd (s.drop (integerEnd s))

def numericEnd : ℕ := decimalEnd s + exponentEnd (s.drop (decimalEnd s))

def localEnd : Bytes → ℕ
  | c :: s => if c = ascii ':' then 1 + (s.takeWhile isLocalNameChar).length else 0
  | [] => 0

def prefixLen : ℕ := (s.takeWhile isPrefixChar).length

def prefixedEnd : ℕ := prefixLen s + localEnd (s.drop (prefixLen s))

def atKind (word : Bytes) : TokenKind :=
  if word = ofString "@prefix" ∨ word = ofString "@base" ∨ word = ofString "@PREFIX" ∨ word = ofString "@BASE" then
    .keyword
  else .langTag

def nameKind (word : Bytes) : TokenKind :=
  if word = ofString "PREFIX" ∨ word = ofString "BASE" ∨ word = ofString "true" ∨ word = ofString "false" then
    .keyword
  else .prefixedName

structure Scan where
  outcome : Except ScanError TokenKind
  length : ℕ

def Scan.ended (kind : TokenKind) (start : ℕ) (r : Option ScanError × ℕ) : Scan :=
  match r.1 with
  | none => ⟨.ok kind, start + r.2⟩
  | some e => ⟨.error e, start + r.2⟩

def Scan.token (kind : TokenKind) (length : ℕ) : Scan := ⟨.ok kind, length⟩

def scanLiteral : Scan :=
  if s.take 2 = [ascii '"', ascii '"'] then .ended .literal 3 (longEnd (s.drop 2))
  else .ended .literal 1 (literalEnd s)

def scanAt : Scan :=
  let n := 1 + (s.takeWhile isLangChar).length
  .token (atKind ((ascii '@' :: s).take n)) n

def scanPrefixedName : Scan := .token (nameKind (s.take (prefixedEnd s))) (prefixedEnd s)

def punctuation (c : UInt8) : Option TokenKind :=
  if c = ascii '[' then some .blankNodeOpen
  else if c = ascii ']' then some .blankNodeClose
  else if c = ascii ';' then some .semicolon
  else if c = ascii ',' then some .comma
  else if c = ascii '(' then some .openParen
  else if c = ascii ')' then some .closeParen
  else none

-- `none` when no token starts with the byte; the guards of the source's arms exclude one another but for the dot's
def scan (c : UInt8) (s : Bytes) : Option Scan :=
  if c = ascii '<' then some (.ended .iri 1 (iriEnd s))
  else if c = ascii '"' then some (scanLiteral s)
  else if c = ascii '_' ∧ s.head? = some (ascii ':') then
    some (.token .blankNode (2 + ((s.drop 1).takeWhile isNameChar).length))
  else if (punctuation c).isSome then (punctuation c).map fun kind => .token kind 1
  else if c = ascii '@' then some (scanAt s)
  else if c = ascii ':' then some (scanPrefixedName (c :: s))
  else if c = ascii '^' ∧ s.head? = some (ascii '^') then some (.token .datatypeMarker 2)
  else if c = ascii '.' ∧ s.head?.any isAsciiDigit then some (.token .literal (numericEnd (c :: s)))
  else if c = ascii '.' then some (.token .dot 1)
  else if c = ascii 'a' ∧ s.head?.all isNameEndChar then some (.token .keyword 1)
  else if c = ascii '+' ∨ c = ascii '-' ∨ isAsciiDigit c then some (.token .literal (numericEnd (c :: s)))
  else if isPrefixStartChar c then some (scanPrefixedName (c :: s))
  else none

def isBlank : Bool := b = ascii '\n' ∨ b = ascii '\r' ∨ b = ascii ' ' ∨ b = ascii '\t'

def blanks : Bool → Bytes → Bytes
  | _, [] => []
  | comment, c :: s =>
    if comment ∧ c ≠ ascii '\n' then c :: blanks true s
    else if c = ascii '#' then c :: blanks true s
    else if isBlank c then c :: blanks false s
    else []

structure Place where
  comment : Bool
  line : UInt32
  col : UInt32

def Place.skip (p : Place) (b : UInt8) : Place :=
  if b = ascii '\n' then ⟨false, p.line + 1, 1⟩
  else if p.comment ∨ b = ascii '#' then ⟨true, p.line, p.col + 1⟩
  else if b = ascii '\r' then p
  else ⟨false, p.line, p.col + 1⟩

def Place.advance (p : Place) (b : UInt8) : Place :=
  if b = ascii '\n' then ⟨p.comment, p.line + 1, 1⟩ else ⟨p.comment, p.line, p.col + 1⟩

def isCharBoundary : Bool := s.head?.all fun b => b < 0x80 ∨ 0xc0 ≤ b

inductive Fault where
  | error (e : RdfError)
  | panic
  | outOfFuel
deriving DecidableEq

structure Lexer where
  src : Bytes
  pos : ℕ
  line : UInt32
  col : UInt32

namespace Lexer

def new (src : Bytes) : Lexer := ⟨src, 0, 1, 1⟩

variable (l : Lexer)

def rest : Bytes := l.src.drop l.pos

def forward (n : ℕ) : Lexer :=
  let place := (l.rest.take n).foldl Place.advance ⟨false, l.line, l.col⟩
  ⟨l.src, l.pos + n, place.line, place.col⟩

def skipWhitespaceAndComments : Lexer :=
  let skipped := blanks false l.rest
  let place := skipped.foldl Place.skip ⟨false, l.line, l.col⟩
  ⟨l.src, l.pos + skipped.length, place.line, place.col⟩

-- the token is a slice of the text, which panics where an end of it is inside of a character
def slice (kind : TokenKind) (n : ℕ) : Except Fault Token :=
  if isCharBoundary l.rest ∧ isCharBoundary (l.rest.drop n) then .ok ⟨kind, l.rest.take n, l.line, l.col⟩
  else .error .panic

def finish (r : Scan) : Except Fault Token × Lexer :=
  match r.outcome with
  | .ok kind => (l.slice kind r.length, l.forward r.length)
  | .error e => (.error (.error e.rdf), l.forward r.length)

def tokenHere : Except Fault Token × Lexer :=
  match l.rest with
  | [] => (.ok ⟨.eof, [], l.line, l.col⟩, l)
  | c :: s =>
    match scan c s with
    | none => (.error (.error (.unexpectedChar l.line l.col)), l)
    | some r => l.finish r

def nextToken : Except Fault Token × Lexer := l.skipWhitespaceAndComments.tokenHere

theorem rest_forward (n : ℕ) : (l.forward n).rest = l.rest.drop n := by
  simp only [forward, rest, List.drop_drop]

theorem rest_skip : l.skipWhitespaceAndComments.rest = l.rest.drop (blanks false l.rest).length := by
  simp only [skipWhitespaceAndComments, rest, List.drop_drop]

end Lexer

end Fluent.Rdf
