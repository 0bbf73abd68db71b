import Fluent.Library.HashContainers
import Fluent.Rdf.Lexer

namespace Fluent.Rdf

open Fluent.Library

structure Literal where
  value : Bytes
  lang : Option Bytes
  datatype : Option Bytes
deriving DecidableEq

/-- `place` is no field of the source: it says which of the blank nodes made the term stands for. -/
inductive Term where
  | iri (value : Bytes)
  | blankNode (id : Bytes) (place : ℕ)
  | literal (literal : Literal)
deriving DecidableEq

structure Triple where
  subject : Term
  predicate : Term
  object : Term
deriving DecidableEq

/-- `nodes` is no field of the source: it records the ids of the blank nodes in the order in which they are made, each
with the token it is made from. -/
structure Parser where
  lex : Lexer
  peeked : Option Token
  prefixMap : HashMap Bytes Bytes
  base : Option Bytes
  blankCounter : ℕ
  queue : List Triple
  nodes : List (Token × Bytes)

def rdfType : Bytes := ofString "http://www.w3.org/1999/02/22-rdf-syntax-ns#type"

def xsdNs : Bytes := ofString "http://www.w3.org/2001/XMLSchema#"

def extractIri (raw : Bytes) : Bytes :=
  if 2 ≤ raw.length ∧ raw.head? = some (ascii '<') ∧ raw.getLast? = some (ascii '>') then raw.tail.dropLast else raw

def quotes : Bytes := ofString "\"\"\""

def extractLiteralContent (raw : Bytes) : Bytes :=
  if 6 ≤ raw.length ∧ quotes <+: raw ∧ quotes <:+ raw then (raw.drop 3).take (raw.length - 6)
  else if 2 ≤ raw.length ∧ raw.head? = some (ascii '"') ∧ raw.getLast? = some (ascii '"') then raw.tail.dropLast
  else raw

abbrev Parse (α : Type) := ExceptT Fault (StateM Parser) α

namespace Parser

def new (src : Bytes) : Parser := ⟨.new src, none, ∅, none, 0, [], []⟩

def fromLexer (r : Except Fault Token × Lexer) (keep : Bool) : Parse Token := fun p =>
  match r with
  | (.ok t, l) => (.ok t, { p with lex := l, peeked := if keep then some t else none })
  | (.error e, l) => (.error e, { p with lex := l })

def peekTok : Parse Token := fun p =>
  match p.peeked with
  | some t => (.ok t, p)
  | none => fromLexer p.lex.nextToken true p

def consumeTok : Parse Token := fun p =>
  match p.peeked with
  | some t => (.ok t, { p with peeked := none })
  | none => fromLexer p.lex.nextToken false p

def fail {α : Type} (e : RdfError) : Parse α := fun p => (.error (.error e), p)

def outOfFuel {α : Type} : Parse α := fun p => (.error .outOfFuel, p)

def update (f : Parser → Parser) : Parse Unit := fun p => (.ok (), f p)

def inspect {α : Type} (f : Parser → α) : Parse α := fun p => (.ok (f p), p)

def unexpected {α : Type} (tok : Token) (expected got : Bytes) : Parse α :=
  fail (.unexpectedToken tok.line tok.col expected got)

def expectTok (kind : TokenKind) : Parse Token :=
  consumeTok >>= fun tok => if tok.kind ≠ kind then unexpected tok kind.debug tok.kind.debug else pure tok

def expandPrefixedName (prefixMap : HashMap Bytes Bytes) (raw : Bytes) : Bytes :=
  match raw.dropWhile (· ≠ ascii ':') with
  | _ :: rest =>
    match prefixMap.lookup (raw.takeWhile (· ≠ ascii ':')) with
    | some base => base ++ rest
    | none => raw
  | [] =>
    match prefixMap.lookup [] with
    | some base => base ++ raw
    | none => raw

def parsePrefix : Parse Unit :=
  consumeTok >>= fun nameTok =>
  if nameTok.kind ≠ .prefixedName ∧ nameTok.kind ≠ .keyword then
    unexpected nameTok (ofString "prefix name") nameTok.kind.debug
  else
    expectTok .iri >>= fun iriTok =>
    expectTok .dot >>= fun _ =>
    match nameTok.value.reverse.dropWhile (· ≠ ascii ':') with
    | [] => fail .invalidPrefix
    | _ :: label =>
      update fun p => { p with prefixMap := p.prefixMap.insert label.reverse (extractIri iriTok.value) }

def parseBase : Parse Unit :=
  expectTok .iri >>= fun iriTok =>
  expectTok .dot >>= fun _ =>
  update fun p => { p with base := some (extractIri iriTok.value) }

def datatypeIri (dtTok : Token) : Parse Bytes :=
  match dtTok.kind with
  | .iri => pure (extractIri dtTok.value)
  | .prefixedName => inspect fun p => expandPrefixedName p.prefixMap dtTok.value
  | _ => unexpected dtTok (ofString "datatype IRI") dtTok.kind.debug

def numericDatatype (raw : Bytes) : Bytes :=
  if ascii '.' ∈ raw ∨ ascii 'e' ∈ raw ∨ ascii 'E' ∈ raw then xsdNs ++ ofString "double" else xsdNs ++ ofString "integer"

def parseLiteralTerm (litTok : Token) : Parse (Option Term) :=
  if litTok.value.head? ≠ some (ascii '"') then
    pure (some (.literal ⟨litTok.value, none, some (numericDatatype litTok.value)⟩))
  else
    peekTok >>= fun pk =>
    if pk.kind = .langTag then
      consumeTok >>= fun _ =>
      pure (some (.literal ⟨extractLiteralContent litTok.value, some (pk.value.drop 1), none⟩))
    else if pk.kind = .datatypeMarker then
      consumeTok >>= fun _ => consumeTok >>= fun dtTok => datatypeIri dtTok >>= fun dtIri =>
      pure (some (.literal ⟨extractLiteralContent litTok.value, none, some dtIri⟩))
    else pure (some (.literal ⟨extractLiteralContent litTok.value, none, none⟩))

def makeBlank (tok : Token) (id : Bytes) : Parse Term := fun p =>
  (.ok (.blankNode id p.nodes.length), { p with nodes := p.nodes ++ [(tok, id)] })

def freshBlank (tok : Token) : Parse Term :=
  update (fun p => { p with blankCounter := p.blankCounter + 1 }) >>= fun _ =>
  inspect (fun p => p.blankCounter) >>= fun count => makeBlank tok (ascii 'b' :: ofString (toString count))

def insertTriple (pos : ℕ) (t : Triple) : Parse Unit :=
  update fun p => { p with queue := p.queue.take pos ++ t :: p.queue.drop pos }

def orEof (term : Option Term) : Parse Term :=
  match term with
  | some t => pure t
  | none => fail .unexpectedEOF

def parseTermAt (inlineBlankNode : Parse (Option Term)) (tok : Token) : Parse (Option Term) :=
  match tok.kind with
  | .iri => consumeTok >>= fun _ => pure (some (.iri (extractIri tok.value)))
  | .prefixedName => consumeTok >>= fun _ => inspect fun p => some (.iri (expandPrefixedName p.prefixMap tok.value))
  | .blankNode => consumeTok >>= fun _ => makeBlank tok (tok.value.drop 2) >>= fun term => pure (some term)
  | .blankNodeOpen => inlineBlankNode
  | .literal => consumeTok >>= fun _ => parseLiteralTerm tok
  | .keyword =>
    if tok.value = ofString "true" ∨ tok.value = ofString "false" then
      consumeTok >>= fun _ => pure (some (.literal ⟨tok.value, none, some (xsdNs ++ ofString "boolean")⟩))
    else pure none
  | _ => pure none

mutual

def parseTerm : ℕ → Parse (Option Term)
  | 0 => outOfFuel
  | fuel + 1 => peekTok >>= fun tok => parseTermAt (parseInlineBlankNode fuel) tok

def parseInlineBlankNode : ℕ → Parse (Option Term)
  | 0 => outOfFuel
  | fuel + 1 =>
    expectTok .blankNodeOpen >>= fun tok =>
    freshBlank tok >>= fun term =>
    peekTok >>= fun pk =>
    (if pk.kind ≠ .blankNodeClose then collectPredicateObjectList fuel term else pure ()) >>= fun _ =>
    expectTok .blankNodeClose >>= fun _ => pure (some term)

def parseVerb : ℕ → Parse (Option Term)
  | 0 => outOfFuel
  | fuel + 1 =>
    peekTok >>= fun tok =>
    if tok.kind = .dot ∨ tok.kind = .eof ∨ tok.kind = .blankNodeClose then pure none
    else if tok.kind = .keyword ∧ tok.value = ofString "a" then consumeTok >>= fun _ => pure (some (.iri rdfType))
    else parseTerm fuel

def collectPredicateObjectList : ℕ → Term → Parse Unit
  | 0, _ => outOfFuel
  | fuel + 1, subj =>
    parseVerb fuel >>= fun verb =>
    match verb with
    | none => pure ()
    | some verb =>
      collectObjects fuel subj verb >>= fun _ =>
      peekTok >>= fun pk =>
      if pk.kind = .semicolon then
        consumeTok >>= fun _ => peekTok >>= fun pk2 =>
        if pk2.kind = .dot ∨ pk2.kind = .eof ∨ pk2.kind = .blankNodeClose then pure ()
        else collectPredicateObjectList fuel subj
      else pure ()

def collectObjects : ℕ → Term → Term → Parse Unit
  | 0, _, _ => outOfFuel
  | fuel + 1, subj, verb =>
    inspect (fun p => p.queue.length) >>= fun insertPos =>
    parseTerm fuel >>= fun term => orEof term >>= fun obj =>
    insertTriple insertPos ⟨subj, verb, obj⟩ >>= fun _ =>
    peekTok >>= fun pk =>
    if pk.kind = .comma then consumeTok >>= fun _ => collectObjects fuel subj verb else pure ()

end

def parseStatement (fuel : ℕ) : Parse Unit :=
  parseTerm fuel >>= fun term => orEof term >>= fun subj =>
  collectPredicateObjectList fuel subj >>= fun _ =>
  peekTok >>= fun pk => if pk.kind = .dot then consumeTok >>= fun _ => pure () else pure ()

def parseDirective (kw : Token) : Parse Unit :=
  if kw.value = ofString "@prefix" ∨ kw.value = ofString "PREFIX" then parsePrefix
  else if kw.value = ofString "@base" ∨ kw.value = ofString "BASE" then parseBase
  else unexpected kw (ofString "directive") kw.value

def popFront : Parse (Option Triple) := fun p => (.ok p.queue.head?, { p with queue := p.queue.tail })

def advance (fuel : ℕ) (again : Parse (Option Triple)) (tok : Token) : Parse (Option Triple) :=
  match tok.kind with
  | .eof => pure none
  | .keyword => consumeTok >>= fun kw => parseDirective kw >>= fun _ => again
  | _ => parseStatement fuel >>= fun _ => again

def orElse (popped : Option Triple) (otherwise : Parse (Option Triple)) : Parse (Option Triple) :=
  match popped with
  | some triple => pure (some triple)
  | none => otherwise

def nextTriple : ℕ → Parse (Option Triple)
  | 0 => outOfFuel
  | fuel + 1 => popFront >>= fun popped => orElse popped (peekTok >>= advance fuel (nextTriple fuel))

inductive Call where
  | item (r : Except RdfError Triple)
  | done
  | panic
  | outOfFuel
deriving DecidableEq

def Call.of : Except Fault (Option Triple) → Call
  | .ok (some triple) => .item (.ok triple)
  | .ok none => .done
  | .error (.error e) => .item (.error e)
  | .error .panic => .panic
  | .error .outOfFuel => .outOfFuel

def next (fuel : ℕ) (p : Parser) : Call × Parser := (Call.of (nextTriple fuel p).1, (nextTriple fuel p).2)

def after (fuel : ℕ) (src : Bytes) (n : ℕ) : Parser := (fun p => (next fuel p).2)^[n] (new src)

end Parser

end Fluent.Rdf
