import Mathlib.Data.Finset.Sort
import Mathlib.Data.List.Lex
import Mathlib.Data.Char
import Fluent.Spacy.Annotation

open Fluent.Library

namespace Fluent.Spacy

namespace Morphology

abbrev Features := HashMap Text Text

def sortedValues (value : Text) : Text := [','].intercalate ((value.splitOn ',').mergeSort fun a b => a ≤ b)

def featsToDict (feats : Text) : Features :=
  if feats = [] ∨ feats = ['_'] then ∅
  else (feats.splitOn '|').foldl (fun out feat =>
    match feat.dropWhile (· ≠ '=') with
    | [] => out
    | _ :: values => out.insert (feat.takeWhile (· ≠ '=')) (sortedValues values)) ∅

def sortedFields (feats : Features) : List Text := feats.keys.sort (· ≤ ·)

def dictToFeats (feats : Features) : Text :=
  if feats.keys = ∅ then ['_']
  else ['|'].intercalate ((sortedFields feats).map fun field =>
    field ++ '=' :: sortedValues ((feats.lookup field).getD []))

def normalizeValue (field value : Text) : Text :=
  if Text.upper field = "POS".toList then (Upos.parse value).elim value fun p => Text.upper p.asStr
  else sortedValues value

def normalizeAttrs (feats : Features) : Features :=
  (sortedFields feats).foldl
    (fun out field => out.insert field (normalizeValue field ((feats.lookup field).getD []))) ∅

def normalizeFeatures (features : Text) : Text :=
  if features = [] ∨ features = ['_'] then ['_'] else dictToFeats (normalizeAttrs (featsToDict features))

def add (strings : StringStore) (features : Text) : UInt64 × StringStore := strings.add (normalizeFeatures features)

end Morphology

namespace Doc

def headAbs (doc : Doc) (i : ℕ) : ℤ := i + (doc[i]?).elim 0 fun t => t.head.toInt

def headAt (doc : Doc) (i : ℕ) : ℕ := (doc.headAbs i).toNat

def widen (child head : TokenRecord) : TokenRecord :=
  { head with
    lEdge := if child.lEdge < head.lEdge then child.lEdge else head.lEdge
    rEdge := if head.rEdge < child.rEdge then child.rEdge else head.rEdge }

def linkChild (counts : ℕ → ℕ → Bool) (bump : TokenRecord → TokenRecord) (doc : Doc) (i : ℕ) : Doc :=
  match doc[i]? with
  | none => doc
  | some child =>
    let hi := doc.headAt i
    if hi = i then doc
    else doc.modify hi fun head => widen child (if counts i hi then bump head else head)

def addLeftKid (t : TokenRecord) : TokenRecord := { t with lKids := u32 (t.lKids + 1) }

def addRightKid (t : TokenRecord) : TokenRecord := { t with rKids := u32 (t.rKids + 1) }

def linkLeft (loopCount : ℕ) : Doc → ℕ → Doc := linkChild (fun i hi => loopCount = 0 ∧ i < hi) addLeftKid

def linkRight (loopCount : ℕ) : Doc → ℕ → Doc := linkChild (fun i hi => loopCount = 0 ∧ hi < i) addRightKid

def sentStarts (doc : Doc) : Finset ℕ := ((doc.filter fun t => t.head = 0).map (·.lEdge)).toFinset

def withinSegments (doc : Doc) : List ℕ → ℕ → Bool
  | [], _ => true
  | i :: rest, currStart =>
    if (0 < i ∧ u32 i ∈ doc.sentStarts) ∨ i = doc.length - 1 then
      (List.range' currStart (i - currStart)).all (fun j => currStart ≤ doc.headAbs j ∧ doc.headAbs j ≤ i) &&
        withinSegments doc rest i
    else withinSegments doc rest currStart

def setLrKidsAndEdges (doc : Doc) (loopCount : ℕ) : Doc × Bool :=
  let doc := (List.range doc.length).foldl (linkLeft loopCount) doc
  let doc := (List.range doc.length).reverse.foldl (linkRight loopCount) doc
  (doc, doc.withinSegments (List.range doc.length) 0)

def settle (doc : Doc) (loopCount : ℕ) : Doc :=
  let r := doc.setLrKidsAndEdges loopCount
  if r.2 ∨ 10 < loopCount then r.1 else settle r.1 (loopCount + 1)
termination_by 11 - loopCount

def resetKids (doc : Doc) : Doc :=
  doc.mapIdx fun i t => { t with lKids := 0, rKids := 0, lEdge := u32 i, rEdge := u32 i }

def markStart (doc : Doc) (i : ℕ) : Doc :=
  match doc[i]? with
  | none => doc
  | some t =>
    if t.head = 0 ∧ t.hasHead then doc.modify t.lEdge fun t => { t with sentStart := .start } else doc

def markStarts (doc : Doc) : Doc :=
  (List.range doc.length).foldl markStart (doc.map fun t => { t with sentStart := .notStart })

def setChildrenFromHeads (doc : Doc) : Except ApplyFault Doc :=
  match (List.range doc.length).find? fun i => doc.headAbs i < 0 ∨ doc.length ≤ doc.headAbs i with
  | some i => .error (.headOutOfBounds i ((doc[i]?).elim 0 (·.head)) (doc.headAbs i) doc.length)
  | none => .ok (doc.resetKids.settle 0).markStarts

end Doc

structure DocState where
  tokens : Doc
  strings : StringStore

namespace AnnotationRecord

variable (rec : AnnotationRecord)

def lemmaOrText : Text := if rec.lemmaText = [] then Text.lower rec.text else rec.lemmaText

def morphKey (strings : StringStore) : UInt64 × StringStore :=
  if rec.morph = [] then (0, strings) else Morphology.add strings rec.morph

def entIoB : Option EntIoB :=
  let marker := Text.upper (Text.trim rec.entIob)
  if marker = ['B'] ∨ marker = ['U'] then some .begin
  else if marker = ['I'] ∨ marker = ['L'] then some .inside
  else if marker = ['O'] ∨ marker = [] then some .outside
  else none

def entTypeKey : UInt64 := if rec.entType = [] then 0 else hashUtf8 rec.entType

def writeParse (pos : Upos) (morph : UInt64) (t : TokenRecord) : TokenRecord :=
  { t with
    pos := pos
    tag := hashUtf8 rec.tag
    dep := hashUtf8 rec.dep
    head := rec.head
    lemmaHash := hashUtf8 rec.lemmaOrText
    morph := morph }

def writeEntity (iob : EntIoB) (t : TokenRecord) : TokenRecord :=
  { t with
    entIob := iob
    entType := rec.entTypeKey }

end AnnotationRecord

-- an error leaves what was written before it
def attachRecord (st : DocState) (i : ℕ) (rec : AnnotationRecord) : Except AnnotationError Unit × DocState :=
  let morph := rec.morphKey st.strings
  let st := { st with strings := ((morph.2.add rec.dep).2.add rec.lemmaOrText).2 }
  match Upos.parse rec.pos with
  | none => (.error (.unknownPos rec.pos), st)
  | some pos =>
    let st := { st with tokens := st.tokens.modify i (rec.writeParse pos morph.1) }
    match rec.entIoB with
    | none => (.error (.apply (.invalidMarker (Text.upper (Text.trim rec.entIob)) i)), st)
    | some iob => (.ok (), { st with tokens := st.tokens.modify i (rec.writeEntity iob) })

def attachLoop : AnnotationSet → ℕ → DocState → Except AnnotationError Unit × DocState
  | [], _, st => (.ok (), st)
  | rec :: records, i, st =>
    match attachRecord st i rec with
    | (.error e, st) => (.error e, st)
    | (.ok (), st) => attachLoop records (i + 1) st

def attach (st : DocState) (records : AnnotationSet) : Except AnnotationError Unit × DocState :=
  if records.length ≠ st.tokens.length then
    (.error (.apply (.recordCount records.length st.tokens.length)), st)
  else
    match attachLoop records 0 st with
    | (.error e, st) => (.error e, st)
    | (.ok (), st) =>
      match st.tokens.setChildrenFromHeads with
      | .error e => (.error (.apply e), st)
      | .ok tokens => (.ok (), { st with tokens := tokens })

def applyWith (hash : HashOrder ℕ) (st : DocState) (records : AnnotationSet) (validator : AnnotationValidator) :
    Except AnnotationError Unit × DocState :=
  match validator.validate hash st.strings st.tokens records with
  | .error e => (.error e, st)
  | .ok () => attach st records

end Fluent.Spacy
