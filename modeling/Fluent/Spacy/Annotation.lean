import Mathlib.Data.Int.Notation
import Fluent.Dag.TopoSort
import Fluent.Dag.Dependents
import Fluent.Spacy.Doc

open Fluent.Library Fluent.Dag

namespace Fluent.Spacy

structure AnnotationRecord where
  text : Text
  pos : Text
  tag : Text
  dep : Text
  head : Int32
  lemmaText : Text
  morph : Text
  entIob : Text
  entType : Text
deriving DecidableEq

abbrev AnnotationSet := List AnnotationRecord

inductive IobMarker where
  | outside
  | begin
  | unit
  | inside
  | last
deriving DecidableEq

def IobMarker.classify (trimmed : Text) : Option IobMarker :=
  if trimmed = [] ∨ trimmed = ['O'] ∨ trimmed = ['o'] then some .outside
  else if trimmed = ['B'] ∨ trimmed = ['b'] then some .begin
  else if trimmed = ['U'] ∨ trimmed = ['u'] then some .unit
  else if trimmed = ['I'] ∨ trimmed = ['i'] then some .inside
  else if trimmed = ['L'] ∨ trimmed = ['l'] then some .last
  else none

inductive BiluoFault where
  | unknownMarker (marker : Text)
  | closedByOutside
  | beginsBeforeClosed
  | requiresType (marker : IobMarker)
  | wrongType (marker : IobMarker) (openType : Text)
  | withoutBegin (marker : IobMarker)
  | endsWithoutLast
deriving DecidableEq

inductive ApplyFault where
  | recordCount (records tokens : ℕ)
  | invalidMarker (marker : Text) (token : ℕ)
  | headOutOfBounds (token : ℕ) (head : Int32) (abs : ℤ) (len : ℕ)
deriving DecidableEq

inductive AnnotationError where
  | countMismatch (expected got : ℕ)
  | textMismatch (index : ℕ) (expected got : Text)
  | unknownPos (pos : Text)
  | unknownDep (dep : Text)
  | headOutOfBounds (token : ℕ) (head : Int32) (len : ℕ)
  | selfLoop (token : ℕ)
  | rootHeadMismatch (token : ℕ) (head : Int32)
  | rootCount (expected found : ℕ)
  | unreachable (tokens : List ℕ)
  | cycle (path : List ℕ)
  | malformedBiluo (index : ℕ) (fault : BiluoFault)
  | nonProjective (token head : ℕ) (blocked : List ℕ)
  | apply (fault : ApplyFault)
  | emptyDocument
deriving DecidableEq

abbrev DepLabelSet := Finset Text

namespace DepLabelSet

def contains (labels : DepLabelSet) (label : Text) : Bool := Text.lower label ∈ labels

end DepLabelSet

def uposKnown (pos : Text) : Bool :=
  Upos.upos.any (fun p => p.asStr = pos) || (Upos.parse pos).any fun p => p ∈ Upos.upos

def isRootDep (dep : Text) : Bool := Text.lower dep = "root".toList

namespace AnnotationRecord

def headAbs (i : ℕ) (rec : AnnotationRecord) : ℤ := i + rec.head.toInt

def headIndex (i : ℕ) (rec : AnnotationRecord) : ℕ := (rec.headAbs i).toNat

end AnnotationRecord

section Checks

variable (records : AnnotationSet)

def eachRecord (check : ℕ → AnnotationRecord → Except AnnotationError Unit) :
    AnnotationSet → ℕ → Except AnnotationError Unit
  | [], _ => .ok ()
  | rec :: records, i =>
    match check i rec with
    | .error e => .error e
    | .ok () => eachRecord check records (i + 1)

def checkText (strings : StringStore) (doc : Doc) (i : ℕ) (rec : AnnotationRecord) : Except AnnotationError Unit :=
  let agrees : Bool := match (doc[i]?).bind fun t => strings.get t.lexeme.orth with
    | some stored => rec.text = stored
    | none => rec.text.isEmpty
  if agrees then .ok () else .error (.textMismatch i (doc.tokenText strings i) rec.text)

def checkVocabulary (labels : DepLabelSet) (rec : AnnotationRecord) : Except AnnotationError Unit :=
  if !uposKnown rec.pos then .error (.unknownPos rec.pos)
  else if !labels.contains rec.dep then .error (.unknownDep rec.dep)
  else .ok ()

def checkHead (len i : ℕ) (rec : AnnotationRecord) : Except AnnotationError Unit :=
  if rec.headAbs i < 0 ∨ len ≤ rec.headAbs i then .error (.headOutOfBounds i rec.head len)
  else if rec.head = 0 ∧ !isRootDep rec.dep then .error (.selfLoop i)
  else if isRootDep rec.dep ∧ rec.head ≠ 0 then .error (.rootHeadMismatch i rec.head)
  else .ok ()

def headGraph : AnnotationSet → ℕ → DependencyGraph ℕ → Except AnnotationError (DependencyGraph ℕ)
  | [], _, g => .ok g
  | rec :: records, i, g =>
    match g.register i (if isRootDep rec.dep then [] else [rec.headIndex i]) [i] with
    | .error _ => .error (.cycle [])
    | .ok g => headGraph records (i + 1) g

def rootsFrom : AnnotationSet → ℕ → List ℕ
  | [], _ => []
  | rec :: records, i => if isRootDep rec.dep then i :: rootsFrom records (i + 1) else rootsFrom records (i + 1)

def reachedFrom (g : DependencyGraph ℕ) (roots : List ℕ) : Finset ℕ :=
  (roots.flatMap fun i => i :: g.dependentsOf i).toFinset

def checkTree (hash : HashOrder ℕ) : Except AnnotationError Unit :=
  match headGraph records 0 .new with
  | .error e => .error e
  | .ok g =>
    match g.topoSort hash with
    | .error _ => .error (.cycle [])
    | .ok _ =>
      let unreached := (List.range records.length).filter fun i => i ∉ reachedFrom g (rootsFrom records 0)
      if unreached ≠ [] then .error (.unreachable unreached) else .ok ()

def checkMarker (i : ℕ) (rec : AnnotationRecord) (opened : Option (Text × Bool)) :
    Except AnnotationError (Option (Text × Bool)) :=
  let ty := Text.trim rec.entType
  match IobMarker.classify (Text.trim rec.entIob) with
  | none => .error (.malformedBiluo i (.unknownMarker (Text.upper (Text.trim rec.entIob))))
  | some .outside =>
    if opened.any fun o => !o.2 then .error (.malformedBiluo i .closedByOutside) else .ok none
  | some .inside => continueSpan i ty .inside opened
  | some .last => continueSpan i ty .last opened
  | some marker =>
    if opened.any fun o => !o.2 then .error (.malformedBiluo i .beginsBeforeClosed)
    else if ty.isEmpty then .error (.malformedBiluo i (.requiresType marker))
    else .ok (some (ty, marker == .unit))
where
  continueSpan (i : ℕ) (ty : Text) (marker : IobMarker) :
      Option (Text × Bool) → Except AnnotationError (Option (Text × Bool))
    | some (pty, closed) =>
      if !closed ∧ pty = ty then .ok (some (ty, marker == .last))
      else .error (.malformedBiluo i (.wrongType marker pty))
    | none => .error (.malformedBiluo i (.withoutBegin marker))

def checkSpans : AnnotationSet → ℕ → Option (Text × Bool) → Except AnnotationError Unit
  | [], i, opened => if opened.any fun o => !o.2 then .error (.malformedBiluo (i - 1) .endsWithoutLast) else .ok ()
  | rec :: records, i, opened =>
    match checkMarker i rec opened with
    | .error e => .error e
    | .ok opened => checkSpans records (i + 1) opened

def isDescendant (h : ℕ) : ℕ → ℕ → Bool
  | 0, _ => false
  | guard + 1, cur =>
    let head := (records[cur]?).elim cur fun rec => rec.headIndex cur
    if head = cur then false else if head = h then true else isDescendant h guard head

def checkEdge (i : ℕ) (rec : AnnotationRecord) : Except AnnotationError Unit :=
  if rec.head = 0 then .ok ()
  else
    let h := rec.headIndex i
    match (List.range (max i h)).find? fun j => min i h < j ∧ !isDescendant records h (records.length + 1) j with
    | some j => .error (.nonProjective i h [j])
    | none => .ok ()

end Checks

def validate (hash : HashOrder ℕ) (strings : StringStore) (doc : Doc) (records : AnnotationSet) (labels : DepLabelSet)
    (requireProjectivity : Bool) : Except AnnotationError Unit :=
  if doc.isEmpty then .error .emptyDocument
  else if records.length ≠ doc.length then .error (.countMismatch doc.length records.length)
  else do
    eachRecord (checkText strings doc) records 0
    eachRecord (fun _ rec => checkVocabulary labels rec) records 0
    eachRecord (checkHead records.length) records 0
    if rootsFrom records 0 = [] then .error (.rootCount 1 0)
    else do
      checkTree records hash
      checkSpans records 0 none
      if requireProjectivity then eachRecord (checkEdge records) records 0 else .ok ()

theorem eachRecord_ok_iff {check : ℕ → AnnotationRecord → Except AnnotationError Unit} {records : AnnotationSet}
    {k : ℕ} : eachRecord check records k = .ok () ↔
      ∀ i rec, records[i]? = some rec → check (k + i) rec = .ok () := by
  induction records generalizing k with
  | nil => simp [eachRecord]
  | cons rec records ih =>
    rw [eachRecord]
    constructor
    · intro h i r hr
      split at h
      · cases h
      · next hfirst =>
        cases i with
        | zero =>
          obtain rfl := Option.some.inj hr
          exact hfirst
        | succ i =>
          rw [Nat.add_comm i 1, ← Nat.add_assoc]
          exact ih.mp h i r hr
    · intro h
      have hfirst : check k rec = .ok () := h 0 rec rfl
      rw [hfirst]
      apply ih.mpr
      intro i r hr
      rw [Nat.add_assoc, Nat.add_comm 1 i]
      exact h (i + 1) r hr

theorem checkVocabulary_ok {labels : DepLabelSet} {rec : AnnotationRecord} :
    checkVocabulary labels rec = .ok () ↔ uposKnown rec.pos = true ∧ labels.contains rec.dep = true := by
  unfold checkVocabulary
  cases uposKnown rec.pos with
  | false => simp
  | true =>
    cases labels.contains rec.dep with
    | false => simp
    | true => simp

structure Passes (hash : HashOrder ℕ) (strings : StringStore) (doc : Doc) (records : AnnotationSet)
    (labels : DepLabelSet) (requireProjectivity : Bool) : Prop where
  nonempty : doc ≠ []
  count : records.length = doc.length
  texts : ∀ (i : ℕ) rec, records[i]? = some rec → checkText strings doc i rec = .ok ()
  vocabulary : ∀ (i : ℕ) rec, records[i]? = some rec → checkVocabulary labels rec = .ok ()
  heads : ∀ (i : ℕ) rec, records[i]? = some rec → checkHead records.length i rec = .ok ()
  roots : rootsFrom records 0 ≠ []
  tree : checkTree records hash = .ok ()
  spans : checkSpans records 0 none = .ok ()
  projective : requireProjectivity → ∀ (i : ℕ) rec, records[i]? = some rec → checkEdge records i rec = .ok ()

theorem bind_ok_iff {x : Except AnnotationError Unit} {f : Unit → Except AnnotationError Unit} :
    (x >>= f) = .ok () ↔ x = .ok () ∧ f () = .ok () := by
  cases x with
  | error e => simp [bind, Except.bind]
  | ok u => simp [bind, Except.bind]

theorem validate_ok_iff {hash : HashOrder ℕ} {strings : StringStore} {doc : Doc} {records : AnnotationSet}
    {labels : DepLabelSet} {proj : Bool} :
    validate hash strings doc records labels proj = .ok () ↔ Passes hash strings doc records labels proj := by
  have hproj : (if proj then eachRecord (checkEdge records) records 0 else .ok ()) = .ok () ↔
      (proj → ∀ (i : ℕ) rec, records[i]? = some rec → checkEdge records i rec = .ok ()) := by
    cases proj
    · simp
    · simp [eachRecord_ok_iff]
  have hroots : ∀ {x : Except AnnotationError Unit},
      (if rootsFrom records 0 = [] then .error (.rootCount 1 0) else x) = .ok () ↔
        rootsFrom records 0 ≠ [] ∧ x = .ok () := by
    intro x
    split <;> simp_all
  unfold validate
  split
  · next hempty =>
    constructor
    · rintro ⟨⟩
    · intro h
      exact absurd (List.isEmpty_iff.mp hempty) h.nonempty
  split
  · next hcount =>
    constructor
    · rintro ⟨⟩
    · intro h
      exact absurd h.count hcount
  next hne hcount =>
  rw [bind_ok_iff, bind_ok_iff, bind_ok_iff, hroots, bind_ok_iff, bind_ok_iff, hproj, eachRecord_ok_iff,
    eachRecord_ok_iff, eachRecord_ok_iff]
  simp only [Nat.zero_add]
  constructor
  · rintro ⟨htexts, hvocab, hheads, hroots, htree, hspans, hproj⟩
    exact ⟨fun h => hne (List.isEmpty_iff.mpr h), not_not.mp hcount, htexts, hvocab, hheads, hroots, htree,
      hspans, hproj⟩
  · intro h
    exact ⟨h.texts, h.vocabulary, h.heads, h.roots, h.tree, h.spans, h.projective⟩

structure AnnotationValidator where
  depLabels : DepLabelSet
  requireProjectivity : Bool

namespace AnnotationValidator

def validate (v : AnnotationValidator) (hash : HashOrder ℕ) (strings : StringStore) (doc : Doc)
    (records : AnnotationSet) : Except AnnotationError Unit :=
  Spacy.validate hash strings doc records v.depLabels v.requireProjectivity

end AnnotationValidator

end Fluent.Spacy
