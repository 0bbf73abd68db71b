import Fluent.Spacy.DocArray
import Mathlib.Data.List.TakeWhile

open Fluent.Library

namespace Fluent.Spacy

inductive Slot where
  | word (value : UInt64)
  | pos (pos : Upos)
  | entIob (entIob : EntIoB)
  | head (head : Int32)
  | sentStart (sentStart : SentStart)
  | spacy (spacy : Bool)
  | idx (idx : ℕ)
  | interlingua (id : Option InterlinguaId)
  | confidence (bits : Option UInt64)
  | readOnly
deriving DecidableEq

abbrev Cell := Attribute × UInt64

def Cell.slot : Cell → Except ArrayError Slot
  | (.lemmaHash, value) | (.tag, value) | (.dep, value) | (.entType, value) | (.norm, value) | (.morph, value)
  | (.entKbId, value) | (.entId, value) => .ok (.word value)
  | (.pos, value) => (Upos.fromId value).map .pos
  | (.entIob, value) => (EntIoB.fromValue value).map .entIob
  | (.head, value) => .ok (.head value.toInt64.toInt32)
  | (.sentStart, value) => .ok (.sentStart (.ofU64 value))
  | (.spacy, value) => .ok (.spacy (value ≠ 0))
  | (.idx, value) => .ok (.idx value.toUInt32.toNat)
  | (.interlinguaLemmaId, value) | (.interlinguaEntityId, value) => .ok (.interlingua (TokenRecord.idOfValue value))
  | (.annotationConfidence, value) => .ok (.confidence (if value = 0 then none else some value))
  | (attr, _) => .error (.readOnlyAttribute attr.number)

def Cell.good (cell : Cell) : Bool := cell.slot.isOk

def lastCell (a : Attribute) : List Cell → Option UInt64
  | [] => none
  | cell :: cells => (lastCell a cells).or (if cell.1 = a then some cell.2 else none)

def writtenRows : List (List Cell) → List (List Cell)
  | [] => []
  | row :: rows => row.takeWhile Cell.good :: if row.all Cell.good then writtenRows rows else []

namespace TokenRecord

def slot (t : TokenRecord) : Attribute → Slot
  | .lemmaHash => .word t.lemmaHash
  | .tag => .word t.tag
  | .dep => .word t.dep
  | .entType => .word t.entType
  | .norm => .word t.norm
  | .morph => .word t.morph
  | .entKbId => .word t.entKbId
  | .entId => .word t.entId
  | .pos => .pos t.pos
  | .entIob => .entIob t.entIob
  | .head => .head t.head
  | .sentStart => .sentStart t.sentStart
  | .spacy => .spacy t.spacy
  | .idx => .idx t.idx
  | .interlinguaLemmaId => .interlingua t.interlinguaLemmaId
  | .interlinguaEntityId => .interlingua t.interlinguaEntityId
  | .annotationConfidence => .confidence t.confidence
  | _ => .readOnly

def unwritten (t : TokenRecord) : Lexeme × ℕ × ℕ × ℕ × ℕ := (t.lexeme, t.lKids, t.rKids, t.lEdge, t.rEdge)

def Holds (t : TokenRecord) (cells : List Cell) : Prop :=
  ∀ a value, lastCell a cells = some value → Cell.slot (a, value) = .ok (t.slot a)

def Writes (t : TokenRecord) (a : Attribute) (value : UInt64) : Except ArrayError Slot → Prop
  | .error e => t.setAttr a value = .error e
  | .ok s => ∃ t', t.setAttr a value = .ok t' ∧ t'.unwritten = t.unwritten ∧
      ∀ b, t'.slot b = if b = a then s else t.slot b

def writeCells (t : TokenRecord) : List Cell → TokenRecord × Option ArrayError
  | [] => (t, none)
  | cell :: cells =>
    match t.setAttr cell.1 cell.2 with
    | .ok t => t.writeCells cells
    | .error e => (t, some e)

variable {t t' : TokenRecord} {cells : List Cell}

theorem eq_of_slots (hu : t.unwritten = t'.unwritten) (hslot : ∀ a, t.slot a = t'.slot a) : t = t' := by
  have hlemma := hslot .lemmaHash
  have htag := hslot .tag
  have hdep := hslot .dep
  have hentType := hslot .entType
  have hnorm := hslot .norm
  have hmorph := hslot .morph
  have hentKbId := hslot .entKbId
  have hentId := hslot .entId
  have hpos := hslot .pos
  have hentIob := hslot .entIob
  have hhead := hslot .head
  have hsentStart := hslot .sentStart
  have hspacy := hslot .spacy
  have hidx := hslot .idx
  have hlemmaId := hslot .interlinguaLemmaId
  have hentityId := hslot .interlinguaEntityId
  have hconfidence := hslot .annotationConfidence
  cases t
  cases t'
  simp_all [slot, unwritten]

theorem setAttr_slot (t : TokenRecord) (a : Attribute) (value : UInt64) :
    t.Writes a value (Cell.slot (a, value)) := by
  have hone : ∀ (u : TokenRecord) (s : Slot), t.setAttr a value = .ok u → u.unwritten = t.unwritten → u.slot a = s →
      (∀ b, b ≠ a → u.slot b = t.slot b) → t.Writes a value (.ok s) := by
    intro u s hset hu hs hframe
    refine ⟨u, hset, hu, fun b => ?_⟩
    split
    · next h => rw [h, hs]
    · next h => exact hframe b h
  cases a with
  | pos =>
    simp only [Cell.slot, setAttr] at hone ⊢
    cases hpos : Upos.fromId value with
    | error e =>
      change t.setAttr .pos value = .error e
      rw [setAttr, hpos]
      rfl
    | ok p =>
      rw [hpos] at hone
      exact hone _ _ rfl rfl rfl fun b hb => by cases b <;> first | rfl | exact absurd rfl hb
  | entIob =>
    simp only [Cell.slot, setAttr] at hone ⊢
    cases hiob : EntIoB.fromValue value with
    | error e =>
      change t.setAttr .entIob value = .error e
      rw [setAttr, hiob]
      rfl
    | ok p =>
      rw [hiob] at hone
      exact hone _ _ rfl rfl rfl fun b hb => by cases b <;> first | rfl | exact absurd rfl hb
  | _ => first
    | rfl
    | exact hone _ _ rfl rfl rfl fun b hb => by cases b <;> first | rfl | exact absurd rfl hb

theorem good_iff (cell : Cell) : cell.good = true ↔ ∃ s, cell.slot = .ok s := by
  rw [Cell.good]
  cases cell.slot <;> simp [Except.isOk, Except.toBool]

theorem setAttr_ok_of_good {cell : Cell} (h : cell.good = true) :
    ∃ u, t.setAttr cell.1 cell.2 = .ok u ∧ u.unwritten = t.unwritten ∧
      ∃ s, cell.slot = .ok s ∧ ∀ b, u.slot b = if b = cell.1 then s else t.slot b := by
  obtain ⟨s, hs⟩ := (good_iff cell).mp h
  have hwrite := setAttr_slot t cell.1 cell.2
  rw [Prod.mk.eta, hs] at hwrite
  obtain ⟨u, hset, hu, hslot⟩ := hwrite
  exact ⟨u, hset, hu, s, hs, hslot⟩

theorem lastCell_cons_none {a : Attribute} {cell : Cell} :
    lastCell a (cell :: cells) = none ↔ lastCell a cells = none ∧ cell.1 ≠ a := by
  simp [lastCell]

theorem writeCells_good (h : ∀ cell ∈ cells, cell.good = true) :
    ∃ t', t.writeCells cells = (t', none) ∧ t'.unwritten = t.unwritten ∧
      ∀ a, (lastCell a cells = none → t'.slot a = t.slot a) ∧
        ∀ value, lastCell a cells = some value → Cell.slot (a, value) = .ok (t'.slot a) := by
  induction cells generalizing t with
  | nil => exact ⟨t, rfl, rfl, fun a => ⟨fun _ => rfl, fun value hv => by cases hv⟩⟩
  | cons cell cells ih =>
    obtain ⟨hcell, hcells⟩ := List.forall_mem_cons.mp h
    obtain ⟨u, hset, hu, s, hs, hslot⟩ := setAttr_ok_of_good (t := t) hcell
    obtain ⟨t', hrun, ht', hlast⟩ := ih (t := u) hcells
    refine ⟨t', by rw [writeCells, hset]; exact hrun, ht'.trans hu, fun a => ⟨fun hnone => ?_, fun value hv => ?_⟩⟩
    · obtain ⟨hnone, hne⟩ := lastCell_cons_none.mp hnone
      rw [(hlast a).1 hnone, hslot, if_neg hne.symm]
    · rw [lastCell, Option.or_eq_some_iff] at hv
      obtain hv | ⟨hnone, hv⟩ := hv
      · exact (hlast a).2 value hv
      · split at hv
        · next heq =>
          subst heq
          obtain rfl := Option.some.inj hv
          rw [(hlast _).1 hnone, hslot, if_pos rfl, Prod.mk.eta, hs]
        · cases hv

theorem setAttr_error_of_bad {cell : Cell} (h : ¬ cell.good = true) : ∃ e, t.setAttr cell.1 cell.2 = .error e := by
  have hwrite := setAttr_slot t cell.1 cell.2
  cases hs : cell.slot with
  | ok s => exact absurd ((good_iff cell).mpr ⟨s, hs⟩) h
  | error e =>
    rw [Prod.mk.eta, hs] at hwrite
    exact ⟨e, hwrite⟩

theorem writeCells_takeWhile (t : TokenRecord) (cells : List Cell) :
    ((t.writeCells cells).2 = none ↔ cells.all Cell.good = true) ∧
      (t.writeCells cells).1 = (t.writeCells (cells.takeWhile Cell.good)).1 := by
  induction cells generalizing t with
  | nil => exact ⟨by simp [writeCells], rfl⟩
  | cons cell cells ih =>
    by_cases hcell : cell.good = true
    · obtain ⟨u, hset, -⟩ := setAttr_ok_of_good (t := t) hcell
      rw [List.takeWhile_cons_of_pos hcell, List.all_cons, hcell, Bool.true_and, writeCells, writeCells, hset]
      exact ih u
    · obtain ⟨e, hset⟩ := setAttr_error_of_bad (t := t) hcell
      rw [List.takeWhile_cons_of_neg hcell]
      simp [writeCells, hset, hcell]

theorem writeCells_eq_self_iff (t : TokenRecord) (cells : List Cell) :
    (t.writeCells cells).1 = t ↔ t.Holds (cells.takeWhile Cell.good) := by
  rw [(writeCells_takeWhile t cells).2]
  have hgood : ∀ cell ∈ cells.takeWhile Cell.good, cell.good = true := fun _ => List.mem_takeWhile_imp
  obtain ⟨t', hrun, hu, hlast⟩ := writeCells_good (t := t) hgood
  rw [hrun]
  constructor
  · rintro rfl a value hv
    exact (hlast a).2 value hv
  · intro hholds
    refine eq_of_slots hu fun a => ?_
    cases hv : lastCell a (cells.takeWhile Cell.good) with
    | none => exact (hlast a).1 hv
    | some value => exact Except.ok.inj (((hlast a).2 value hv).symm.trans (hholds a value hv))

end TokenRecord

namespace Doc

def writeRows : Doc → List (List Cell) → Doc × Option ArrayError
  | t :: doc, row :: rows =>
    let (t, fault) := t.writeCells row
    match fault with
    | some e => (t :: doc, some e)
    | none =>
      let (doc, fault) := writeRows doc rows
      (t :: doc, fault)
  | doc, _ => (doc, none)

def cellRows (attrs : List Attribute) (array : List (List UInt64)) : List (List Cell) := array.map attrs.zip

def loadArray (doc : Doc) (attrs : List Attribute) (array : List (List UInt64)) : Doc × Option ArrayError :=
  match doc.arrayFault attrs array with
  | some e => (doc, some e)
  | none =>
    let (doc, fault) := doc.writeRows (cellRows attrs array)
    match fault with
    | some e => (doc, some e)
    | none =>
      if doc.Rebuilds attrs then
        match doc.setChildrenFromHeads with
        | .ok doc => (doc, none)
        | .error fault => (doc, some (.rebuild fault))
      else (doc, none)

def outcome : Doc × Option ArrayError → Except ArrayError Doc
  | (doc, none) => .ok doc
  | (_, some e) => .error e

theorem setAttrs_eq (t : TokenRecord) (attrs : List Attribute) (row : List UInt64) :
    t.setAttrs attrs row = (t.writeCells (attrs.zip row)).2.elim (.ok (t.writeCells (attrs.zip row)).1) .error := by
  induction attrs generalizing t row with
  | nil => rfl
  | cons a attrs ih =>
    cases row with
    | nil => rfl
    | cons value row =>
      rw [TokenRecord.setAttrs, List.zip_cons_cons, TokenRecord.writeCells]
      cases t.setAttr a value with
      | error e => rfl
      | ok u => exact ih u row

theorem writeRows_cons (t : TokenRecord) (doc : Doc) (row : List Cell) (rows : List (List Cell)) :
    writeRows (t :: doc) (row :: rows) =
      (t.writeCells row).2.elim ((t.writeCells row).1 :: (writeRows doc rows).1, (writeRows doc rows).2)
        fun e => ((t.writeCells row).1 :: doc, some e) := by
  rw [writeRows]
  generalize t.writeCells row = written
  obtain ⟨written, fault⟩ := written
  cases fault <;> rfl

theorem mapM_setAttrs (doc : Doc) (attrs : List Attribute) (array : List (List UInt64))
    (h : array.length = doc.length) :
    (doc.zip array).mapM (fun r => r.1.setAttrs attrs r.2) = outcome (doc.writeRows (cellRows attrs array)) := by
  induction doc generalizing array with
  | nil =>
    obtain rfl := List.length_eq_zero_iff.mp h
    rfl
  | cons t doc ih =>
    cases array with
    | nil => cases h
    | cons row array =>
      have hrows : cellRows attrs (row :: array) = attrs.zip row :: cellRows attrs array := rfl
      rw [List.zip_cons_cons, List.mapM_cons, ih array (Nat.succ.inj h), setAttrs_eq, hrows, writeRows_cons]
      cases (t.writeCells (attrs.zip row)).2 with
      | some e => rfl
      | none =>
        simp only [Option.elim_none]
        generalize writeRows doc (cellRows attrs array) = written
        obtain ⟨written, fault⟩ := written
        cases fault <;> rfl

theorem length_of_no_fault {doc : Doc} {attrs : List Attribute} {array : List (List UInt64)}
    (h : doc.arrayFault attrs array = none) : array.length = doc.length := by
  rw [arrayFault] at h
  split at h
  · cases h
  · next hne => exact not_not.mp hne

theorem fromArray_eq (doc : Doc) (attrs : List Attribute) (array : List (List UInt64)) :
    doc.fromArray attrs array = outcome (doc.loadArray attrs array) := by
  rw [fromArray, loadArray]
  cases hfault : doc.arrayFault attrs array with
  | some e => rfl
  | none =>
    dsimp only
    rw [mapM_setAttrs doc attrs array (length_of_no_fault hfault)]
    generalize doc.writeRows (cellRows attrs array) = written
    obtain ⟨written, fault⟩ := written
    cases fault with
    | some e => rfl
    | none =>
      change (if Rebuilds written attrs then _ else _) = _
      dsimp only
      split
      · cases setChildrenFromHeads written <;> rfl
      · rfl

theorem writeRows_eq_self_iff (doc : Doc) (rows : List (List Cell)) :
    (doc.writeRows rows).1 = doc ↔ ∀ p ∈ doc.zip (writtenRows rows), p.1.Holds p.2 := by
  induction doc generalizing rows with
  | nil => simp [writeRows]
  | cons t doc ih =>
    cases rows with
    | nil => simp [writeRows, writtenRows]
    | cons row rows =>
      obtain ⟨hfault, -⟩ := TokenRecord.writeCells_takeWhile t row
      have hrow := TokenRecord.writeCells_eq_self_iff t row
      rw [writeRows_cons, writtenRows, List.zip_cons_cons, List.forall_mem_cons, ← hrow]
      cases hout : (t.writeCells row).2 with
      | some e =>
        have hbad : row.all Cell.good = false := by
          rw [hout] at hfault
          simpa using hfault
        simp [hbad]
      | none =>
        rw [if_pos (hfault.mp hout), ← ih rows]
        simp

theorem from_array_error_unchanged_iff {doc : Doc} {attrs : List Attribute} {array : List (List UInt64)}
    {e : ArrayError} (h : doc.fromArray attrs array = .error e) :
    (doc.loadArray attrs array).1 = doc ↔
      doc.arrayFault attrs array ≠ none ∨
        ∀ p ∈ doc.zip (writtenRows (cellRows attrs array)), p.1.Holds p.2 := by
  rw [fromArray_eq] at h
  rw [← writeRows_eq_self_iff]
  rw [loadArray] at h ⊢
  cases hfault : doc.arrayFault attrs array with
  | some e => simp
  | none =>
    rw [hfault] at h
    simp only [ne_eq, not_true_eq_false, false_or] at h ⊢
    generalize doc.writeRows (cellRows attrs array) = written at h ⊢
    obtain ⟨written, fault⟩ := written
    cases fault with
    | some e => exact Iff.rfl
    | none =>
      dsimp only at h ⊢
      split at h
      · next hrebuild =>
        rw [if_pos hrebuild]
        cases hset : setChildrenFromHeads written with
        | ok out =>
          rw [hset] at h
          cases h
        | error fault => exact Iff.rfl
      · cases h

def unknownPosArray : List (List UInt64) := [[5, 1]]

theorem unknown_pos_unchanged_iff :
    (Doc.loadArray [TokenRecord.new Lexeme.empty] [.tag, .pos] unknownPosArray).1 = [TokenRecord.new Lexeme.empty] ↔
      Doc.arrayFault [TokenRecord.new Lexeme.empty] [.tag, .pos] unknownPosArray ≠ none ∨
        ∀ p ∈ List.zip [TokenRecord.new Lexeme.empty] (writtenRows (cellRows [.tag, .pos] unknownPosArray)),
          p.1.Holds p.2 :=
  from_array_error_unchanged_iff (e := .unknownPos "1".toList) (by decide +kernel)

theorem tag_written_before_error :
    Doc.loadArray [TokenRecord.new Lexeme.empty] [.tag, .pos] unknownPosArray =
      ([{ TokenRecord.new Lexeme.empty with tag := 5 }], some (.unknownPos "1".toList)) := by
  decide +kernel

end Doc

end Fluent.Spacy
