import Fluent.Library.Fallible
import Fluent.Spacy.DocTree

open Fluent.Library

namespace Fluent.Spacy

inductive Attribute where
  | flag (bit : Fin 55)
  | id
  | orth
  | lower
  | norm
  | shape
  | prefixHash
  | suffixHash
  | length
  | cluster
  | lemmaHash
  | pos
  | tag
  | dep
  | entIob
  | entType
  | head
  | sentStart
  | spacy
  | prob
  | lang
  | entKbId
  | morph
  | entId
  | idx
  | sentEnd
  | interlinguaLemmaId
  | interlinguaEntityId
  | annotationConfidence
  | other (id : UInt16)
deriving DecidableEq

def Attribute.number : Attribute → ℕ
  | flag bit => bit + 1
  | id => 64
  | orth => 65
  | lower => 66
  | norm => 67
  | shape => 68
  | prefixHash => 69
  | suffixHash => 70
  | length => 71
  | cluster => 72
  | lemmaHash => 73
  | pos => 74
  | tag => 75
  | dep => 76
  | entIob => 77
  | entType => 78
  | head => 79
  | sentStart => 80
  | spacy => 81
  | prob => 82
  | lang => 83
  | entKbId => 84
  | morph => 85
  | entId => 86
  | idx => 87
  | sentEnd => 88
  | interlinguaLemmaId => 89
  | interlinguaEntityId => 90
  | annotationConfidence => 91
  | other n => n.toNat

inductive ArrayError where
  | arrayLengthMismatch (array doc : ℕ)
  | headOutOfBounds (token : ℕ) (head : Int32) (abs : ℤ) (len : ℕ)
  | invalidEntIob (value : UInt64)
  | unknownPos (pos : Text)
  | unknownAttribute (id : ℕ)
  | readOnlyAttribute (id : ℕ)
  | rebuild (fault : ApplyFault)
deriving DecidableEq

namespace Upos

def id : Upos → UInt64
  | noTag => 0
  | adj => 84
  | adp => 85
  | adv => 86
  | aux => 87
  | conj => 88
  | cconj => 89
  | det => 90
  | intj => 91
  | noun => 92
  | num => 93
  | part => 94
  | pron => 95
  | propn => 96
  | punct => 97
  | sconj => 98
  | sym => 99
  | verb => 100
  | x => 101
  | eol => 102
  | space => 103

def fromId (value : UInt64) : Except ArrayError Upos :=
  match all.find? fun p => p.id = value with
  | some p => .ok p
  | none => .error (.unknownPos (Nat.repr value.toNat).toList)

theorem fromId_id (p : Upos) : fromId p.id = .ok p := by
  cases p <;> decide

end Upos

namespace EntIoB

def id : EntIoB → UInt8
  | missing => 0
  | inside => 1
  | outside => 2
  | begin => 3

def fromId : UInt8 → Except ArrayError EntIoB
  | 0 => .ok missing
  | 1 => .ok inside
  | 2 => .ok outside
  | 3 => .ok begin
  | other => .error (.invalidEntIob other.toUInt64)

def fromValue (value : UInt64) : Except ArrayError EntIoB :=
  if value < 256 then fromId value.toUInt8 else .error (.invalidEntIob value)

theorem fromValue_id (e : EntIoB) : fromValue e.id.toUInt64 = .ok e := by
  cases e <;> decide

end EntIoB

namespace SentStart

def toI8 : SentStart → Int8
  | notStart => -1
  | unset => 0
  | start => 1

def ofI8 (value : Int8) : SentStart :=
  if value = -1 then notStart else if value = 1 then start else unset

def toU64 (s : SentStart) : UInt64 := s.toI8.toInt64.toUInt64

def ofU64 (value : UInt64) : SentStart := ofI8 value.toInt64.toInt8

theorem ofU64_toU64 (s : SentStart) : ofU64 s.toU64 = s := by
  cases s <;> decide

end SentStart

namespace TokenRecord

def idValue (id : Option InterlinguaId) : UInt64 := id.elim 0 InterlinguaId.bits

def idOfValue (value : UInt64) : Option InterlinguaId := if value = 0 then none else some ⟨value⟩

def getAttr (t : TokenRecord) : Attribute → Except ArrayError UInt64
  | .flag bit => .ok (t.lexeme.flags.check (bit + 1 : ℕ).toUInt64).toUInt64
  | .id => .ok t.lexeme.values.id
  | .orth => .ok t.lexeme.orth
  | .lower => .ok t.lexeme.values.lower
  | .norm => .ok (if t.norm = 0 then t.lexeme.values.norm else t.norm)
  | .shape => .ok t.lexeme.values.shape
  | .prefixHash => .ok t.lexeme.values.prefixHash
  | .suffixHash => .ok t.lexeme.values.suffixHash
  | .length => .ok (u32 t.lexeme.length).toUInt64
  | .cluster => .ok 0
  | .prob => .ok 0
  | .sentEnd => .ok 0
  | .lemmaHash => .ok t.lemmaHash
  | .pos => .ok t.pos.id
  | .tag => .ok t.tag
  | .dep => .ok t.dep
  | .entIob => .ok t.entIob.id.toUInt64
  | .entType => .ok t.entType
  | .head => .ok t.head.toInt64.toUInt64
  | .sentStart => .ok t.sentStart.toU64
  | .spacy => .ok t.spacy.toUInt64
  | .lang => .ok t.lexeme.values.lang
  | .entKbId => .ok t.entKbId
  | .morph => .ok t.morph
  | .entId => .ok t.entId
  | .idx => .ok (u32 t.idx).toUInt64
  | .interlinguaLemmaId => .ok (idValue t.interlinguaLemmaId)
  | .interlinguaEntityId => .ok (idValue t.interlinguaEntityId)
  | .annotationConfidence => .ok (t.confidence.getD 0)
  | .other id => .error (.unknownAttribute id.toNat)

def setAttr (t : TokenRecord) (attr : Attribute) (value : UInt64) : Except ArrayError TokenRecord :=
  match attr with
  | .lemmaHash => .ok { t with lemmaHash := value }
  | .pos => (Upos.fromId value).map fun pos => { t with pos := pos }
  | .tag => .ok { t with tag := value }
  | .dep => .ok { t with dep := value }
  | .entIob => (EntIoB.fromValue value).map fun entIob => { t with entIob := entIob }
  | .entType => .ok { t with entType := value }
  | .head => .ok { t with head := value.toInt64.toInt32 }
  | .sentStart => .ok { t with sentStart := .ofU64 value }
  | .spacy => .ok { t with spacy := value ≠ 0 }
  | .norm => .ok { t with norm := value }
  | .morph => .ok { t with morph := value }
  | .entKbId => .ok { t with entKbId := value }
  | .entId => .ok { t with entId := value }
  | .idx => .ok { t with idx := value.toUInt32.toNat }
  | .interlinguaLemmaId => .ok { t with interlinguaLemmaId := idOfValue value }
  | .interlinguaEntityId => .ok { t with interlinguaEntityId := idOfValue value }
  | .annotationConfidence => .ok { t with confidence := if value = 0 then none else some value }
  | _ => .error (.readOnlyAttribute attr.number)

def setAttrs : TokenRecord → List Attribute → List UInt64 → Except ArrayError TokenRecord
  | t, a :: attrs, value :: row => do
    let t ← t.setAttr a value
    t.setAttrs attrs row
  | t, _, _ => .ok t

variable {s t t' : TokenRecord} {a b : Attribute} {v : UInt64}

theorem exists_of_map_ok {α β : Type} {e : Except ArrayError α} {f : α → β} {y : β} (h : e.map f = .ok y) :
    ∃ x, e = .ok x ∧ f x = y := by
  cases e with
  | error e => cases h
  | ok x => exact ⟨x, rfl, Except.ok.inj h⟩

theorem setAttr_frame (h : t.setAttr a v = .ok t') :
    t'.lexeme = t.lexeme ∧ ∀ b, b ≠ a → t'.getAttr b = t.getAttr b := by
  have hfield : ∀ u : TokenRecord, u = t' → u.lexeme = t.lexeme → (∀ b, b ≠ a → u.getAttr b = t.getAttr b) →
      t'.lexeme = t.lexeme ∧ ∀ b, b ≠ a → t'.getAttr b = t.getAttr b := by
    rintro u rfl hl hb
    exact ⟨hl, hb⟩
  cases a with
  | pos =>
    obtain ⟨p, -, rfl⟩ := exists_of_map_ok h
    exact ⟨rfl, fun b hb => by cases b <;> first | rfl | exact absurd rfl hb⟩
  | entIob =>
    obtain ⟨p, -, rfl⟩ := exists_of_map_ok h
    exact ⟨rfl, fun b hb => by cases b <;> first | rfl | exact absurd rfl hb⟩
  | _ => first
    | cases h
      done
    | exact hfield _ (Except.ok.inj h) rfl fun b hb => by cases b <;> first | rfl | exact absurd rfl hb

theorem idValue_idOfValue (v : UInt64) : idValue (idOfValue v) = v := by
  unfold idOfValue
  split
  · next h => exact h.symm
  · rfl

theorem getAttr_setAttr (hlexeme : t.lexeme = s.lexeme) (hv : s.getAttr a = .ok v) (h : t.setAttr a v = .ok t') :
    t'.getAttr a = .ok v := by
  cases a with
  | pos =>
    obtain rfl := Except.ok.inj hv
    rw [setAttr, Upos.fromId_id] at h
    obtain rfl := Except.ok.inj h
    rfl
  | entIob =>
    obtain rfl := Except.ok.inj hv
    rw [setAttr, EntIoB.fromValue_id] at h
    obtain rfl := Except.ok.inj h
    rfl
  | head =>
    obtain rfl := Except.ok.inj hv
    obtain rfl := Except.ok.inj h
    simp [getAttr]
  | sentStart =>
    obtain rfl := Except.ok.inj hv
    obtain rfl := Except.ok.inj h
    exact congrArg (fun x => Except.ok x.toU64) (SentStart.ofU64_toU64 s.sentStart)
  | spacy =>
    obtain rfl := Except.ok.inj hv
    obtain rfl := Except.ok.inj h
    have hbool : ∀ b : Bool, (decide (b.toUInt64 ≠ 0)).toUInt64 = b.toUInt64 := by decide
    exact congrArg Except.ok (hbool s.spacy)
  | norm =>
    obtain rfl := Except.ok.inj h
    rw [← hv, getAttr, getAttr, hlexeme]
    have hv := Except.ok.inj hv
    dsimp only at hv ⊢
    split
    · next h0 =>
      rw [h0] at hv
      split at hv
      · next hs => rw [if_pos hs]
      · next hs => exact absurd hv hs
    · rw [hv]
  | idx =>
    obtain rfl := Except.ok.inj hv
    obtain rfl := Except.ok.inj h
    apply congrArg Except.ok
    apply UInt64.toNat_inj.mp
    simp [u32]
  | interlinguaLemmaId =>
    obtain rfl := Except.ok.inj h
    exact congrArg Except.ok (idValue_idOfValue v)
  | interlinguaEntityId =>
    obtain rfl := Except.ok.inj h
    exact congrArg Except.ok (idValue_idOfValue v)
  | annotationConfidence =>
    obtain rfl := Except.ok.inj h
    apply congrArg Except.ok
    dsimp only
    split
    · next h0 => exact h0.symm
    · rfl
  | _ => first
    | cases h
      done
    | obtain rfl := Except.ok.inj h
      rfl

theorem setAttrs_agree {attrs : List Attribute} {row : List UInt64} (hlexeme : t.lexeme = s.lexeme)
    (hrow : attrs.mapM s.getAttr = .ok row) (h : t.setAttrs attrs row = .ok t') :
    ∀ a, (a ∈ attrs → t'.getAttr a = s.getAttr a) ∧ (a ∉ attrs → t'.getAttr a = t.getAttr a) := by
  have hforall := mapM_ok hrow
  clear hrow
  induction hforall generalizing t with
  | nil =>
    obtain rfl := Except.ok.inj h
    simp
  | @cons b v attrs row hv hrest ih =>
    rw [setAttrs] at h
    cases hset : t.setAttr b v with
    | error e => rw [hset] at h; cases h
    | ok u =>
      rw [hset] at h
      obtain ⟨hl, hframe⟩ := setAttr_frame hset
      have hu := ih (hl.trans hlexeme) h
      intro a
      by_cases hmem : a ∈ attrs
      · exact ⟨fun _ => (hu a).1 hmem, fun hnot => absurd (List.mem_cons_of_mem b hmem) hnot⟩
      · refine ⟨fun ha => ?_, fun hnot => ?_⟩
        · obtain rfl := (List.mem_cons.mp ha).resolve_right hmem
          rw [(hu a).2 hmem, getAttr_setAttr hlexeme hv hset, hv]
        · rw [(hu a).2 hmem, hframe a fun heq => hnot (heq ▸ List.mem_cons_self)]

theorem mapM_getAttr {attrs : List Attribute} (h : ∀ a ∈ attrs, t.getAttr a = s.getAttr a) :
    attrs.mapM t.getAttr = attrs.mapM s.getAttr := by
  induction attrs with
  | nil => rfl
  | cons a attrs ih =>
    rw [List.mapM_cons, List.mapM_cons, h a List.mem_cons_self, ih fun b hb => h b (List.mem_cons_of_mem a hb)]

theorem getAttr_stripped (ha : a ≠ .sentStart) : t.stripped.getAttr a = t.getAttr a := by
  cases a <;> first | rfl | exact absurd rfl ha

end TokenRecord

namespace Doc

def toArray (doc : Doc) (attrs : List Attribute) : Except ArrayError (List (List UInt64)) :=
  doc.mapM fun t => attrs.mapM t.getAttr

def headOf (row : List UInt64) (col : ℕ) : Int32 := ((row[col]?).getD 0).toInt64.toInt32

def headFault (n : ℕ) (array : List (List UInt64)) (col : ℕ) : Option ArrayError :=
  (array.zipIdx.find? fun r => r.2 + (headOf r.1 col).toInt < 0 ∨ n ≤ r.2 + (headOf r.1 col).toInt).map fun r =>
    .headOutOfBounds r.2 (headOf r.1 col) (r.2 + (headOf r.1 col).toInt) n

def entIobFault (array : List (List UInt64)) (col : ℕ) : Option ArrayError :=
  ((array.filterMap (·[col]?)).find? fun value => 4 ≤ value).map .invalidEntIob

def arrayFault (doc : Doc) (attrs : List Attribute) (array : List (List UInt64)) : Option ArrayError :=
  if array.length ≠ doc.length then some (.arrayLengthMismatch array.length doc.length)
  else ((attrs.idxOf? .head).bind (headFault doc.length array)).or ((attrs.idxOf? .entIob).bind (entIobFault array))

def Rebuilds (doc : Doc) (attrs : List Attribute) : Prop := .head ∈ attrs ∧ .dep ∈ attrs ∧ ∃ t ∈ doc, t.dep ≠ 0

instance (doc : Doc) (attrs : List Attribute) : Decidable (doc.Rebuilds attrs) :=
  inferInstanceAs (Decidable (_ ∧ _ ∧ _))

def fromArray (doc : Doc) (attrs : List Attribute) (array : List (List UInt64)) : Except ArrayError Doc :=
  match doc.arrayFault attrs array with
  | some e => .error e
  | none => do
    let doc : Doc ← (doc.zip array).mapM fun r => r.1.setAttrs attrs r.2
    if doc.Rebuilds attrs then doc.setChildrenFromHeads.mapError .rebuild else pure doc

def keptColumns (doc : Doc) (attrs : List Attribute) : List Attribute :=
  if doc.Rebuilds attrs then attrs.filter (· ≠ .sentStart) else attrs

def Agree (attrs : List Attribute) : Doc → Doc → Prop :=
  List.Forall₂ fun s t => ∀ a ∈ attrs, t.getAttr a = s.getAttr a

variable {d d₂ loaded : Doc} {attrs : List Attribute} {array : List (List UInt64)}

theorem Agree.toArray_eq (h : Agree attrs d loaded) : loaded.toArray attrs = d.toArray attrs := by
  induction h with
  | nil => rfl
  | @cons s t d loaded hst _ ih =>
    have hrow : attrs.mapM t.getAttr = attrs.mapM s.getAttr := TokenRecord.mapM_getAttr hst
    rw [toArray, toArray, List.mapM_cons, List.mapM_cons, hrow]
    rw [toArray, toArray] at ih
    rw [ih]

theorem agree_loaded (hlexeme : d₂.map TokenRecord.lexeme = d.map TokenRecord.lexeme)
    (harray : d.toArray attrs = .ok array)
    (hload : (d₂.zip array).mapM (fun r => r.1.setAttrs attrs r.2) = .ok loaded) : Agree attrs d loaded := by
  have hrows := mapM_ok harray
  clear harray
  induction hrows generalizing d₂ loaded with
  | nil =>
    obtain rfl : [] = loaded := by simpa using mapM_ok hload
    exact .nil
  | @cons s row d array hrow hrest ih =>
    cases d₂ with
    | nil => cases hlexeme
    | cons t d₂ =>
      obtain ⟨hst, hlexeme⟩ := List.cons.inj hlexeme
      rw [List.zip_cons_cons, List.mapM_cons] at hload
      obtain ⟨t', ht', hload⟩ := bind_ok hload
      obtain ⟨ts, hts, hload⟩ := bind_ok hload
      obtain rfl : t' :: ts = loaded := Except.ok.inj hload
      exact .cons (fun a ha => (TokenRecord.setAttrs_agree hst hrow ht' a).1 ha) (ih hlexeme hts)

theorem Agree.rebuilds (h : Agree attrs d loaded) : loaded.Rebuilds attrs ↔ d.Rebuilds attrs := by
  apply and_congr_right'
  apply and_congr_right
  intro hdep
  have hmap : loaded.map TokenRecord.dep = d.map TokenRecord.dep := by
    induction h with
    | nil => rfl
    | cons hst _ ih => rw [List.map_cons, List.map_cons, ih, Except.ok.inj (hst .dep hdep)]
  have hmem : ∀ doc : Doc, (∃ t ∈ doc, t.dep ≠ 0) ↔ ∃ x ∈ doc.map TokenRecord.dep, x ≠ 0 := by simp
  rw [hmem, hmem, hmap]

theorem Agree.trans_sameBut {doc : Doc} (h : Agree attrs d loaded) (hsame : SameBut loaded doc) :
    Agree (attrs.filter (· ≠ .sentStart)) d doc := by
  induction h generalizing doc with
  | nil =>
    obtain rfl := List.map_eq_nil_iff.mp hsame
    exact .nil
  | @cons s t d loaded hst _ ih =>
    cases doc with
    | nil => cases hsame
    | cons t' doc =>
      obtain ⟨ht, hsame⟩ := List.cons.inj hsame
      refine .cons (fun a ha => ?_) (ih hsame)
      obtain ⟨ha, hne⟩ := List.mem_filter.mp ha
      have hne := of_decide_eq_true hne
      rw [← TokenRecord.getAttr_stripped hne, ht, TokenRecord.getAttr_stripped hne, hst a ha]

theorem sameBut_of_setChildrenFromHeads {doc : Doc} (h : loaded.setChildrenFromHeads = .ok doc) :
    SameBut loaded doc ∧ Rebuilt doc := by
  unfold setChildrenFromHeads at h
  split at h
  · cases h
  · obtain rfl := Except.ok.inj h
    exact rebuilt_markStarts loaded

theorem own_export_reloaded {d' : Doc} (hlexeme : d₂.map TokenRecord.lexeme = d.map TokenRecord.lexeme)
    (harray : d.toArray attrs = .ok array) (hload : d₂.fromArray attrs array = .ok d') :
    d'.toArray (d.keptColumns attrs) = d.toArray (d.keptColumns attrs) ∧ (d.Rebuilds attrs → Rebuilt d') := by
  unfold fromArray at hload
  split at hload
  · cases hload
  obtain ⟨loaded, hloaded, hload⟩ := bind_ok hload
  have hagree := agree_loaded hlexeme harray hloaded
  unfold keptColumns
  by_cases hrebuild : d.Rebuilds attrs
  · rw [if_pos (hagree.rebuilds.mpr hrebuild)] at hload
    cases hset : setChildrenFromHeads loaded with
    | error e =>
      rw [hset] at hload
      cases hload
    | ok doc =>
      rw [hset] at hload
      obtain rfl := Except.ok.inj hload
      obtain ⟨hsame, hrebuilt⟩ := sameBut_of_setChildrenFromHeads hset
      rw [if_pos hrebuild]
      exact ⟨(hagree.trans_sameBut hsame).toArray_eq, fun _ => hrebuilt⟩
  · rw [if_neg fun h => hrebuild (hagree.rebuilds.mp h)] at hload
    obtain rfl := Except.ok.inj hload
    rw [if_neg hrebuild]
    exact ⟨hagree.toArray_eq, fun h => absurd h hrebuild⟩

def labelledPair : Doc :=
  [{ TokenRecord.new Lexeme.empty with dep := 7 }, { TokenRecord.new Lexeme.empty with dep := 5, head := -1 }]

def pairArray : List (List UInt64) := [[0, 7, 0], [18446744073709551615, 5, 0]]

theorem labelled_pair_reloaded : ∃ array d', labelledPair.toArray [.head, .dep, .sentStart] = .ok array ∧
    labelledPair.fromArray [.head, .dep, .sentStart] array = .ok d' ∧
      d'.toArray [.head, .dep] = labelledPair.toArray [.head, .dep] := by
  have harray : labelledPair.toArray [.head, .dep, .sentStart] = .ok pairArray := by
    decide +kernel
  have hok : (labelledPair.fromArray [.head, .dep, .sentStart] pairArray).toOption.isSome := by
    decide +kernel
  cases hload : labelledPair.fromArray [.head, .dep, .sentStart] pairArray with
  | error e =>
    rw [hload] at hok
    cases hok
  | ok d' => exact ⟨_, d', harray, hload, (own_export_reloaded rfl harray hload).1⟩

theorem sentence_start_overwritten :
    labelledPair.toArray [.head, .dep, .sentStart] = .ok pairArray ∧
      (labelledPair.fromArray [.head, .dep, .sentStart] pairArray).bind
        (·.toArray [.head, .dep, .sentStart]) = .ok [[0, 7, 1], [18446744073709551615, 5, 18446744073709551615]] := by
  decide +kernel

end Doc

end Fluent.Spacy
