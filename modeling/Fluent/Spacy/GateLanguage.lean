import Mathlib.Logic.Function.Iterate
import Fluent.Library.Lineage
import Fluent.Spacy.HeadGraph

open Fluent.Library Fluent.Dag

namespace Fluent.Spacy

namespace AnnotationRecord

def marker (rec : AnnotationRecord) : Option IobMarker := IobMarker.classify (Text.trim rec.entIob)

def spanType (rec : AnnotationRecord) : Text := Text.trim rec.entType

def Marks (m : IobMarker) (ty : Text) (rec : AnnotationRecord) : Prop := rec.marker = some m ∧ rec.spanType = ty

end AnnotationRecord

open AnnotationRecord

/-- The sequences `(O | U(t) | B(t) I(t)* L(t))*` with a type `t` that is not empty. -/
inductive Spans : AnnotationSet → Prop
  | nil : Spans []
  | outside {rec : AnnotationRecord} {rest : AnnotationSet} (h : rec.marker = some .outside) (hrest : Spans rest) :
      Spans (rec :: rest)
  | unit {rec : AnnotationRecord} {rest : AnnotationSet} {ty : Text} (hty : ty ≠ []) (h : Marks .unit ty rec)
      (hrest : Spans rest) : Spans (rec :: rest)
  | span {first last : AnnotationRecord} {middle rest : AnnotationSet} {ty : Text} (hty : ty ≠ [])
      (hfirst : Marks .begin ty first) (hmiddle : ∀ rec ∈ middle, Marks .inside ty rec) (hlast : Marks .last ty last)
      (hrest : Spans rest) : Spans (first :: middle ++ last :: rest)

def Closes (ty : Text) (records : AnnotationSet) : Prop :=
  ∃ middle last rest, records = middle ++ last :: rest ∧ (∀ rec ∈ middle, Marks .inside ty rec) ∧ Marks .last ty last ∧
    Spans rest

theorem not_closes_nil (ty : Text) : ¬Closes ty [] := by
  rintro ⟨middle, last, rest, h, -⟩
  simp at h

theorem closes_cons {ty : Text} {rec : AnnotationRecord} {records : AnnotationSet} :
    Closes ty (rec :: records) ↔
      Marks .inside ty rec ∧ Closes ty records ∨ Marks .last ty rec ∧ Spans records := by
  constructor
  · rintro ⟨middle, last, rest, h, hmiddle, hlast, hrest⟩
    cases middle with
    | nil =>
      obtain ⟨rfl, rfl⟩ := List.cons.inj h
      exact .inr ⟨hlast, hrest⟩
    | cons first middle =>
      obtain ⟨rfl, rfl⟩ := List.cons.inj h
      exact .inl ⟨hmiddle _ List.mem_cons_self, middle, last, rest, rfl,
        fun r hr => hmiddle r (List.mem_cons_of_mem _ hr), hlast, hrest⟩
  · rintro (⟨hrec, middle, last, rest, rfl, hmiddle, hlast, hrest⟩ | ⟨hrec, hrest⟩)
    · exact ⟨rec :: middle, last, rest, rfl, List.forall_mem_cons.mpr ⟨hrec, hmiddle⟩, hlast, hrest⟩
    · exact ⟨[], rec, records, rfl, by simp, hrec, hrest⟩

theorem spans_cons {rec : AnnotationRecord} {records : AnnotationSet} :
    Spans (rec :: records) ↔ rec.marker = some .outside ∧ Spans records ∨
      rec.spanType ≠ [] ∧ (rec.marker = some .unit ∧ Spans records ∨
        rec.marker = some .begin ∧ Closes rec.spanType records) := by
  constructor
  · intro h
    generalize hwhole : rec :: records = whole at h
    cases h with
    | nil => cases hwhole
    | outside h hrest =>
      obtain ⟨rfl, rfl⟩ := List.cons.inj hwhole
      exact .inl ⟨h, hrest⟩
    | unit hty h hrest =>
      obtain ⟨rfl, rfl⟩ := List.cons.inj hwhole
      exact .inr ⟨h.2 ▸ hty, .inl ⟨h.1, hrest⟩⟩
    | span hty hfirst hmiddle hlast hrest =>
      obtain ⟨rfl, rfl⟩ := List.cons.inj hwhole
      obtain ⟨hbegin, rfl⟩ := hfirst
      exact .inr ⟨hty, .inr ⟨hbegin, _, _, _, rfl, hmiddle, hlast, hrest⟩⟩
  · rintro (⟨h, hrest⟩ | ⟨hty, ⟨h, hrest⟩ | ⟨h, middle, last, rest, rfl, hmiddle, hlast, hrest⟩⟩)
    · exact .outside h hrest
    · exact .unit hty ⟨h, rfl⟩ hrest
    · exact .span hty ⟨h, rfl⟩ hmiddle hlast hrest

def Follows : Option (Text × Bool) → AnnotationSet → Prop
  | some (ty, false), records => Closes ty records
  | some (_, true), records => Spans records
  | none, records => Spans records

theorem follows_none {records : AnnotationSet} : Follows none records ↔ Spans records := Iff.rfl

theorem follows_closed {ty : Text} {records : AnnotationSet} : Follows (some (ty, true)) records ↔ Spans records :=
  Iff.rfl

theorem follows_open {ty : Text} {records : AnnotationSet} : Follows (some (ty, false)) records ↔ Closes ty records :=
  Iff.rfl

section Step

variable {c : Prop} [Decidable c] {e : AnnotationError} {a : Option (Text × Bool)} {P : Option (Text × Bool) → Prop}

theorem exists_ok_of_pos : (∃ o, (if c then .ok a else .error e : Except _ _) = .ok o ∧ P o) ↔ c ∧ P a := by
  by_cases hc : c <;> simp [hc]

theorem exists_ok_of_neg : (∃ o, (if c then .error e else .ok a : Except _ _) = .ok o ∧ P o) ↔ ¬c ∧ P a := by
  by_cases hc : c <;> simp [hc]

end Step

theorem follows_cons (i : ℕ) {rec : AnnotationRecord} {records : AnnotationSet} {opened : Option (Text × Bool)} :
    Follows opened (rec :: records) ↔ ∃ o, checkMarker i rec opened = .ok o ∧ Follows o records := by
  have hunit : (IobMarker.begin == IobMarker.unit) = false := by decide
  have hlast : (IobMarker.inside == IobMarker.last) = false := by decide
  have hty : rec.spanType = Text.trim rec.entType := rfl
  have hmarker : IobMarker.classify (Text.trim rec.entIob) = rec.marker := rfl
  rcases opened with - | ⟨ty, - | -⟩
  · rw [follows_none, spans_cons]
    cases hm : rec.marker with
    | none => simp [checkMarker, hmarker, hm]
    | some m => cases m <;> simp [checkMarker, checkMarker.continueSpan, hmarker, hm, hty, exists_ok_of_neg, follows_none,
        follows_closed, follows_open, hunit]
  · rw [follows_open, closes_cons, Marks, Marks]
    cases hm : rec.marker with
    | none => simp [checkMarker, hmarker, hm]
    | some m =>
      cases m <;> simp [checkMarker, checkMarker.continueSpan, hmarker, hm, hty, exists_ok_of_pos, follows_closed,
        follows_open, hlast, eq_comm (a := ty)]
      rintro rfl
      exact Iff.rfl
  · rw [follows_closed, spans_cons]
    cases hm : rec.marker with
    | none => simp [checkMarker, hmarker, hm]
    | some m => cases m <;> simp [checkMarker, checkMarker.continueSpan, hmarker, hm, hty, exists_ok_of_neg, follows_none,
        follows_closed, follows_open, hunit]

theorem checkSpans_iff {records : AnnotationSet} {i : ℕ} {opened : Option (Text × Bool)} :
    checkSpans records i opened = .ok () ↔ Follows opened records := by
  induction records generalizing i opened with
  | nil =>
    rcases opened with - | ⟨ty, - | -⟩
    · simp [checkSpans, Follows, Spans.nil]
    · simp [checkSpans, Follows, not_closes_nil]
    · simp [checkSpans, Follows, Spans.nil]
  | cons rec records ih =>
    rw [checkSpans, follows_cons i]
    split
    · next e he => simp [he]
    · next o ho => simp [ho, ih]

section Heads

variable {records : AnnotationSet}

def IsRoot (records : AnnotationSet) (i : ℕ) : Prop := ∃ rec, records[i]? = some rec ∧ isRootDep rec.dep

def followHead (records : AnnotationSet) (i : ℕ) : ℕ := (records[i]?).elim i fun rec => rec.headIndex i

theorem followHead_of_headOf {p n : ℕ} (h : HeadOf records p n) : followHead records n = p ∧ ¬IsRoot records n := by
  obtain ⟨-, rec, hrec, hroot, hp⟩ := h
  refine ⟨by rw [followHead, hrec]; exact hp, ?_⟩
  rintro ⟨rec', hrec', hroot'⟩
  obtain rfl := Option.some.inj (hrec.symm.trans hrec')
  simp [hroot'] at hroot

theorem mem_roots {i : ℕ} : i ∈ rootsFrom records 0 ↔ IsRoot records i := by
  rw [mem_rootsFrom]
  constructor
  · rintro ⟨j, rec, hrec, hroot, rfl⟩
    exact ⟨rec, by rwa [Nat.zero_add], hroot⟩
  · rintro ⟨rec, hrec, hroot⟩
    exact ⟨i, rec, hrec, hroot, (Nat.zero_add i).symm⟩

theorem ends_of_path {r i : ℕ} (hr : IsRoot records r) (h : Relation.ReflTransGen (HeadOf records) r i) :
    ∃ k, IsRoot records ((followHead records)^[k] i) := by
  induction h with
  | refl => exact ⟨0, hr⟩
  | tail _ hstep ih =>
    obtain ⟨k, hk⟩ := ih
    refine ⟨k + 1, ?_⟩
    rwa [Function.iterate_succ_apply, (followHead_of_headOf hstep).1]

theorem not_root_of_cycle {i : ℕ} (h : Relation.TransGen (HeadOf records) i i) (k : ℕ) :
    ¬IsRoot records ((followHead records)^[k] i) := by
  induction k generalizing i with
  | zero =>
    obtain ⟨p, -, hp⟩ := Relation.TransGen.tail'_iff.mp h
    exact (followHead_of_headOf hp).2
  | succ k ih =>
    obtain ⟨p, hpath, hp⟩ := Relation.TransGen.tail'_iff.mp h
    rw [Function.iterate_succ_apply, (followHead_of_headOf hp).1]
    exact ih (Relation.TransGen.head' hp hpath)

def InBounds (records : AnnotationSet) : Prop :=
  ∀ (i : ℕ) rec, records[i]? = some rec → 0 ≤ rec.headAbs i ∧ rec.headAbs i < records.length

theorem headOf_or_root (h : InBounds records) {i : ℕ} (hi : i < records.length) :
    IsRoot records i ∨ HeadOf records (followHead records i) i := by
  have hrec : records[i]? = some records[i] := List.getElem?_eq_getElem hi
  by_cases hroot : isRootDep records[i].dep
  · exact .inl ⟨_, hrec, hroot⟩
  · obtain ⟨hlow, hhigh⟩ := h i _ hrec
    have hstep : followHead records i = records[i].headIndex i := by rw [followHead, hrec]; rfl
    refine .inr ⟨?_, _, hrec, by simp [hroot], hstep.symm⟩
    rw [hstep, headIndex]
    omega

theorem path_of_ends (h : InBounds records) {k i : ℕ} (hi : i < records.length)
    (hk : IsRoot records ((followHead records)^[k] i)) :
    ∃ r, IsRoot records r ∧ Relation.ReflTransGen (HeadOf records) r i := by
  induction k generalizing i with
  | zero => exact ⟨i, hk, .refl⟩
  | succ k ih =>
    rcases headOf_or_root h hi with hroot | hhead
    · exact ⟨i, hroot, .refl⟩
    · obtain ⟨r, hr, hpath⟩ := ih hhead.1 hk
      exact ⟨r, hr, hpath.tail hhead⟩

theorem path_of_acyclic (h : InBounds records) (hacyclic : ∀ i, ¬Relation.TransGen (HeadOf records) i i) {i : ℕ}
    (hi : i < records.length) : ∃ r, IsRoot records r ∧ Relation.ReflTransGen (HeadOf records) r i := by
  have hbelow := acyclic_induction hacyclic (n := records.length) (fun _ _ h => h.1)
    (P := fun i => i < records.length → ∃ r, IsRoot records r ∧ Relation.ReflTransGen (HeadOf records) r i)
  refine hbelow (fun i ih hi => ?_) i hi
  rcases headOf_or_root h hi with hroot | hhead
  · exact ⟨i, hroot, .refl⟩
  · obtain ⟨r, hr, hpath⟩ := ih _ hhead hhead.1
    exact ⟨r, hr, hpath.tail hhead⟩

theorem checkTree_iff (hash : HashOrder ℕ) (h : InBounds records) : checkTree records hash = .ok () ↔
    ∀ i < records.length, ∃ k, IsRoot records ((followHead records)^[k] i) := by
  constructor
  · intro hok i hi
    obtain ⟨g, hg, hspec⟩ := headGraph_ok records
    unfold checkTree at hok
    rw [hg] at hok
    dsimp only at hok
    split at hok
    · cases hok
    · split_ifs at hok with hunreached
      have hreached := List.filter_eq_nil_iff.mp (not_not.mp hunreached) i (List.mem_range.mpr hi)
      have hmem : i ∈ reachedFrom g (rootsFrom records 0) := by simpa using hreached
      rw [reachedFrom, List.mem_toFinset, List.mem_flatMap] at hmem
      obtain ⟨r, hr, hmem⟩ := hmem
      refine ends_of_path (mem_roots.mp hr) ?_
      rcases List.mem_cons.mp hmem with rfl | hmem
      · exact .refl
      · have hpath := (g.sound_dependentsOf r).2.2 i hmem
        exact (Relation.TransGen.mono (fun _ _ hc => hspec.feeds_iff.mp (hspec.indexed.mem_consumers.mp hc)) _ _
          hpath).to_reflTransGen
  · intro hends
    refine checkTree_ok hash (fun i hcycle => ?_) fun i hi => ?_
    · obtain ⟨p, -, -, rec, hrec, -⟩ := Relation.TransGen.tail'_iff.mp hcycle
      obtain ⟨k, hk⟩ := hends i (List.getElem?_eq_some_iff.mp hrec).1
      exact not_root_of_cycle hcycle k hk
    · obtain ⟨k, hk⟩ := hends i hi
      obtain ⟨r, hr, hpath⟩ := path_of_ends h hi hk
      exact ⟨r, mem_roots.mpr hr, hpath⟩

theorem checkTree_not_unreachable (hash : HashOrder ℕ) (h : InBounds records) (hself : ∀ i, ¬HeadOf records i i)
    (tokens : List ℕ) : checkTree records hash ≠ .error (.unreachable tokens) := by
  intro herror
  obtain ⟨g, hg, hspec⟩ := headGraph_ok records
  have hacyclic : ∀ i, ¬Relation.TransGen (HeadOf records) i i := by
    unfold checkTree at herror
    rw [hg] at herror
    dsimp only at herror
    split at herror
    · cases herror
    · next order hsort =>
      have hedge : ∀ a b, HeadOf records a b → g.Edge a b := by
        intro a b hab
        refine hspec.edge_iff.mpr ⟨?_, hab⟩
        rintro rfl
        exact hself _ hab
      intro i hcycle
      exact (hspec.indexed.topoSort_ok_iff_acyclic hash).mp ⟨order, hsort⟩ i (Relation.TransGen.mono hedge _ _ hcycle)
  have hok := checkTree_ok hash hacyclic fun i hi => by
    obtain ⟨r, hr, hpath⟩ := path_of_acyclic h hacyclic hi
    exact ⟨r, mem_roots.mpr hr, hpath⟩
  rw [hok] at herror
  cases herror

end Heads

structure WellFormed (records : AnnotationSet) : Prop where
  bounds : InBounds records
  rootHead : ∀ (i : ℕ) rec, records[i]? = some rec → (rec.head = 0 ↔ isRootDep rec.dep)
  root : ∃ i, IsRoot records i
  ends : ∀ i < records.length, ∃ k, IsRoot records ((followHead records)^[k] i)
  spans : Spans records

theorem checkHead_iff {len i : ℕ} {rec : AnnotationRecord} : checkHead len i rec = .ok () ↔
    (0 ≤ rec.headAbs i ∧ rec.headAbs i < len) ∧ (rec.head = 0 ↔ isRootDep rec.dep) := by
  unfold checkHead
  by_cases hbounds : rec.headAbs i < 0 ∨ (len : ℤ) ≤ rec.headAbs i
  · rw [if_pos hbounds]
    constructor
    · rintro ⟨⟩
    · rintro ⟨⟨hlow, hhigh⟩, -⟩
      omega
  · rw [if_neg hbounds]
    have hin : 0 ≤ rec.headAbs i ∧ rec.headAbs i < len := by omega
    by_cases hhead : rec.head = 0 <;> cases hroot : isRootDep rec.dep <;> simp [hhead, hin]

theorem head_eq_zero {i : ℕ} {rec : AnnotationRecord} (hlow : 0 ≤ rec.headAbs i) (h : rec.headIndex i = i) :
    rec.head = 0 := by
  rw [headIndex] at h
  rw [headAbs] at h hlow
  have hzero : rec.head.toInt = (0 : Int32).toInt := by
    change rec.head.toInt = 0
    omega
  exact Int32.toInt_inj.mp hzero

theorem roots_ne_nil {records : AnnotationSet} : rootsFrom records 0 ≠ [] ↔ ∃ i, IsRoot records i := by
  simp only [← mem_roots, ne_eq, List.eq_nil_iff_forall_not_mem, not_forall, not_not]

section Errors

def Tame {α : Type} (x : Except AnnotationError α) : Prop := ∀ tokens, x ≠ .error (.unreachable tokens)

theorem Tame.bind {x : Except AnnotationError Unit} {f : Unit → Except AnnotationError Unit} (h : Tame x)
    (hf : x = .ok () → Tame (f ())) : Tame (x >>= f) := by
  cases x with
  | error e => exact h
  | ok u => exact hf rfl

theorem tame_eachRecord {check : ℕ → AnnotationRecord → Except AnnotationError Unit} (h : ∀ i rec, Tame (check i rec))
    (records : AnnotationSet) (k : ℕ) : Tame (eachRecord check records k) := by
  induction records generalizing k with
  | nil => simp [Tame, eachRecord]
  | cons rec records ih =>
    rw [eachRecord]
    split
    · next e he => exact he ▸ h k rec
    · exact ih (k + 1)

theorem tame_checkText (strings : StringStore) (doc : Doc) (i : ℕ) (rec : AnnotationRecord) :
    Tame (checkText strings doc i rec) := by
  unfold checkText
  dsimp only
  split_ifs <;> simp [Tame]

theorem tame_checkVocabulary (labels : DepLabelSet) (rec : AnnotationRecord) : Tame (checkVocabulary labels rec) := by
  unfold checkVocabulary
  split_ifs <;> simp [Tame]

theorem tame_checkHead (len i : ℕ) (rec : AnnotationRecord) : Tame (checkHead len i rec) := by
  unfold checkHead
  split_ifs <;> simp [Tame]

theorem tame_checkMarker (i : ℕ) (rec : AnnotationRecord) (opened : Option (Text × Bool)) :
    Tame (checkMarker i rec opened) := by
  have hcontinue : ∀ ty m, Tame (checkMarker.continueSpan i ty m opened) := by
    intro ty m
    rcases opened with - | ⟨pty, closed⟩
    · simp [Tame, checkMarker.continueSpan]
    · rw [checkMarker.continueSpan]
      split_ifs <;> simp [Tame]
  unfold checkMarker
  dsimp only
  split
  · simp [Tame]
  · split_ifs <;> simp [Tame]
  · exact hcontinue _ _
  · exact hcontinue _ _
  · split_ifs <;> simp [Tame]

theorem tame_checkSpans (records : AnnotationSet) (i : ℕ) (opened : Option (Text × Bool)) :
    Tame (checkSpans records i opened) := by
  induction records generalizing i opened with
  | nil =>
    rw [checkSpans]
    split_ifs <;> simp [Tame]
  | cons rec records ih =>
    rw [checkSpans]
    split
    · next e he =>
      intro tokens herror
      exact tame_checkMarker i rec opened tokens (he.trans (congrArg Except.error (Except.error.inj herror)))
    · exact ih _ _

end Errors

section Gate

variable {hash : HashOrder ℕ} {strings : StringStore} {doc : Doc} {records : AnnotationSet} {labels : DepLabelSet}

theorem checkText_of_eq {i : ℕ} {rec : AnnotationRecord} (h : rec.text = doc.tokenText strings i) :
    checkText strings doc i rec = .ok () := by
  unfold checkText
  rw [if_pos]
  split
  · next stored hstored =>
    obtain ⟨t, ht, hget⟩ := Option.bind_eq_some_iff.mp hstored
    rw [h, Doc.tokenText, ht]
    simp [Doc.orthText, hget]
  · next hnone =>
    rw [h, Doc.tokenText]
    cases ht : doc[i]? with
    | none => rfl
    | some t =>
      rw [ht] at hnone
      have hget : strings.get t.lexeme.orth = none := hnone
      simp [Doc.orthText, hget]

theorem validate_exact (hcount : records.length = doc.length)
    (htexts : ∀ i rec, records[i]? = some rec → rec.text = doc.tokenText strings i)
    (hpos : ∀ rec ∈ records, uposKnown rec.pos) (hdep : ∀ rec ∈ records, labels.contains rec.dep) :
    (validate hash strings doc records labels false = .ok () ↔ WellFormed records) ∧
      ∀ tokens, validate hash strings doc records labels false ≠ .error (.unreachable tokens) := by
  have hheads {i : ℕ} {rec : AnnotationRecord} : checkHead records.length i rec = .ok () ↔
      (0 ≤ rec.headAbs i ∧ rec.headAbs i < records.length) ∧ (rec.head = 0 ↔ isRootDep rec.dep) := checkHead_iff
  constructor
  · rw [validate_ok_iff]
    constructor
    · intro h
      have hbounds : InBounds records := fun i rec hrec => (hheads.mp (h.heads i rec hrec)).1
      exact ⟨hbounds, fun i rec hrec => (hheads.mp (h.heads i rec hrec)).2, roots_ne_nil.mp h.roots,
        (checkTree_iff hash hbounds).mp h.tree, checkSpans_iff.mp h.spans⟩
    · intro h
      refine ⟨?_, hcount, fun i rec hrec => checkText_of_eq (htexts i rec hrec), fun i rec hrec => ?_,
        fun i rec hrec => hheads.mpr ⟨h.bounds i rec hrec, h.rootHead i rec hrec⟩, roots_ne_nil.mpr h.root,
        (checkTree_iff hash h.bounds).mpr h.ends, checkSpans_iff.mpr h.spans, fun hproj => by cases hproj⟩
      · rintro rfl
        obtain ⟨i, rec, hrec, -⟩ := h.root
        rw [List.eq_nil_of_length_eq_zero hcount] at hrec
        cases hrec
      · have hmem := List.mem_of_getElem? hrec
        exact checkVocabulary_ok.mpr ⟨hpos rec hmem, hdep rec hmem⟩
  · change Tame _
    unfold validate
    split
    · simp [Tame]
    split
    · simp [Tame]
    refine (tame_eachRecord (tame_checkText _ _) _ _).bind fun _ =>
      (tame_eachRecord (fun _ => tame_checkVocabulary _) _ _).bind fun _ =>
        (tame_eachRecord (tame_checkHead _) _ _).bind fun hhead => ?_
    split
    · simp [Tame]
    · rw [eachRecord_ok_iff] at hhead
      simp only [Nat.zero_add] at hhead
      refine Tame.bind (checkTree_not_unreachable hash (fun i rec hrec => (hheads.mp (hhead i rec hrec)).1) ?_) fun _ =>
        (tame_checkSpans _ _ _).bind fun _ => by simp [Tame]
      rintro i ⟨-, rec, hrec, hroot, hself⟩
      obtain ⟨⟨hlow, -⟩, hzero⟩ := hheads.mp (hhead i rec hrec)
      have hroot' := hzero.mp (head_eq_zero hlow hself)
      simp [hroot'] at hroot

end Gate

def rootRecord : AnnotationRecord :=
  ⟨[], "NOUN".toList, [], "ROOT".toList, 0, [], [], " b ".toList, "PERSON".toList⟩

def flatRecord : AnnotationRecord :=
  ⟨[], "NOUN".toList, [], "flat".toList, -1, [], [], "L".toList, "PERSON".toList⟩

theorem flat_name_valid :
    validate .ascending ∅ (List.replicate 2 (TokenRecord.new .empty)) [rootRecord, flatRecord]
      {"root".toList, "flat".toList} false = .ok () := by
  have htwo {P : ℕ → AnnotationRecord → Prop} (h : P 0 rootRecord) (h' : P 1 flatRecord) :
      ∀ (i : ℕ) rec, [rootRecord, flatRecord][i]? = some rec → P i rec := by
    rintro (_ | _ | i) rec hrec
    · exact Option.some.inj hrec ▸ h
    · exact Option.some.inj hrec ▸ h'
    · cases hrec
  have hroot : IsRoot [rootRecord, flatRecord] 0 := ⟨rootRecord, rfl, by decide⟩
  refine (validate_exact rfl (htwo (by decide) (by decide)) ?_ ?_).1.mpr
    ⟨htwo (by decide) (by decide), htwo (by decide) (by decide), ⟨0, hroot⟩, ?_, ?_⟩
  · exact List.forall_mem_cons.mpr ⟨by decide, List.forall_mem_singleton.mpr (by decide)⟩
  · exact List.forall_mem_cons.mpr ⟨by decide, List.forall_mem_singleton.mpr (by decide)⟩
  · rintro (_ | _ | i) hi
    · exact ⟨0, hroot⟩
    · exact ⟨1, hroot⟩
    · exact absurd hi (by simp)
  · have hfirst : Marks .begin "PERSON".toList rootRecord := ⟨by decide, by decide⟩
    have hlast : Marks .last "PERSON".toList flatRecord := ⟨by decide, by decide⟩
    change Spans ([rootRecord] ++ [flatRecord])
    exact .span (by decide) hfirst (fun _ h => by cases h) hlast .nil

end Fluent.Spacy
