import Fluent.Spacy.DocEdges

open Fluent.Library

namespace Fluent.Spacy

theorem parse_isSome_of_uposKnown {pos : Text} (h : uposKnown pos) : (Upos.parse pos).isSome := by
  rcases Bool.or_eq_true_iff.mp h with h | h
  · obtain ⟨p, hp, htext⟩ := List.any_eq_true.mp h
    obtain rfl := of_decide_eq_true htext
    revert p
    decide +kernel
  · cases hp : Upos.parse pos with
    | some p => rfl
    | none => simp [hp] at h

theorem entIoB_isSome_of_classify {rec : AnnotationRecord}
    (h : (IobMarker.classify (Text.trim rec.entIob)).isSome) : rec.entIoB.isSome := by
  unfold AnnotationRecord.entIoB
  generalize Text.trim rec.entIob = marker at h ⊢
  unfold IobMarker.classify at h
  split at h
  · next hm => rcases hm with rfl | rfl | rfl <;> decide
  split at h
  · next hm => rcases hm with rfl | rfl <;> decide
  split at h
  · next hm => rcases hm with rfl | rfl <;> decide
  split at h
  · next hm => rcases hm with rfl | rfl <;> decide
  split at h
  · next hm => rcases hm with rfl | rfl <;> decide
  · cases h

theorem classify_of_checkSpans {records : AnnotationSet} {i : ℕ} {opened : Option (Text × Bool)}
    (h : checkSpans records i opened = .ok ()) {rec : AnnotationRecord} (hrec : rec ∈ records) :
    (IobMarker.classify (Text.trim rec.entIob)).isSome := by
  induction records generalizing i opened with
  | nil => cases hrec
  | cons r records ih =>
    rw [checkSpans] at h
    split at h
    · cases h
    next opened' hmarker =>
    rcases List.mem_cons.mp hrec with rfl | hrec
    · cases hclass : IobMarker.classify (Text.trim rec.entIob) with
      | some m => rfl
      | none =>
        unfold checkMarker at hmarker
        rw [hclass] at hmarker
        cases hmarker
    · exact ih h hrec

theorem bounds_of_checkHead {len i : ℕ} {rec : AnnotationRecord} (h : checkHead len i rec = .ok ()) :
    0 ≤ rec.headAbs i ∧ rec.headAbs i < len := by
  unfold checkHead at h
  split at h
  · cases h
  · omega

structure Carries (rec : AnnotationRecord) (t t' : TokenRecord) : Prop where
  pos : Upos.parse rec.pos = some t'.pos
  tag : t'.tag = hashUtf8 rec.tag
  dep : t'.dep = hashUtf8 rec.dep
  head : t'.head = rec.head
  lemmaHash : t'.lemmaHash = hashUtf8 rec.lemmaOrText
  morph : ∀ strings, t'.morph = (rec.morphKey strings).1
  entIob : rec.entIoB = some t'.entIob
  entType : t'.entType = rec.entTypeKey
  lexeme : t'.lexeme = t.lexeme
  spacy : t'.spacy = t.spacy
  idx : t'.idx = t.idx
  norm : t'.norm = t.norm
  entKbId : t'.entKbId = t.entKbId
  entId : t'.entId = t.entId
  interlinguaLemmaId : t'.interlinguaLemmaId = t.interlinguaLemmaId
  interlinguaEntityId : t'.interlinguaEntityId = t.interlinguaEntityId
  confidence : t'.confidence = t.confidence

theorem Carries.of_stripped {rec : AnnotationRecord} {t t' t'' : TokenRecord} (h : Carries rec t t')
    (hs : t''.stripped = t'.stripped) : Carries rec t t'' := by
  have hfields := hs
  simp only [TokenRecord.stripped, TokenRecord.mk.injEq] at hfields
  obtain ⟨hlexeme, hmorph, hpos, hspacy, htag, hidx, hlemma, hnorm, hhead, hdep, -, -, -, -, -, hiob, htype,
    hkbId, hentId, hlemmaId, hentityId, hconfidence⟩ := hfields
  constructor
  · rw [hpos]; exact h.pos
  · rw [htag]; exact h.tag
  · rw [hdep]; exact h.dep
  · rw [hhead]; exact h.head
  · rw [hlemma]; exact h.lemmaHash
  · rw [hmorph]; exact h.morph
  · rw [hiob]; exact h.entIob
  · rw [htype]; exact h.entType
  · rw [hlexeme]; exact h.lexeme
  · rw [hspacy]; exact h.spacy
  · rw [hidx]; exact h.idx
  · rw [hnorm]; exact h.norm
  · rw [hkbId]; exact h.entKbId
  · rw [hentId]; exact h.entId
  · rw [hlemmaId]; exact h.interlinguaLemmaId
  · rw [hentityId]; exact h.interlinguaEntityId
  · rw [hconfidence]; exact h.confidence

theorem morphKey_fst (rec : AnnotationRecord) (strings strings' : StringStore) :
    (rec.morphKey strings).1 = (rec.morphKey strings').1 := by
  unfold AnnotationRecord.morphKey Morphology.add StringStore.add
  split
  · rfl
  · split <;> rfl

theorem attachRecord_ok {rec : AnnotationRecord} (hpos : (Upos.parse rec.pos).isSome) (hiob : rec.entIoB.isSome)
    (st : DocState) (i : ℕ) : ∃ st' write, attachRecord st i rec = (.ok (), st') ∧
      st'.tokens = st.tokens.modify i write ∧ ∀ t, Carries rec t (write t) := by
  obtain ⟨pos, hpos⟩ := Option.isSome_iff_exists.mp hpos
  obtain ⟨iob, hiob⟩ := Option.isSome_iff_exists.mp hiob
  refine ⟨⟨(st.tokens.modify i (rec.writeParse pos (rec.morphKey st.strings).1)).modify i (rec.writeEntity iob),
      (((rec.morphKey st.strings).2.add rec.dep).2.add rec.lemmaOrText).2⟩,
    rec.writeEntity iob ∘ rec.writeParse pos (rec.morphKey st.strings).1, ?_, ?_, ?_⟩
  · unfold attachRecord
    simp only [hpos, hiob]
  · exact List.modify_modify_eq _ _ _ _
  · intro t
    exact ⟨hpos, rfl, rfl, rfl, rfl, fun strings => morphKey_fst rec _ strings, hiob, rfl, rfl, rfl, rfl, rfl, rfl, rfl, rfl, rfl, rfl⟩

theorem attachLoop_ok {records : AnnotationSet}
    (h : ∀ rec ∈ records, (Upos.parse rec.pos).isSome ∧ rec.entIoB.isSome) (st : DocState) (i : ℕ) :
    ∃ st', attachLoop records i st = (.ok (), st') ∧ st'.tokens.length = st.tokens.length ∧
      ∀ (k : ℕ) t', st'.tokens[k]? = some t' → ∃ t, st.tokens[k]? = some t ∧ (k < i → t' = t) ∧
        ∀ j rec, k = i + j → records[j]? = some rec → Carries rec t t' := by
  induction records generalizing st i with
  | nil => exact ⟨st, rfl, rfl, fun k t' ht' => ⟨t', ht', fun _ => rfl, by simp⟩⟩
  | cons r records ih =>
    obtain ⟨hr, hrecords⟩ := List.forall_mem_cons.mp h
    obtain ⟨st₁, write, heq, htokens, hwrite⟩ := attachRecord_ok hr.1 hr.2 st i
    obtain ⟨st₂, heq₂, hlen₂, hget₂⟩ := ih hrecords st₁ (i + 1)
    refine ⟨st₂, by rw [attachLoop, heq]; exact heq₂, by rw [hlen₂, htokens, List.length_modify], ?_⟩
    intro k t₂ ht₂
    obtain ⟨t₁, ht₁, hkeep, hcarries⟩ := hget₂ k t₂ ht₂
    rw [htokens, List.getElem?_modify] at ht₁
    obtain ⟨t, ht, heq₁⟩ := Option.map_eq_some_iff.mp ht₁
    refine ⟨t, ht, fun hk => ?_, fun j rec hkj hrec => ?_⟩
    · rw [hkeep (by omega), ← heq₁, if_neg (by omega)]
    · cases j with
      | zero =>
        obtain rfl := Option.some.inj hrec
        rw [hkeep (by omega), ← heq₁, if_pos (by omega)]
        exact hwrite t
      | succ j =>
        have := hcarries j rec (by omega) hrec
        rwa [← heq₁, if_neg (by omega)] at this

def Written (records : AnnotationSet) (doc doc' : Doc) : Prop :=
  ∀ (i : ℕ) t', doc'[i]? = some t' → ∃ t rec, doc[i]? = some t ∧ records[i]? = some rec ∧ Carries rec t t'

structure Annotated (records : AnnotationSet) (st st' : DocState) : Prop where
  length : st'.tokens.length = st.tokens.length
  attached : ∃ doc, Written records st.tokens doc ∧ doc.setChildrenFromHeads = .ok st'.tokens
  carries : Written records st.tokens st'.tokens
  rebuilt : st'.tokens.Rebuilt
  spans : st'.tokens.length ≤ 2 ^ 32 → ∀ i j t, Child st'.tokens.headAt j i → st'.tokens[i]? = some t →
    t.lEdge ≤ j ∧ j ≤ t.rEdge

theorem attach_of_passes {hash : HashOrder ℕ} {st : DocState} {records : AnnotationSet} {labels : DepLabelSet}
    {proj : Bool} (h : Passes hash st.strings st.tokens records labels proj) :
    ∃ st', attach st records = (.ok (), st') ∧ Annotated records st st' := by
  have hfields : ∀ rec ∈ records, (Upos.parse rec.pos).isSome ∧ rec.entIoB.isSome := by
    intro rec hrec
    obtain ⟨i, hi⟩ := List.mem_iff_getElem?.mp hrec
    exact ⟨parse_isSome_of_uposKnown (checkVocabulary_ok.mp (h.vocabulary i rec hi)).1,
      entIoB_isSome_of_classify (classify_of_checkSpans h.spans hrec)⟩
  obtain ⟨st₁, hloop, hlen, hget⟩ := attachLoop_ok hfields st 0
  have hcarries : Written records st.tokens st₁.tokens := by
    intro i t' ht'
    obtain ⟨t, ht, -, hrec⟩ := hget i t' ht'
    have hi : i < records.length := by
      rw [h.count]
      exact (List.getElem?_eq_some_iff.mp ht).1
    exact ⟨t, records[i], ht, List.getElem?_eq_getElem hi, hrec i _ (Nat.zero_add i).symm (List.getElem?_eq_getElem hi)⟩
  have hheads : ∀ i < st₁.tokens.length, 0 ≤ st₁.tokens.headAbs i ∧ st₁.tokens.headAbs i < st₁.tokens.length := by
    intro i hi
    obtain ⟨t, rec, -, hrec, hc⟩ := hcarries i _ (List.getElem?_eq_getElem hi)
    have hb := bounds_of_checkHead (h.heads i rec hrec)
    rw [h.count, ← hlen] at hb
    rw [Doc.headAbs, List.getElem?_eq_getElem hi]
    dsimp only [Option.elim_some]
    rw [hc.head]
    exact hb
  have hok := Doc.setChildrenFromHeads_eq hheads
  obtain ⟨hsame, hrebuilt⟩ := Doc.rebuilt_markStarts st₁.tokens
  refine ⟨{ st₁ with tokens := st₁.tokens.rebuilt }, ?_, hsame.length.trans hlen, ⟨st₁.tokens, hcarries, hok⟩, ?_,
    hrebuilt, ?_⟩
  · rw [attach, if_neg (not_not.mpr h.count), hloop]
    dsimp only
    rw [hok]
    rfl
  · intro i t'' ht''
    obtain ⟨t', ht', hstripped⟩ := hsame.get ht''
    obtain ⟨t, rec, ht, hrec, hc⟩ := hcarries i t' ht'
    exact ⟨t, rec, ht, hrec, hc.of_stripped hstripped⟩
  · intro hshort i j t hchild ht
    have hhead : st₁.tokens.rebuilt.headAt = st₁.tokens.headAt := funext hsame.headAt
    exact Doc.child_edges hheads (hsame.length ▸ hshort) (hhead ▸ hchild) t ht

theorem applyWith_all_or_nothing (hash : HashOrder ℕ) (st : DocState) (records : AnnotationSet)
    (validator : AnnotationValidator) :
    (∃ e, validator.validate hash st.strings st.tokens records = .error e ∧
        applyWith hash st records validator = (.error e, st)) ∨
      (validator.validate hash st.strings st.tokens records = .ok () ∧
        ∃ st', applyWith hash st records validator = (.ok (), st') ∧ Annotated records st st') := by
  unfold applyWith
  cases hv : validator.validate hash st.strings st.tokens records with
  | error e => exact Or.inl ⟨e, rfl, rfl⟩
  | ok u => exact Or.inr ⟨rfl, attach_of_passes (validate_ok_iff.mp hv)⟩

end Fluent.Spacy
