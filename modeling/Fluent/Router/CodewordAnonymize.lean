import Fluent.Router.LedgerGuard

open Fluent.Library

namespace Fluent.Router

open Fluent.Spacy (Text)

structure CodewordAnonymizer where
  mapping : HashMap Text Text
  counters : HashMap Text ℕ

structure Substitution where
  start : ℕ
  stop : ℕ
  codeword : Text
  original : Text
deriving DecidableEq

namespace CodewordAnonymizer

def new : CodewordAnonymizer := ⟨∅, ∅⟩

section Model

variable (order : HashOrder Text) (toUppercase : Text → Text)

def codeword (typeName : Text) (count : ℕ) : Text :=
  "CODEWORD_".toList ++ typeName ++ '_' :: (Nat.repr count).toList

def codewordFor (self : CodewordAnonymizer) (dedup : HashMap Text Text) (patternName text : Text) :
    Text × CodewordAnonymizer × HashMap Text Text :=
  match dedup.lookup text with
  | some known => (known, self, dedup)
  | none =>
    match (order.iter self.mapping.keys).find? fun k => self.mapping.lookup k = some text with
    | some known => (known, self, dedup.insert text known)
    | none =>
      let typeName := toUppercase patternName
      let count := (self.counters.lookup typeName).getD 0 + 1
      (codeword typeName count, { self with counters := self.counters.insert typeName count },
        dedup.insert text (codeword typeName count))

def substitutionsFor (self : CodewordAnonymizer) (dedup : HashMap Text Text) :
    List RegexMatch → List Substitution × CodewordAnonymizer
  | [] => ([], self)
  | m :: ms =>
    let (word, self, dedup) := self.codewordFor order toUppercase dedup m.patternName m.matchedText
    let (rest, self) := self.substitutionsFor dedup ms
    (⟨m.start, m.stop, word, m.matchedText⟩ :: rest, self)

def remember (mapping : HashMap Text Text) (substitutions : List Substitution) : HashMap Text Text :=
  substitutions.foldl (fun map s => if s.codeword ∈ map then map else map.insert s.codeword s.original) mapping

def applySubstitutionBy (replace : List Substitution → Text → Option Text) (ms : List RegexMatch) (text : Text) :
    Rewrite CodewordAnonymizer Text := fun self =>
  let (substitutions, self) := self.substitutionsFor order toUppercase ∅ ms
  let substitutions := rightmostFirst Substitution.start substitutions
  (replace substitutions text).map fun result =>
    .ok (result, { self with mapping := remember self.mapping substitutions })

def applySubstitution : List RegexMatch → Text → Rewrite CodewordAnonymizer Text :=
  applySubstitutionBy order toUppercase (replaceEach Substitution.start Substitution.stop Substitution.codeword)

def extractMatches (request : RouterRequest) : List RegexMatch :=
  (request.metadata.piiFilter.map PiiVerdict.hits).getD []

def transformBy (apply : List RegexMatch → Text → Rewrite CodewordAnonymizer Text) (request : RouterRequest) :
    Rewrite CodewordAnonymizer RouterRequest := do
  let ms := extractMatches request
  if ms = [] then pure request
  else
    let transformed ← rewriteTextMessages request (apply ms)
    let self ← get
    let metadata := transformed.metadata
    pure { transformed with metadata := { metadata with codewordMap := insertStringMap metadata.codewordMap self.mapping } }

def transform : RouterRequest → Rewrite CodewordAnonymizer RouterRequest :=
  transformBy (applySubstitution order toUppercase)

def transformOwn : RouterRequest → Rewrite CodewordAnonymizer RouterRequest :=
  transformBy (applySubstitutionBy order toUppercase
    (replaceOwn Substitution.start Substitution.stop Substitution.original Substitution.codeword))

end Model

variable {order : HashOrder Text} {toUppercase : Text → Text}

theorem substitutionsFor_map (order : HashOrder Text) (toUppercase : Text → Text) (self : CodewordAnonymizer)
    (dedup : HashMap Text Text) (ms : List RegexMatch) :
    (self.substitutionsFor order toUppercase dedup ms).1.map (fun s => (s.start, s.stop, s.original)) =
      ms.map fun m => (m.start, m.stop, m.matchedText) := by
  induction ms generalizing self dedup with
  | nil => rfl
  | cons m ms ih => exact congrArg _ (ih _ _)

theorem transformOwn_refines (request : RouterRequest) :
    Rewrite.Refines (transformOwn order toUppercase request) (transform order toUppercase request) := by
  have happly : ∀ (ms : List RegexMatch) (text : Text),
      Rewrite.Refines (applySubstitutionBy order toUppercase
        (replaceOwn Substitution.start Substitution.stop Substitution.original Substitution.codeword) ms text)
        (applySubstitution order toUppercase ms text) := by
    intro ms text self out h
    obtain ⟨result, hresult, hout⟩ := Option.map_eq_some_iff.mp h
    exact Option.map_eq_some_iff.mpr ⟨result, replaceEach_of_replaceOwn hresult, hout⟩
  unfold transformOwn transform transformBy
  dsimp only
  split
  · exact .refl _
  · exact (Rewrite.Refines.rewriteTextMessages (happly _) request).bind fun _ => .refl _

theorem substitutionsFor_apart (self : CodewordAnonymizer) (dedup : HashMap Text Text) {ms : List RegexMatch}
    (hapart : ms.Pairwise (EditsApart RegexMatch.start RegexMatch.stop)) :
    (self.substitutionsFor order toUppercase dedup ms).1.Pairwise
      (EditsApart Substitution.start Substitution.stop) := by
  have hranges : (ms.map fun m => (m.start, m.stop, m.matchedText)).Pairwise
      (EditsApart Prod.fst fun r => r.2.1) := List.pairwise_map.mpr hapart
  rw [← substitutionsFor_map order toUppercase self dedup ms, List.pairwise_map] at hranges
  exact hranges

theorem forall_substitutionsFor (order : HashOrder Text) (toUppercase : Text → Text) (self : CodewordAnonymizer)
    (dedup : HashMap Text Text) (ms : List RegexMatch) (P : ℕ × ℕ × Text → Prop) :
    (∀ s ∈ (self.substitutionsFor order toUppercase dedup ms).1, P (s.start, s.stop, s.original)) ↔
      ∀ m ∈ ms, P (m.start, m.stop, m.matchedText) := by
  rw [← List.forall_mem_map (P := P), substitutionsFor_map, List.forall_mem_map]

theorem succeeds_applyOwn {ms : List RegexMatch} (hapart : ms.Pairwise (EditsApart RegexMatch.start RegexMatch.stop))
    (text : Text) (self : CodewordAnonymizer) :
    Rewrite.Succeeds (applySubstitutionBy order toUppercase
        (replaceOwn Substitution.start Substitution.stop Substitution.original Substitution.codeword) ms text) self ↔
      ∀ m ∈ ms, slice text m.start m.stop = some m.matchedText := by
  have happly : (replaceOwn Substitution.start Substitution.stop Substitution.original Substitution.codeword
      (rightmostFirst Substitution.start (self.substitutionsFor order toUppercase ∅ ms).1) text).isSome ↔ _ :=
    isSome_replaceOwn_rightmostFirst (substitutionsFor_apart self ∅ hapart)
  rw [← forall_substitutionsFor order toUppercase self ∅ ms fun r => slice text r.1 r.2.1 = some r.2.2, ← happly,
    Option.isSome_iff_exists]
  constructor
  · rintro ⟨out, hout⟩
    obtain ⟨result, hresult, -⟩ := Option.map_eq_some_iff.mp hout
    exact ⟨result, hresult⟩
  · rintro ⟨result, hresult⟩
    exact ⟨_, Option.map_eq_some_iff.mpr ⟨result, hresult, rfl⟩⟩

theorem succeeds_transformOwn (request : RouterRequest) (self : CodewordAnonymizer)
    (hapart : (extractMatches request).Pairwise (EditsApart RegexMatch.start RegexMatch.stop)) :
    Rewrite.Succeeds (transformOwn order toUppercase request) self ↔
      ∀ t ∈ request.texts, ∀ m ∈ extractMatches request, slice t m.start m.stop = some m.matchedText := by
  unfold transformOwn transformBy
  dsimp only
  split
  · next hnil =>
    rw [hnil]
    exact iff_of_true (Rewrite.succeeds_pure _ _) fun t _ m hm => absurd hm List.not_mem_nil
  · rw [← Rewrite.succeeds_rewriteTextMessages (succeeds_applyOwn hapart) self, Rewrite.succeeds_bind]
    constructor
    · rintro ⟨a, s', hx, -⟩
      exact ⟨_, hx⟩
    · rintro ⟨out, hx⟩
      exact ⟨out.1, out.2, hx, _, rfl⟩

theorem hitsFrom_apart {ps : List (Piece Char)} (hne : ∀ w ∈ hitsOf ps, w ≠ []) (pos : ℕ) :
    (hitsFrom pos ps).Pairwise (fun a b => a.1 + utf8Len a.2 ≤ b.1 ∧ a.1 < b.1) ∧ ∀ m ∈ hitsFrom pos ps, pos ≤ m.1 := by
  induction ps generalizing pos with
  | nil => exact ⟨.nil, fun m hm => absurd hm List.not_mem_nil⟩
  | cons p ps ih =>
    cases p with
    | keep c =>
      obtain ⟨hpair, hle⟩ := ih hne (pos + c.utf8Size)
      exact ⟨hpair, fun m hm => (Nat.le_add_right _ _).trans (hle m hm)⟩
    | hit w =>
      obtain ⟨hw, hne⟩ := List.forall_mem_cons.mp (hne : ∀ v ∈ w :: hitsOf ps, v ≠ [])
      obtain ⟨hpair, hle⟩ := ih hne (pos + utf8Len w)
      have hpos := utf8Len_pos hw
      refine ⟨.cons (fun m hm => ⟨hle m hm, ?_⟩) hpair, List.forall_mem_cons.mpr ⟨le_rfl, fun m hm => ?_⟩⟩
      · have := hle m hm
        omega
      · exact (Nat.le_add_right _ _).trans (hle m hm)

theorem hits_apart {U : Unicode} {filter : RegexFilter} {re : CharRegex} (hregexes : filter.regexes = [re])
    (hnull : re.nullable = false) {ctx : FilterContext} {action : FilterAction} {pattern : Text}
    {codewords : HashMap Text Text} {hits : List RegexMatch}
    (h : filter.evaluate U ctx = some (.outputFilter action pattern codewords hits)) :
    hits.Pairwise (EditsApart RegexMatch.start RegexMatch.stop) := by
  unfold RegexFilter.evaluate at h
  split at h
  · split at h
    · simp only [Option.bind_eq_bind, Option.bind_eq_some_iff] at h
      obtain ⟨_, _, _, _, h⟩ := h
      split at h
      · cases h
      · cases h
    · dsimp only at h
      split at h
      · cases h
      · cases h
        rw [hregexes, List.flatMap_cons, List.flatMap_nil, List.append_nil, List.pairwise_map]
        have hfound : (findIter U re ctx.userMessage).Pairwise fun a b => a.1 + utf8Len a.2 ≤ b.1 ∧ a.1 < b.1 :=
          (hitsFrom_apart (fun w hw => Regex.ne_nil_of_mem_hits hnull hw) 0).1
        exact (hfound.filter _).imp .inl
    · cases h
  · cases h

end CodewordAnonymizer

namespace DeterministicPreFilter

def Flagged (U : Unicode) (pre : DeterministicPreFilter) (request : RouterRequest) : Prop :=
  ∃ out verdict, pre.decide U request = .ok out ∧ out.2.metadata = .piiFilter verdict ∧
    request.metadata.piiFilter = some verdict

theorem decideCommand_metadata (pre : DeterministicPreFilter) (trimmed cmd : Text) (args : List Text)
    (verdict : PiiVerdict) : (pre.decideCommand trimmed cmd args).2.metadata ≠ .piiFilter verdict := by
  unfold decideCommand
  split
  · split
    · exact StageMetadata.noConfusion
    · exact StageMetadata.noConfusion
  · split
    · exact StageMetadata.noConfusion
    · exact StageMetadata.noConfusion

theorem decideMessage_metadata {pre : DeterministicPreFilter} {input : Text} {verdict : PiiVerdict}
    (h : (pre.decideMessage input).2.metadata = .piiFilter verdict) :
    pre.filterEngine.evaluate (.pipeline input) =
      some (.outputFilter verdict.action verdict.pattern verdict.codewords verdict.hits) := by
  unfold decideMessage at h
  split at h
  · cases h
  · next heval =>
    cases h
    exact heval
  · cases h
  · cases h

theorem Flagged.evaluate {U : Unicode} {pre : DeterministicPreFilter} {request : RouterRequest}
    (h : pre.Flagged U request) : ∃ input action pattern codewords,
      pre.filterEngine.evaluate (.pipeline input) =
        some (.outputFilter action pattern codewords (CodewordAnonymizer.extractMatches request)) := by
  obtain ⟨out, verdict, hdecide, hmetadata, hcarried⟩ := h
  have hhits : CodewordAnonymizer.extractMatches request = verdict.hits := by
    rw [CodewordAnonymizer.extractMatches, hcarried]
    rfl
  unfold decide at hdecide
  split at hdecide
  · cases hdecide
  · next input _ =>
    split at hdecide
    · obtain rfl := Except.ok.inj hdecide
      exact absurd hmetadata (decideCommand_metadata _ _ _ _ _)
    · obtain rfl := Except.ok.inj hdecide
      exact ⟨input, verdict.action, verdict.pattern, verdict.codewords, hhits ▸ decideMessage_metadata hmetadata⟩

theorem Flagged.apart {U : Unicode} {pre : DeterministicPreFilter} {request : RouterRequest}
    (h : pre.Flagged U request) (hbuiltin : pre.filterEngine = builtinFilterEngine U) :
    (CodewordAnonymizer.extractMatches request).Pairwise (EditsApart RegexMatch.start RegexMatch.stop) := by
  obtain ⟨input, action, pattern, codewords, heval⟩ := h.evaluate
  rw [hbuiltin] at heval
  obtain ⟨filter, hfilter, hdecided⟩ := List.exists_of_findSome?_eq_some heval
  rcases List.mem_append.mp hfilter with hfilter | hfilter
  · obtain ⟨regexFilter, hmem, rfl⟩ := List.mem_map.mp hfilter
    obtain ⟨re, hsimple, -⟩ := builtinFilters_simple U hmem
    exact CodewordAnonymizer.hits_apart hsimple.regexes hsimple.nonempty hdecided
  · rw [List.mem_singleton.mp hfilter] at hdecided
    obtain ⟨message, hreject⟩ := InjectionDetectFilter.eq_hardReject_of_evaluate hdecided
    cases hreject

end DeterministicPreFilter

namespace CodewordAnonymizer

theorem transform_replaces_matches_iff (U : Unicode) (pre : DeterministicPreFilter) (order : HashOrder Text)
    (toUppercase : Text → Text) (request : RouterRequest) (self : CodewordAnonymizer)
    (hflagged : pre.Flagged U request)
    (hapart : pre.filterEngine = builtinFilterEngine U ∨
      (extractMatches request).Pairwise (EditsApart RegexMatch.start RegexMatch.stop)) :
    (∃ out, ((transform order toUppercase request).run self).run = some (.ok out) ∧
        ((transformOwn order toUppercase request).run self).run = some (.ok out)) ↔
      ∀ t ∈ request.texts, ∀ m ∈ extractMatches request, slice t m.start m.stop = some m.matchedText := by
  rw [← succeeds_transformOwn request self (hapart.elim hflagged.apart id)]
  constructor
  · rintro ⟨out, -, hout⟩
    exact ⟨out, hout⟩
  · rintro ⟨out, hout⟩
    exact ⟨out, transformOwn_refines request self out hout, hout⟩

def emailMatch : RegexMatch := ⟨"email".toList, "user@example.com".toList, 11, 27, .anonymize⟩

def emailRequest (before : List RouterMessage) : RouterRequest where
  messages := before ++ [⟨"user".toList, .text "mail me at user@example.com".toList⟩]
  metadata := ⟨some ⟨"email".toList, .anonymize, ∅, [emailMatch]⟩, none, none⟩

theorem emailRequest_flagged (before : List RouterMessage) :
    (DeterministicPreFilter.new .ascii).Flagged .ascii (emailRequest before) := by
  have hinput : extractUserMessage (emailRequest before) = some "mail me at user@example.com".toList := by
    simp [extractUserMessage, emailRequest]
  have hcommand : (DeterministicPreFilter.new .ascii).commandOf .ascii "mail me at user@example.com".toList = none := by
    decide +kernel
  have hmetadata : ((DeterministicPreFilter.new .ascii).decideMessage "mail me at user@example.com".toList).2.metadata =
      .piiFilter ⟨"email".toList, .anonymize, ∅, [emailMatch]⟩ := by decide +kernel
  refine ⟨_, _, ?_, hmetadata, rfl⟩
  simp only [DeterministicPreFilter.decide, hinput, hcommand]

theorem transform_replaces_single_message :
    (DeterministicPreFilter.new .ascii).Flagged .ascii (emailRequest []) ∧
      ∀ order, ∃ out, ((transform order id (emailRequest [])).run new).run = some (.ok out) ∧
        ((transformOwn order id (emailRequest [])).run new).run = some (.ok out) :=
  ⟨emailRequest_flagged [], fun order =>
    (transform_replaces_matches_iff .ascii (.new .ascii) order id (emailRequest []) new (emailRequest_flagged [])
      (.inl rfl)).mpr (by decide +kernel)⟩

theorem transform_panics_on_short_message :
    (DeterministicPreFilter.new .ascii).Flagged .ascii
        (emailRequest [⟨"system".toList, .text "hi".toList⟩]) ∧
      ∀ order toUppercase,
        ((transform order toUppercase (emailRequest [⟨"system".toList, .text "hi".toList⟩])).run new).run = none := by
  refine ⟨emailRequest_flagged _, fun order toUppercase => ?_⟩
  have happly : ((applySubstitution order toUppercase [emailMatch] "hi".toList).run new).run = none := by
    change Option.map _ (replaceEach _ _ _ (rightmostFirst _ [_]) _) = _
    rw [rightmostFirst, List.mergeSort_singleton]
    rfl
  have hmessages : ((rewriteTextMessages (emailRequest [⟨"system".toList, .text "hi".toList⟩])
      (applySubstitution order toUppercase [emailMatch])).run new).run = none := by
    apply Rewrite.run_bind_of_panic
    rw [emailRequest, List.cons_append, List.mapM_cons]
    apply Rewrite.run_bind_of_panic
    exact Rewrite.run_bind_of_panic happly _
  exact Rewrite.run_bind_of_panic hmessages _

end CodewordAnonymizer

end Fluent.Router
