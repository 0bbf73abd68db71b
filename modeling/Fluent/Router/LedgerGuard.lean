import Fluent.Library.RegexCut
import Fluent.Library.Splice
import Fluent.Router.Deterministic
import Fluent.Router.InjectionDetect
import Mathlib.Data.List.TakeWhile

open Fluent.Library

namespace Fluent.Router

open Fluent.Spacy (Text)
open Regex CharRegex

theorem avoids_of_ascii (U : Unicode) {re : CharRegex} {c : Char} (hc : c.toNat < 128) (hfloat : re.floating = true)
    (h : ∀ k ∈ re.classes, k.holds .ascii c = false) : re.Avoids (CharClass.reading U) c :=
  ⟨hfloat, fun k hk => (k.holds_ascii U hc).trans (h k hk)⟩

structure Apart (inner : Text) (re : CharRegex) : Prop where
  floating : re.floating = true
  brackets : ∀ k ∈ re.classes, k.holds .ascii '[' = false ∧ k.holds .ascii ']' = false
  inner : hasMatch (CharClass.reading .ascii) re none inner = false

instance (inner : Text) (re : CharRegex) : Decidable (Apart inner re) :=
  decidable_of_iff (re.floating = true ∧ (∀ k ∈ re.classes, k.holds .ascii '[' = false ∧ k.holds .ascii ']' = false) ∧
    hasMatch (CharClass.reading .ascii) re none inner = false)
    ⟨fun ⟨hfloat, hbrackets, hinner⟩ => ⟨hfloat, hbrackets, hinner⟩, fun h => ⟨h.floating, h.brackets, h.inner⟩⟩

namespace InjectionRules

def placeholder (name : Text) : Text := "REDACTED".toList ++ ':' :: name

def outputNames : List Text := ["ssn".toList, "card_number".toList, "email".toList, "phone".toList]

end InjectionRules

open InjectionRules

structure ScrubbedText where
  text : Text
  flagged : Bool
  pattern : Option Text
deriving DecidableEq

def replacementFor (action : FilterAction) (matchedPattern : Text) : Text :=
  match action with
  | .redact | .anonymize => "[REDACTED:".toList ++ matchedPattern ++ "]".toList
  | .omit => []

def applyFilterDecision (text : Text) : FilterDecision → Option ScrubbedText
  | .hardReject pattern _ => some ⟨"[rejected: ".toList ++ pattern ++ "]".toList, true, some pattern⟩
  | .outputFilter action matchedPattern _ hits => do
    let result ← replaceEach RegexMatch.start RegexMatch.stop (fun _ => replacementFor action matchedPattern)
      (rightmostFirst RegexMatch.start hits) text
    some ⟨result, true, some matchedPattern⟩
  | .softRedirect _ _ => some ⟨text, false, none⟩

def scrubForLedger (U : Unicode) (text : Text) : Option ScrubbedText :=
  match (builtinFilterEngine U).evaluate (.ledgerWrite text) with
  | some decision => applyFilterDecision text decision
  | none => some ⟨text, false, none⟩

namespace RegexFilter

variable (U : Unicode) (filter : RegexFilter)

def release : Piece Char → List (Piece Char)
  | .keep c => [.keep c]
  | .hit w => if filter.admits w then [.hit w] else w.map .keep

def cut (re : CharRegex) (text : Text) : List (Piece Char) :=
  (pieces (CharClass.reading U) re false none text).flatMap filter.release

def toMatch (m : ℕ × Text) : RegexMatch where
  patternName := filter.name
  matchedText := m.2
  start := m.1
  stop := m.1 + utf8Len m.2
  action := filter.action.getD .redact

structure Simple (re : CharRegex) : Prop where
  regexes : filter.regexes = [re]
  scopes : .any ∈ filter.scopes
  outcome : filter.outcome = .outputFilter ∨ filter.outcome = .hardReject ∧ filter.confidenceGate = .none
  nonempty : re.nullable = false
  opening : re.Avoids (CharClass.reading U) '['
  closing : re.Avoids (CharClass.reading U) ']'

end RegexFilter

theorem hitsFrom_snd (pos : ℕ) (ps : List (Piece Char)) : (hitsFrom pos ps).map Prod.snd = hitsOf ps := by
  induction ps generalizing pos with
  | nil => rfl
  | cons p ps ih =>
    cases p with
    | keep c => exact ih _
    | hit w => exact congrArg _ (ih _)

theorem findIter_eq_nil {U : Unicode} {re : CharRegex} (hnull : re.nullable = false) (text : Text) :
    findIter U re text = [] ↔ isMatch U re text = false := by
  rw [isMatch, ← hits_eq_nil_iff hnull false, ← hitsFrom_snd 0, List.map_eq_nil_iff]
  rfl

namespace RegexFilter

variable {U : Unicode} {filter : RegexFilter} {re : CharRegex}

theorem Simple.active (h : filter.Simple U re) (text : Text) :
    (filter.scopes.any fun s => s ∈ (FilterContext.ledgerWrite text).activeScopes) = true :=
  List.any_eq_true.mpr ⟨.any, h.scopes, decide_eq_true List.mem_cons_self⟩

theorem Simple.evaluate_output (h : filter.Simple U re) (hout : filter.outcome = .outputFilter) (text : Text) :
    filter.evaluate U (.ledgerWrite text) =
      let hits := ((findIter U re text).filter fun m => filter.admits m.2).map filter.toMatch
      if hits = [] then none
      else some (.outputFilter (filter.action.getD .redact) filter.name ∅ hits) := by
  unfold evaluate
  rw [if_pos (h.active text), hout, h.regexes]
  simp only [List.flatMap_cons, List.flatMap_nil, List.append_nil]
  rfl

theorem Simple.evaluate_eq_none (h : filter.Simple U re) (text : Text) :
    filter.evaluate U (.ledgerWrite text) = none ↔
      ∀ w ∈ hitsOf (pieces (CharClass.reading U) re false none text), filter.admits w = false := by
  have hmem : (∀ w ∈ hitsOf (pieces (CharClass.reading U) re false none text), filter.admits w = false) ↔
      ∀ m ∈ findIter U re text, filter.admits m.2 = false := by
    rw [← hitsFrom_snd 0, List.forall_mem_map]
    rfl
  rw [hmem]
  rcases h.outcome with hout | ⟨hout, hgate⟩
  · rw [h.evaluate_output hout]
    simp
  · have hadmits : ∀ w, filter.admits w = true := by
      intro w
      rw [admits, hgate]
    have hmessage : (FilterContext.ledgerWrite text).userMessage = text := rfl
    unfold evaluate
    rw [if_pos (h.active text), hout, h.regexes]
    cases hfind : findIter U re text with
    | nil => simp [hmessage, (findIter_eq_nil h.nonempty text).mp hfind]
    | cons m ms =>
      have hyes : isMatch U re text = true := by
        rw [← Bool.not_eq_false, ← findIter_eq_nil h.nonempty, hfind]
        exact List.cons_ne_nil m ms
      constructor
      · intro hnone
        simp [hmessage, hyes, hfind, hadmits] at hnone
      · intro hall
        have hheld := hall m List.mem_cons_self
        rw [hadmits] at hheld
        cases hheld

theorem covers_release (mark : Text) {ps : List (Piece Char)} (hne : ∀ w ∈ hitsOf ps, w ≠ []) (pos : ℕ) :
    Covers RegexMatch.start RegexMatch.stop (fun _ => mark) pos
      (((hitsFrom pos ps).filter fun m => filter.admits m.2).map filter.toMatch) (textOf ps)
      (renderAll mark (ps.flatMap filter.release)) := by
  induction ps generalizing pos with
  | nil => exact .done pos []
  | cons p ps ih =>
    cases p with
    | keep c => exact .keep c (ih hne _)
    | hit w =>
      have ih := ih (fun w' hw' => hne w' (List.mem_cons_of_mem _ hw')) (pos + utf8Len w)
      rw [hitsFrom, textOf_cons, List.flatMap_cons, renderAll_append, release]
      cases hw : filter.admits w with
      | true =>
        rw [List.filter_cons_of_pos (by exact hw), List.map_cons]
        have hmark : renderAll mark [.hit w] = mark := List.append_nil mark
        rw [if_pos rfl, hmark]
        exact .edit _ w (hne w List.mem_cons_self) rfl rfl ih
      | false =>
        rw [List.filter_cons_of_neg (by simp [hw]), if_neg Bool.false_ne_true, renderAll_keep]
        exact ih.keepAll w

theorem Simple.evaluate_of_no_match (h : filter.Simple U re) {text : Text} (hno : isMatch U re text = false) :
    filter.evaluate U (.ledgerWrite text) = none := by
  rw [h.evaluate_eq_none, (hits_eq_nil_iff h.nonempty _ _ _).mpr hno]
  exact fun w hw => absurd hw List.not_mem_nil

theorem Simple.reject (h : filter.Simple U re) (hout : filter.outcome ≠ .outputFilter) {text : Text}
    {decision : FilterDecision} (hd : filter.evaluate U (.ledgerWrite text) = some decision) :
    ∃ message, decision = .hardReject filter.name message := by
  obtain ⟨hreject, -⟩ := h.outcome.resolve_left hout
  unfold evaluate at hd
  rw [if_pos (h.active text), hreject] at hd
  obtain ⟨_, -, hd⟩ := Option.bind_eq_some_iff.mp hd
  obtain ⟨_, -, hd⟩ := Option.bind_eq_some_iff.mp hd
  split at hd
  · exact ⟨_, (Option.some.inj hd).symm⟩
  · cases hd

theorem replacementFor_eq {action : FilterAction} (haction : action ≠ .omit) (name : Text) :
    replacementFor action name = '[' :: (placeholder name ++ [']']) := by
  have hassoc : ∀ front : Text, ('[' :: (front ++ [':'])) ++ name ++ [']'] = '[' :: ((front ++ ':' :: name) ++ [']']) := by
    simp
  have hmark : "[REDACTED:".toList ++ name ++ "]".toList = '[' :: (placeholder name ++ [']']) := hassoc "REDACTED".toList
  revert haction
  cases action
  · exact fun _ => hmark
  · exact fun _ => hmark
  · exact fun h => absurd rfl h

theorem Simple.apply_output (h : filter.Simple U re) (hout : filter.outcome = .outputFilter)
    (haction : filter.action.getD .redact ≠ .omit) {text : Text} {decision : FilterDecision}
    (hd : filter.evaluate U (.ledgerWrite text) = some decision) :
    ∃ s, applyFilterDecision text decision = some s ∧
      s.text = joined ('[' :: (placeholder filter.name ++ [']'])) (stretches (filter.cut U re text)) := by
  have hne : ∀ w ∈ hitsOf (pieces (CharClass.reading U) re false none text), w ≠ [] :=
    fun w => ne_nil_of_mem_hits h.nonempty
  have hcover := (filter.covers_release ('[' :: (placeholder filter.name ++ [']'])) hne 0).replaceEach [] rfl
  rw [textOf_pieces, List.nil_append, List.nil_append, renderAll_eq_joined] at hcover
  rw [h.evaluate_output hout] at hd
  dsimp only at hd
  split at hd
  · cases hd
  · obtain rfl := (Option.some.inj hd).symm
    refine ⟨⟨_, true, some filter.name⟩, ?_, rfl⟩
    rw [applyFilterDecision, replacementFor_eq haction, findIter, hcover]
    rfl

theorem Simple.mem_renderAll (h : filter.Simple U re) {text : Text} {decision : FilterDecision}
    (hd : filter.evaluate U (.ledgerWrite text) = some decision) {mark : Text} {c : Char} (hc : c ∈ mark) :
    c ∈ renderAll mark (filter.cut U re text) := by
  have hhit : ∃ w ∈ hitsOf (pieces (CharClass.reading U) re false none text), filter.admits w = true := by
    by_contra hnone
    push Not at hnone
    have hno := (h.evaluate_eq_none text).mpr fun w hw => Bool.eq_false_of_not_eq_true (hnone w hw)
    exact Option.some_ne_none decision (hd.symm.trans hno)
  obtain ⟨w, hw, hadmits⟩ := hhit
  have hmem : Piece.hit w ∈ filter.cut U re text := by
    refine List.mem_flatMap.mpr ⟨.hit w, mem_hitsOf.mp hw, ?_⟩
    rw [release, if_pos hadmits]
    exact List.mem_singleton_self _
  exact List.mem_flatMap.mpr ⟨.hit w, hmem, hc⟩

end RegexFilter

theorem builtinFilters_facts : ∀ filter ∈ builtinFilters,
    filter.regexes.length = 1 ∧ .any ∈ filter.scopes ∧
      (filter.outcome = .outputFilter ∨ filter.outcome = .hardReject ∧ filter.confidenceGate = .none) ∧
      (filter.outcome = .outputFilter → filter.name ∈ outputNames ∧ filter.action.getD .redact ≠ .omit) ∧
      (filter.outcome ≠ .outputFilter → filter.name = "api_key".toList) ∧
      ∀ re ∈ filter.regexes, re.nullable = false ∧ ∀ name ∈ outputNames, Apart (placeholder name) re := by
  decide +kernel

theorem builtinFilters_simple (U : Unicode) {filter : RegexFilter} (hf : filter ∈ builtinFilters) :
    ∃ re, filter.Simple U re ∧ ∀ name ∈ outputNames, Apart (placeholder name) re := by
  obtain ⟨hlen, hscope, hout, -, -, hre⟩ := builtinFilters_facts filter hf
  obtain ⟨re, hregexes⟩ := List.length_eq_one_iff.mp hlen
  obtain ⟨hnull, hapart⟩ := hre re (hregexes ▸ List.mem_singleton_self re)
  have hssn := hapart "ssn".toList List.mem_cons_self
  exact ⟨re, ⟨hregexes, hscope, hout, hnull,
    avoids_of_ascii U (by decide) hssn.floating fun k hk => (hssn.brackets k hk).1,
    avoids_of_ascii U (by decide) hssn.floating fun k hk => (hssn.brackets k hk).2⟩, hapart⟩

theorem engine_eq_none (U : Unicode) (text : Text) :
    (builtinFilterEngine U).evaluate (.ledgerWrite text) = none ↔
      (∀ filter ∈ builtinFilters, filter.evaluate U (.ledgerWrite text) = none) ∧
        (InjectionDetectFilter.tally U text).score < 30 := by
  have hinjection := InjectionDetectFilter.evaluate_eq_none U (.ledgerWrite text)
  change _ ↔ (InjectionDetectFilter.tally U text).score < 30 at hinjection
  rw [← hinjection]
  unfold builtinFilterEngine DeterministicFilterEngine.evaluate
  rw [List.findSome?_eq_none_iff, List.forall_mem_append, List.forall_mem_map, List.forall_mem_singleton]

def Harmless (text : Text) : Prop :=
  (∀ c ∈ text, c.toNat < 128) ∧
    (∀ filter ∈ builtinFilters, ∀ re ∈ filter.regexes, isMatch .ascii re text = false) ∧
    ∀ rule ∈ injectionRulesUnsorted, isMatch .ascii rule.re text = false

instance (text : Text) : Decidable (Harmless text) := inferInstanceAs (Decidable (_ ∧ _ ∧ _))

theorem Harmless.evaluate {text : Text} (h : Harmless text) (U : Unicode) :
    (builtinFilterEngine U).evaluate (.ledgerWrite text) = none := by
  obtain ⟨hascii, hfilters, hrules⟩ := h
  have hagree := agree_ascii U hascii
  rw [engine_eq_none]
  constructor
  · intro filter hfilter
    obtain ⟨re, hre, -⟩ := builtinFilters_simple U hfilter
    apply hre.evaluate_of_no_match
    exact (hasMatch_congr hagree).trans (hfilters filter hfilter re (hre.regexes ▸ List.mem_singleton_self re))
  · have hnone : InjectionDetectFilter.tally U text = ⟨0, []⟩ :=
      InjectionDetectFilter.tallyBy_of_no_match fun rule hrule =>
        (hasMatch_congr hagree).trans (hrules rule (List.mem_mergeSort.mp hrule))
    rw [hnone]
    decide

theorem Harmless.scrub {text : Text} (h : Harmless text) (U : Unicode) :
    scrubForLedger U text = some ⟨text, false, none⟩ := by
  rw [scrubForLedger, h.evaluate U]

theorem engine_evaluate (U : Unicode) (text : Text) : (builtinFilterEngine U).evaluate (.ledgerWrite text) =
    (builtinFilters.findSome? fun filter => filter.evaluate U (.ledgerWrite text)).or
      (InjectionDetectFilter.evaluate U ⟨30⟩ (.ledgerWrite text)) := by
  unfold builtinFilterEngine DeterministicFilterEngine.evaluate
  rw [List.findSome?_append, List.findSome?_map, List.findSome?_singleton]
  rfl

theorem scrubForLedger_cases (U : Unicode) (text : Text) :
    (builtinFilterEngine U).evaluate (.ledgerWrite text) = none ∧ scrubForLedger U text = some ⟨text, false, none⟩ ∨
      ∃ s, scrubForLedger U text = some s ∧ '[' ∈ s.text := by
  have hrejected : ∀ pattern message, applyFilterDecision text (.hardReject pattern message) =
      some ⟨"[rejected: ".toList ++ pattern ++ "]".toList, true, some pattern⟩ := fun _ _ => rfl
  unfold scrubForLedger
  cases hd : (builtinFilterEngine U).evaluate (.ledgerWrite text) with
  | none => exact Or.inl ⟨rfl, rfl⟩
  | some decision =>
    right
    rw [engine_evaluate, Option.or_eq_some_iff] at hd
    rcases hd with hfirst | ⟨-, hinjection⟩
    · obtain ⟨filter, hfilter, hd⟩ := List.exists_of_findSome?_eq_some hfirst
      obtain ⟨re, hre, -⟩ := builtinFilters_simple U hfilter
      obtain ⟨-, -, -, houtput, -, -⟩ := builtinFilters_facts filter hfilter
      by_cases hout : filter.outcome = .outputFilter
      · obtain ⟨s, hs, htext⟩ := hre.apply_output hout (houtput hout).2 hd
        refine ⟨s, hs, ?_⟩
        rw [htext, ← renderAll_eq_joined]
        exact hre.mem_renderAll hd List.mem_cons_self
      · obtain ⟨message, rfl⟩ := hre.reject hout hd
        exact ⟨_, hrejected _ _, List.mem_cons_self⟩
    · obtain ⟨message, rfl⟩ := InjectionDetectFilter.eq_hardReject_of_evaluate hinjection
      exact ⟨_, hrejected _ _, List.mem_cons_self⟩

theorem scrubForLedger_isSome (U : Unicode) (text : Text) : (scrubForLedger U text).isSome := by
  rcases scrubForLedger_cases U text with ⟨-, hs⟩ | ⟨s, hs, -⟩
  · rw [hs, Option.isSome_some]
  · rw [hs, Option.isSome_some]

end Fluent.Router
