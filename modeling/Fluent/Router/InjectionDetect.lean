import Fluent.Router.Filters

open Fluent.Library

namespace Fluent.Router

open Fluent.Spacy (Text)
open CharRegex

inductive InjectionCategory where
  | instructionOverride
  | roleHijack
  | delimiterEscape
  | jailbreak
  | payloadDrop
deriving DecidableEq

def InjectionCategory.label : InjectionCategory → Text
  | instructionOverride => "instruction_override".toList
  | roleHijack => "role_hijack".toList
  | delimiterEscape => "delimiter_escape".toList
  | jailbreak => "jailbreak".toList
  | payloadDrop => "payload_drop".toList

structure InjectionRule where
  re : CharRegex
  category : InjectionCategory
  weight : ℕ
  priority : ℕ

namespace InjectionRules

def sp : CharRegex := plus space

def plural (s : String) : CharRegex := cat [lit s, opt (one 's')]

def optWord (s : String) : CharRegex := opt (cat [lit s, sp])

def words (ss : List String) : CharRegex := cat ((ss.map lit).intersperse sp)

def dot : CharRegex := noneOf [.range '\n' '\n']

def overrideInstructions : CharRegex := ignoreCase (cat [
  alts [lit "ignore", lit "forget", lit "disregard", lit "override"], sp,
  opt (alts [
    cat [lit "all", sp, optWord "of", optWord "your", optWord "previous", optWord "prior"],
    cat [lit "your", sp, optWord "previous"],
    cat [lit "previous", sp], cat [lit "prior", sp], cat [lit "the", sp], cat [lit "above", sp]]),
  alts [plural "instruction", plural "prompt", cat [plural "rule", .boundary], plural "command",
    plural "directive", plural "guideline"]])

def youAreNow : CharRegex := ignoreCase (alts [
  words ["you", "are", "now"], words ["from", "now", "on", "you", "are"],
  cat [words ["act", "as"], sp, alts [words ["if", "you", "are"], words ["a", "different"]]]])

def stopFollowing : CharRegex := ignoreCase (cat [
  alts [words ["do", "not", "follow"], words ["stop", "following"]], sp, optWord "your",
  alts [plural "instruction", plural "guideline", lit "programming"]])

def newPersona : CharRegex := ignoreCase (cat [
  words ["you", "are"], sp, optWord "now",
  alts [lit "DAN", lit "STAN", lit "MAN",
    cat [words ["a", "different"], sp, alts [lit "AI", lit "model", lit "assistant", lit "persona"]],
    cat [words ["no", "longer"], sp, opt (cat [lit "a", opt (one 'n'), sp]),
      alts [lit "AI", lit "assistant", lit "model"]]]])

def rolePlay : CharRegex := ignoreCase (cat [
  alts [lit "pretend", lit "imagine", lit "roleplay", cat [lit "role", opt dot, lit "play"]], sp,
  alts [words ["you", "are"], words ["to", "be"], words ["that", "you", "are"]]])

def wantYouTo : CharRegex := ignoreCase (cat [
  words ["I", "want", "you", "to"], sp, alts [lit "act", lit "behave", lit "respond"], sp,
  alts [lit "as", lit "like"]])

def newSession : CharRegex := ignoreCase (alts [
  cat [lit "forget", sp, optWord "about", lit "everything", sp,
    alts [lit "above", lit "below", lit "before", lit "after"]],
  cat [words ["new", "session"], star space, alts [plural "start", plural "begin"], star space, lit "now"],
  cat [words ["start", "new"], sp, alts [lit "conversation", lit "chat", lit "session"]]])

def roleTags : CharRegex := ignoreCase (alts [
  lit "[system]", lit "[/system]", lit "[prompt]", lit "[/prompt]", lit "[assistant]", lit "[/assistant]",
  lit "[user]", lit "[/user]"])

def danMode : CharRegex := ignoreCase (alts [
  words ["you", "are", "now", "DAN"], cat [lit "DAN", sp, alts [lit "mode", lit "prompt", lit "jailbreak"]]])

def jailbreakMode : CharRegex := ignoreCase (alts [
  lit "jailbreak", words ["developer", "mode"], words ["god", "mode"]])

def bypassFilter : CharRegex := ignoreCase (cat [
  alts [lit "bypass", lit "circumvent"], sp, optWord "content",
  alts [lit "filter", plural "restriction", plural "safeguard", lit "moderation", lit "policy", lit "policies"]])

def dropTable : CharRegex := ignoreCase (cat [
  .boundary,
  alts [
    cat [lit "DROP", sp, alts [lit "TABLE", lit "DATABASE", lit "INDEX", lit "VIEW", lit "SCHEMA"]],
    words ["DELETE", "FROM"], words ["TRUNCATE", "TABLE"]],
  .boundary])

def removeFiles : CharRegex := cat [
  .boundary, lit "rm", sp,
  alts [cat [lit "-r", opt (one 'f'), sp], cat [lit "--recursive", sp]],
  alts [one '/', oneOf (Llm.chars "~.")], star (noneOf [.space])]

def shellCall : CharRegex := ignoreCase (cat [
  .boundary,
  cat [one ':', between 1 2 .empty, star space, opt (one '|'), star space,
    alts [lit "cat", lit "exec", lit "system", lit "eval", lit "popen", lit "shell_exec"], star space],
  opt (one '('), star dot, opt (one ')'), .boundary])

end InjectionRules

open InjectionRules in
def injectionRulesUnsorted : List InjectionRule :=
  [⟨overrideInstructions, .instructionOverride, 30, 3⟩, ⟨youAreNow, .instructionOverride, 25, 2⟩,
    ⟨stopFollowing, .instructionOverride, 25, 1⟩, ⟨newPersona, .roleHijack, 35, 3⟩,
    ⟨rolePlay, .roleHijack, 20, 2⟩, ⟨wantYouTo, .roleHijack, 20, 1⟩, ⟨newSession, .delimiterEscape, 25, 2⟩,
    ⟨roleTags, .delimiterEscape, 30, 3⟩, ⟨danMode, .jailbreak, 40, 3⟩, ⟨jailbreakMode, .jailbreak, 40, 2⟩,
    ⟨bypassFilter, .jailbreak, 35, 1⟩, ⟨dropTable, .payloadDrop, 40, 3⟩, ⟨removeFiles, .payloadDrop, 40, 2⟩,
    ⟨shellCall, .payloadDrop, 30, 1⟩]

def injectionRules : List InjectionRule :=
  injectionRulesUnsorted.mergeSort fun a b => b.priority ≤ a.priority

structure InjectionDetectFilter where
  threshold : ℕ

namespace InjectionDetectFilter

structure Tally where
  score : ℕ
  seen : List InjectionCategory
deriving DecidableEq

def tallyBy (hasMatched : InjectionRule → Bool) : Tally :=
  injectionRules.foldl (fun t rule =>
    if hasMatched rule ∧ rule.category ∉ t.seen then ⟨t.score + rule.weight, t.seen ++ [rule.category]⟩
    else t) ⟨0, []⟩

def tally (U : Unicode) (text : Text) : Tally := tallyBy fun rule => isMatch U rule.re text

def fixed2 (hundredths : ℕ) : Text :=
  (Nat.repr (hundredths / 100)).toList ++ '.' :: (Nat.repr (hundredths % 100 / 10)).toList ++
    (Nat.repr (hundredths % 10)).toList

def evaluate (U : Unicode) (filter : InjectionDetectFilter) (ctx : FilterContext) : Option FilterDecision :=
  if ctx.userMessage = [] then none
  else
    let t := tally U ctx.userMessage
    if t.score = 0 then none
    else
      let score := min t.score 100
      if filter.threshold ≤ score then
        some (.hardReject "injection_detect".toList
          ("Injection score ".toList ++ fixed2 score ++ " >= threshold ".toList ++ fixed2 filter.threshold ++
            "; labels: ".toList ++ List.intercalate ", ".toList (t.seen.map InjectionCategory.label)))
      else none

theorem tallyBy_of_no_match {hasMatched : InjectionRule → Bool}
    (h : ∀ rule ∈ injectionRules, hasMatched rule = false) : tallyBy hasMatched = ⟨0, []⟩ := by
  have hsame : ∀ (t : Tally), ∀ rule ∈ injectionRules,
      (if hasMatched rule ∧ rule.category ∉ t.seen then
        (⟨t.score + rule.weight, t.seen ++ [rule.category]⟩ : Tally) else t) = t := by
    intro t rule hrule
    rw [h rule hrule, if_neg fun hand => Bool.false_ne_true hand.1]
  exact (List.foldl_ext _ (fun t _ => t) _ hsame).trans (List.foldl_fixed _)

theorem tally_nil (U : Unicode) : tally U [] = ⟨0, []⟩ := by
  have hnone : ∀ rule ∈ injectionRulesUnsorted, isMatch .ascii rule.re [] = false := by decide +kernel
  apply tallyBy_of_no_match
  intro rule hrule
  rw [← hnone rule (List.mem_mergeSort.mp hrule)]
  exact Regex.hasMatch_congr (agree_ascii U fun c hc => absurd hc List.not_mem_nil)

theorem evaluate_eq_none (U : Unicode) (ctx : FilterContext) :
    evaluate U ⟨30⟩ ctx = none ↔ (tally U ctx.userMessage).score < 30 := by
  unfold evaluate
  split
  · next h => simp [h, tally_nil]
  · dsimp only
    split
    · next h => simp [h]
    · next h =>
      split
      · next hle => simp; omega
      · next hle => simp; omega

theorem eq_hardReject_of_evaluate {U : Unicode} {filter : InjectionDetectFilter} {ctx : FilterContext}
    {decision : FilterDecision} (h : filter.evaluate U ctx = some decision) :
    ∃ message, decision = .hardReject "injection_detect".toList message := by
  unfold evaluate at h
  split at h
  · cases h
  · dsimp only at h
    split at h
    · cases h
    · split at h
      · exact ⟨_, (Option.some.inj h).symm⟩
      · cases h

end InjectionDetectFilter

end Fluent.Router
