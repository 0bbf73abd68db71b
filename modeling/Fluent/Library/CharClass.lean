import Fluent.Library.RegexShape
import Fluent.Library.Utf8

namespace Fluent.Library

inductive ClassItem where
  | range (lo hi : Char)
  | digit
  | space
  | word
deriving DecidableEq

structure CharClass where
  items : List ClassItem
  negated : Bool
  noCase : Bool
deriving DecidableEq

/-- The Unicode tables behind `\w`, `\d` and `\s`, of which only the ASCII part is fixed. -/
structure Unicode where
  word : Char → Bool
  digit : Char → Bool
  space : Char → Bool
  ascii_word : ∀ c : Char, c.toNat < 128 → word c = (c.isAlphanum || c == '_')
  ascii_digit : ∀ c : Char, c.toNat < 128 → digit c = c.isDigit
  ascii_space : ∀ c : Char, c.toNat < 128 → space c = (decide (9 ≤ c.toNat ∧ c.toNat ≤ 13) || c == ' ')

namespace Unicode

def ascii : Unicode where
  word c := c.isAlphanum || c == '_'
  digit c := c.isDigit
  space c := decide (9 ≤ c.toNat ∧ c.toNat ≤ 13) || c == ' '
  ascii_word _ _ := rfl
  ascii_digit _ _ := rfl
  ascii_space _ _ := rfl

end Unicode

def ClassItem.holds (U : Unicode) : ClassItem → Char → Bool
  | range lo hi, c => lo ≤ c && c ≤ hi
  | digit, c => U.digit c
  | space, c => U.space c
  | word, c => U.word c

def caseVariants (c : Char) : List Char :=
  [c, c.toLower, c.toUpper] ++ (if c = '\u212a' then ['k', 'K'] else if c = '\u017f' then ['s', 'S'] else [])

namespace CharClass

def holds (U : Unicode) (k : CharClass) (c : Char) : Bool :=
  ((if k.noCase then caseVariants c else [c]).any fun d => k.items.any fun item => item.holds U d) != k.negated

def reading (U : Unicode) : Regex.Reading CharClass Char := ⟨holds U, U.word⟩

end CharClass

theorem caseVariants_ascii {c : Char} (hc : c.toNat < 128) : ∀ d ∈ caseVariants c, d.toNat < 128 := by
  have hall : ∀ n < 128, ∀ d ∈ caseVariants (Char.ofNat n), d.toNat < 128 := by decide +kernel
  have h := hall c.toNat hc
  rw [Char.ofNat_toNat] at h
  exact h

theorem ClassItem.holds_ascii (U : Unicode) (item : ClassItem) {c : Char} (hc : c.toNat < 128) :
    item.holds U c = item.holds .ascii c := by
  cases item with
  | range lo hi => rfl
  | digit => exact U.ascii_digit c hc
  | space => exact U.ascii_space c hc
  | word => exact U.ascii_word c hc

theorem CharClass.holds_ascii (U : Unicode) (k : CharClass) {c : Char} (hc : c.toNat < 128) :
    k.holds U c = k.holds .ascii c := by
  have hany : ∀ ds : List Char, (∀ d ∈ ds, d.toNat < 128) →
      (ds.any fun d => k.items.any fun item => item.holds U d) =
        ds.any fun d => k.items.any fun item => item.holds .ascii d := by
    intro ds hds
    induction ds with
    | nil => rfl
    | cons d ds ih =>
      have hitems : (fun item : ClassItem => item.holds U d) = fun item => item.holds .ascii d :=
        funext fun item => item.holds_ascii U (hds d List.mem_cons_self)
      rw [List.any_cons, List.any_cons, hitems, ih fun d hd => hds d (List.mem_cons_of_mem _ hd)]
  unfold holds
  split
  · rw [hany _ (caseVariants_ascii hc)]
  · rw [hany [c] (by simpa using hc)]

theorem agree_ascii (U : Unicode) {s : List Char} (hs : ∀ c ∈ s, c.toNat < 128) :
    Regex.Agree (CharClass.reading U) (CharClass.reading .ascii) none s := by
  intro c hc
  have hc := hs c hc
  exact ⟨U.ascii_word c hc, fun k => k.holds_ascii U hc⟩

abbrev CharRegex := Regex CharClass

namespace CharRegex

open Regex

def oneOf (items : List ClassItem) : CharRegex := .cls ⟨items, false, false⟩

def noneOf (items : List ClassItem) : CharRegex := .cls ⟨items, true, false⟩

def one (c : Char) : CharRegex := oneOf [.range c c]

def digit : CharRegex := oneOf [.digit]

def space : CharRegex := oneOf [.space]

def cat : List CharRegex → CharRegex
  | [] => .empty
  | [r] => r
  | r :: rs => .seq r (cat rs)

def lit (s : String) : CharRegex := cat (s.toList.map one)

def alts : List CharRegex → CharRegex
  | [] => .empty
  | [r] => r
  | r :: rs => .alt r (alts rs)

def opt (r : CharRegex) : CharRegex := .rep true 0 (some 1) r

def star (r : CharRegex) : CharRegex := .rep true 0 none r

def plus (r : CharRegex) : CharRegex := .rep true 1 none r

def atLeast (n : ℕ) (r : CharRegex) : CharRegex := .rep true n none r

def between (lo hi : ℕ) (r : CharRegex) : CharRegex := .rep true lo (some (hi - lo)) r

def exactly (n : ℕ) (r : CharRegex) : CharRegex := between n n r

def ignoreCase : CharRegex → CharRegex
  | .cls k => .cls { k with noCase := true }
  | .seq r t => .seq (ignoreCase r) (ignoreCase t)
  | .alt r t => .alt (ignoreCase r) (ignoreCase t)
  | .rep greedy lo more r => .rep greedy lo more (ignoreCase r)
  | r => r

end CharRegex

end Fluent.Library
