import Fluent.Library.Regex

namespace Fluent.Library.RegexText

/-! The written form of regular expressions, as far as it has single characters, escapes, `.`, negated classes of one
character, groups that do not capture, alternatives, `*`, `?` and the two anchors. -/

inductive CharSet where
  | char (c : Char)
  | dot
  | noneOf (c : Char)
deriving DecidableEq

namespace CharSet

def holds : CharSet → Char → Bool
  | char c, d => c == d
  | dot, d => d != '\n'
  | noneOf c, d => d != c

def reading : Regex.Reading CharSet Char := ⟨holds, fun c => c.isAlphanum || c == '_'⟩

end CharSet

inductive Token where
  | group
  | close
  | bar
  | star
  | opt
  | dot
  | noneOf (c : Char)
  | start
  | stop
  | lit (c : Char)
deriving DecidableEq

def metaChars : List Char := ['|', '\\', '{', '}', '(', ')', '[', ']', '^', '$', '+', '*', '?', '.']

def Token.text : Token → List Char
  | group => ['(', '?', ':']
  | close => [')']
  | bar => ['|']
  | star => ['*']
  | opt => ['?']
  | dot => ['.']
  | noneOf c => ['[', '^', c, ']']
  | start => ['^']
  | stop => ['$']
  | lit c => if c ∈ metaChars then ['\\', c] else [c]

def readToken (c : Char) (rest : List Char) : Option (Token × List Char) :=
  if c = '(' then if rest.take 2 = ['?', ':'] then some (.group, rest.drop 2) else none
  else if c = '[' then
    match rest with
    | '^' :: x :: ']' :: rest => some (.noneOf x, rest)
    | _ => none
  else if c = '\\' then
    match rest with
    | [] => none
    | x :: rest => if x ∈ metaChars then some (.lit x, rest) else none
  else if c = ')' then some (.close, rest)
  else if c = '|' then some (.bar, rest)
  else if c = '*' then some (.star, rest)
  else if c = '?' then some (.opt, rest)
  else if c = '.' then some (.dot, rest)
  else if c = '^' then some (.start, rest)
  else if c = '$' then some (.stop, rest)
  else if c ∈ metaChars then none
  else some (.lit c, rest)

def lex : ℕ → List Char → Option (List Token)
  | _, [] => some []
  | 0, _ :: _ => none
  | fuel + 1, c :: rest => (readToken c rest).bind fun t => (lex fuel t.2).map (t.1 :: ·)

abbrev Expr := Regex CharSet

def cat (items : List Expr) : Expr := items.foldr .seq .empty

structure Frame where
  alts : List Expr
  items : List Expr

namespace Frame

def new : Frame := ⟨[], []⟩

def push (f : Frame) (r : Expr) : Frame := ⟨f.alts, f.items ++ [r]⟩

def finish (f : Frame) : Expr := f.alts.foldr .alt (cat f.items)

def quantify (f : Frame) (more : Option ℕ) : Option Frame :=
  f.items.getLast?.map fun r => ⟨f.alts, f.items.dropLast ++ [.rep true 0 more r]⟩

end Frame

def feed (st : Frame × List Frame) : Token → Option (Frame × List Frame)
  | .group => some (.new, st.1 :: st.2)
  | .close =>
    match st.2 with
    | [] => none
    | outer :: above => some (outer.push st.1.finish, above)
  | .bar => some (⟨st.1.alts ++ [cat st.1.items], []⟩, st.2)
  | .star => (st.1.quantify none).map (·, st.2)
  | .opt => (st.1.quantify (some 1)).map (·, st.2)
  | .dot => some (st.1.push (.cls .dot), st.2)
  | .noneOf c => some (st.1.push (.cls (.noneOf c)), st.2)
  | .start => some (st.1.push .start, st.2)
  | .stop => some (st.1.push .stop, st.2)
  | .lit c => some (st.1.push (.cls (.char c)), st.2)

def assemble (tokens : List Token) : Option Expr :=
  (tokens.foldlM feed (Frame.new, [])).bind fun st => if st.2 = [] then some st.1.finish else none

def parse (text : List Char) : Option Expr := (lex text.length text).bind assemble

theorem Frame.quantify_push (f : Frame) (more : Option ℕ) (r : Expr) :
    (f.push r).quantify more = some (f.push (.rep true 0 more r)) := by
  unfold Frame.quantify Frame.push
  dsimp only
  rw [List.getLast?_concat, List.dropLast_concat]
  rfl

theorem Frame.push_items (f : Frame) (r : Expr) (items : List Expr) :
    (f.push r).items ++ items = f.items ++ r :: items := by
  rw [Frame.push, List.append_assoc, List.singleton_append]

theorem readToken_text (t : Token) (rest : List Char) :
    ∃ c tail, t.text = c :: tail ∧ readToken c (tail ++ rest) = some (t, rest) := by
  cases t with
  | lit c =>
    by_cases hc : c ∈ metaChars
    · exact ⟨'\\', [c], if_pos hc, if_pos hc⟩
    · refine ⟨c, [], if_neg hc, ?_⟩
      have hne : ∀ d ∈ metaChars, c ≠ d := fun d hd heq => hc (heq ▸ hd)
      unfold readToken
      rw [if_neg (hne '(' (by decide)), if_neg (hne '[' (by decide)), if_neg (hne '\\' (by decide)),
        if_neg (hne ')' (by decide)), if_neg (hne '|' (by decide)), if_neg (hne '*' (by decide)),
        if_neg (hne '?' (by decide)), if_neg (hne '.' (by decide)), if_neg (hne '^' (by decide)),
        if_neg (hne '$' (by decide)), if_neg hc]
      rfl
  | group => exact ⟨'(', ['?', ':'], rfl, rfl⟩
  | close => exact ⟨')', [], rfl, rfl⟩
  | bar => exact ⟨'|', [], rfl, rfl⟩
  | star => exact ⟨'*', [], rfl, rfl⟩
  | opt => exact ⟨'?', [], rfl, rfl⟩
  | dot => exact ⟨'.', [], rfl, rfl⟩
  | noneOf c => exact ⟨'[', ['^', c, ']'], rfl, rfl⟩
  | start => exact ⟨'^', [], rfl, rfl⟩
  | stop => exact ⟨'$', [], rfl, rfl⟩

theorem lex_flatMap {fuel : ℕ} {tokens : List Token} (h : tokens.length ≤ fuel) :
    lex fuel (tokens.flatMap Token.text) = some tokens := by
  induction tokens generalizing fuel with
  | nil =>
    cases fuel
    · rfl
    · rfl
  | cons t tokens ih =>
    obtain ⟨c, tail, htext, hread⟩ := readToken_text t (tokens.flatMap Token.text)
    cases fuel with
    | zero => exact absurd h (Nat.not_succ_le_zero _)
    | succ fuel =>
      rw [List.flatMap_cons, htext, List.cons_append]
      unfold lex
      rw [hread, Option.bind_some, ih (Nat.le_of_succ_le_succ h)]
      rfl

theorem length_le_flatMap (tokens : List Token) : tokens.length ≤ (tokens.flatMap Token.text).length := by
  induction tokens with
  | nil => exact le_rfl
  | cons t tokens ih =>
    obtain ⟨c, tail, htext, -⟩ := readToken_text t []
    rw [List.flatMap_cons, List.length_append, List.length_cons, htext, List.length_cons]
    omega

theorem parse_flatMap (tokens : List Token) : parse (tokens.flatMap Token.text) = assemble tokens := by
  unfold parse
  rw [lex_flatMap (length_le_flatMap tokens), Option.bind_some]

open Regex (Matches Iter after)

variable {prev next : Option Char} {w : List Char}

theorem matches_cat_cons {r : Expr} {items : List Expr} : Matches CharSet.reading (cat (r :: items)) prev w next ↔
    ∃ u v, w = u ++ v ∧ Matches CharSet.reading r prev u (v.head?.or next) ∧
      Matches CharSet.reading (cat items) (after prev u) v next :=
  Iff.rfl

theorem matches_cat_append (items items' : List Expr) : Matches CharSet.reading (cat (items ++ items')) prev w next ↔
    ∃ u v, w = u ++ v ∧ Matches CharSet.reading (cat items) prev u (v.head?.or next) ∧
      Matches CharSet.reading (cat items') (after prev u) v next := by
  induction items generalizing prev w with
  | nil =>
    constructor
    · intro h
      exact ⟨[], w, rfl, rfl, h⟩
    · rintro ⟨u, v, rfl, rfl, h⟩
      exact h
  | cons r items ih =>
    rw [List.cons_append, matches_cat_cons]
    constructor
    · rintro ⟨u, v, rfl, hr, h⟩
      obtain ⟨x, y, rfl, hx, hy⟩ := ih.mp h
      refine ⟨u ++ x, y, (List.append_assoc u x y).symm, ⟨u, x, rfl, ?_, hx⟩, ?_⟩
      · rwa [List.head?_append, Option.or_assoc] at hr
      · rwa [Regex.after_append]
    · rintro ⟨u, v, rfl, ⟨x, y, rfl, hr, hy⟩, h⟩
      refine ⟨x, y ++ v, List.append_assoc x y v, ?_, ih.mpr ⟨y, v, rfl, hy, ?_⟩⟩
      · rwa [List.head?_append, Option.or_assoc]
      · rwa [Regex.after_append] at h

theorem matches_star_cls {k : CharSet} :
    Matches CharSet.reading (.rep true 0 none (.cls k)) prev w next ↔ ∀ c ∈ w, k.holds c = true := by
  have hiter : ∀ (n : ℕ) (prev : Option Char) (w : List Char), Iter (Matches CharSet.reading (.cls k)) n prev w next ↔
      w.length = n ∧ ∀ c ∈ w, k.holds c = true := by
    intro n
    induction n with
    | zero =>
      intro prev w
      constructor
      · rintro rfl
        exact ⟨rfl, fun c hc => by cases hc⟩
      · exact fun h => List.length_eq_zero_iff.mp h.1
    | succ n ih =>
      intro prev w
      constructor
      · rintro ⟨u, v, rfl, ⟨c, rfl, hc⟩, hv⟩
        obtain ⟨hlen, hall⟩ := (ih _ _).mp hv
        refine ⟨congrArg (· + 1) hlen, fun d hd => ?_⟩
        rcases List.mem_cons.mp hd with rfl | hd
        · exact hc
        · exact hall d hd
      · rintro ⟨hlen, hall⟩
        cases w with
        | nil => cases hlen
        | cons c v =>
          refine ⟨[c], v, rfl, ⟨c, rfl, hall c List.mem_cons_self⟩, (ih _ _).mpr ⟨Nat.succ.inj hlen, fun d hd => ?_⟩⟩
          exact hall d (List.mem_cons_of_mem _ hd)
  constructor
  · rintro ⟨n, -, -, h⟩
    exact ((hiter n prev w).mp h).2
  · intro h
    exact ⟨w.length, Nat.zero_le _, nofun, (hiter _ prev w).mpr ⟨rfl, h⟩⟩

theorem matches_opt {r : Expr} : Matches CharSet.reading (.rep true 0 (some 1) r) prev w next ↔
    w = [] ∨ Matches CharSet.reading r prev w next := by
  constructor
  · rintro ⟨n, -, hn, h⟩
    have hle : n ≤ 0 + 1 := hn 1 rfl
    rcases Nat.le_one_iff_eq_zero_or_eq_one.mp hle with rfl | rfl
    · exact .inl h
    · obtain ⟨u, v, rfl, hu, hv⟩ := h
      obtain rfl : v = [] := hv
      rw [List.append_nil]
      exact .inr hu
  · rintro (rfl | h)
    · exact ⟨0, le_rfl, fun m hm => Nat.zero_le _, rfl⟩
    · exact ⟨1, Nat.zero_le 1, fun m hm => by cases hm; exact le_rfl, w, [], (List.append_nil w).symm, h, rfl⟩

end Fluent.Library.RegexText
