import Fluent.Library.RegexText
import Fluent.Spacy.Hash

namespace Fluent.Guidance.Query

open Fluent.Library
open Fluent.Library.RegexText (Token CharSet Expr Frame feed cat)
open Fluent.Spacy (Text)

def escapeRegexChar (c : Char) : Text :=
  if c ∈ ['|', '\\', '{', '}', '(', ')', '[', ']', '^', '$', '+', '*', '?', '.'] then ['\\', c] else [c]

def readGlobCharacterClass (rest : Text) : Option (Text × Text) :=
  if ']' ∉ rest then none
  else
    let content := rest.takeWhile (· ≠ ']')
    if content = [] ∨ content = ['!'] ∨ content = ['^'] then none
    else
      let negated := content.head? = some '!' ∨ content.head? = some '^'
      let body := if negated then content.drop 1 else content
      let escaped := body.flatMap fun c => if c = '\\' then ['\\', '\\'] else if c = '/' then ['\\', '/'] else [c]
      some (['['] ++ (if negated then ['^'] else []) ++ escaped ++ [']'], rest.drop (content.length + 1))

def readAlternatives (alternatives : List Text) (current : Text) (depth : ℕ) : Text → Option (List Text × Text)
  | [] => none
  | c :: rest =>
    if c = '{' then readAlternatives alternatives (current ++ [c]) (depth + 1) rest
    else if c = '}' ∧ 0 < depth then readAlternatives alternatives (current ++ [c]) (depth - 1) rest
    else if c = ',' ∧ depth = 0 then readAlternatives (alternatives ++ [current]) [] 0 rest
    else if c = '}' then if alternatives = [] then none else some (alternatives ++ [current], rest)
    else readAlternatives alternatives (current ++ [c]) depth rest

def readGlobAlternation (rest : Text) : Option (List Text × Text) := readAlternatives [] [] 0 rest

def globFragmentToRegex : ℕ → Text → Text
  | _, [] => []
  | 0, _ :: _ => []
  | fuel + 1, c :: rest =>
    if c = '*' then
      if rest.head? = some '*' then
        if rest.tail.head? = some '/' then "(?:.*/)?".toList ++ globFragmentToRegex fuel (rest.drop 2)
        else ".*".toList ++ globFragmentToRegex fuel rest.tail
      else "[^/]*".toList ++ globFragmentToRegex fuel rest
    else if c = '?' then "[^/]".toList ++ globFragmentToRegex fuel rest
    else if c = '[' then
      match readGlobCharacterClass rest with
      | some (cls, after) => cls ++ globFragmentToRegex fuel after
      | none => ['\\', '['] ++ globFragmentToRegex fuel rest
    else if c = '{' then
      match readGlobAlternation rest with
      | some (alternatives, after) =>
        "(?:".toList ++ List.intercalate ['|'] (alternatives.map (globFragmentToRegex fuel)) ++ [')'] ++
          globFragmentToRegex fuel after
      | none => ['\\', '{'] ++ globFragmentToRegex fuel rest
    else escapeRegexChar c ++ globFragmentToRegex fuel rest

def globExpression (pattern : Text) : Text :=
  (if '/' ∈ pattern then "^".toList else "^(?:.*/)?".toList) ++ globFragmentToRegex pattern.length pattern ++ "$".toList

-- an expression that does not compile is replaced by `^$`
def globToRegex (pattern : Text) : Expr :=
  (RegexText.parse (globExpression pattern)).getD (cat [.start, .stop])

def globPatternMatches (pattern path : Text) : Bool := (globToRegex pattern).hasMatch CharSet.reading none path

mutual

inductive Glob where
  | nil
  | lit (c : Char) (rest : Glob)
  | sep (rest : Glob)
  | one (rest : Glob)
  | star (rest : Glob)
  | deep (rest : Glob)
  | alt (branches : Branches) (rest : Glob)

inductive Branches where
  | two (p q : Glob)
  | more (p : Glob) (rest : Branches)

end

def special : List Char := ['*', '?', '[', ']', '{', '}', ',', '/', '\\']

mutual

def Glob.text : Glob → Text
  | .nil => []
  | .lit c rest => c :: rest.text
  | .sep rest => '/' :: rest.text
  | .one rest => '?' :: rest.text
  | .star rest => '*' :: rest.text
  | .deep rest => '*' :: '*' :: '/' :: rest.text
  | .alt branches rest => '{' :: (branches.text ++ '}' :: rest.text)

def Branches.text : Branches → Text
  | .two p q => p.text ++ ',' :: q.text
  | .more p rest => p.text ++ ',' :: rest.text

end

mutual

def Glob.WF : Glob → Prop
  | .nil => True
  | .lit c rest => c ∉ special ∧ rest.WF
  | .sep rest => rest.WF
  | .one rest => rest.WF
  | .star rest => rest.text.head? ≠ some '*' ∧ rest.WF
  | .deep rest => rest.WF
  | .alt branches rest => branches.WF ∧ rest.WF

def Branches.WF : Branches → Prop
  | .two p q => p.WF ∧ q.WF
  | .more p rest => p.WF ∧ rest.WF

end

mutual

def Glob.Lang : Glob → Text → Prop
  | .nil, w => w = []
  | .lit c rest, w => ∃ v, w = c :: v ∧ rest.Lang v
  | .sep rest, w => ∃ v, w = '/' :: v ∧ rest.Lang v
  | .one rest, w => ∃ c v, w = c :: v ∧ c ≠ '/' ∧ rest.Lang v
  | .star rest, w => ∃ u v, w = u ++ v ∧ '/' ∉ u ∧ rest.Lang v
  | .deep rest, w => ∃ u v, w = u ++ v ∧ (u = [] ∨ u.getLast? = some '/') ∧ rest.Lang v
  | .alt branches rest, w => ∃ u v, w = u ++ v ∧ branches.Lang u ∧ rest.Lang v

def Branches.Lang : Branches → Text → Prop
  | .two p q, w => p.Lang w ∨ q.Lang w
  | .more p rest, w => p.Lang w ∨ rest.Lang w

end

def Branches.texts : Branches → List Text
  | .two p q => [p.text, q.text]
  | .more p rest => p.text :: rest.texts

def deepTokens : List Token := [.group, .dot, .star, .lit '/', .close, .opt]

mutual

def Glob.tokens : Glob → List Token
  | .nil => []
  | .lit c rest => .lit c :: rest.tokens
  | .sep rest => .lit '/' :: rest.tokens
  | .one rest => .noneOf '/' :: rest.tokens
  | .star rest => .noneOf '/' :: .star :: rest.tokens
  | .deep rest => deepTokens ++ rest.tokens
  | .alt branches rest => .group :: (branches.tokens ++ .close :: rest.tokens)

def Branches.tokens : Branches → List Token
  | .two p q => p.tokens ++ .bar :: q.tokens
  | .more p rest => p.tokens ++ .bar :: rest.tokens

end

theorem readAlternatives_plain {c : Char} (hopen : c ≠ '{') (hclose : c ≠ '}') (alternatives : List Text)
    (current : Text) {depth : ℕ} (hcomma : c ≠ ',' ∨ 0 < depth) (rest : Text) :
    readAlternatives alternatives current depth (c :: rest) =
      readAlternatives alternatives (current ++ [c]) depth rest := by
  conv_lhs => unfold readAlternatives
  rw [if_neg hopen, if_neg fun h => hclose h.1, if_neg, if_neg hclose]
  rintro ⟨heq, hdepth⟩
  rcases hcomma with hne | hpos
  · exact hne heq
  · omega

mutual

theorem Glob.readAlternatives_text (g : Glob) (hg : g.WF) (alternatives : List Text) (current : Text) (depth : ℕ)
    (rest : Text) : readAlternatives alternatives current depth (g.text ++ rest) =
      readAlternatives alternatives (current ++ g.text) depth rest := by
  match g with
  | .nil => rw [Glob.text, List.append_nil, List.nil_append]
  | .lit c g =>
    have hne : ∀ d ∈ special, c ≠ d := fun d hd heq => hg.1 (heq ▸ hd)
    rw [Glob.text, List.cons_append, readAlternatives_plain (hne '{' (by decide)) (hne '}' (by decide)) _ _
      (.inl (hne ',' (by decide))), g.readAlternatives_text hg.2, List.append_assoc]
    rfl
  | .sep g =>
    rw [Glob.text, List.cons_append, readAlternatives_plain (by decide) (by decide) _ _ (.inl (by decide)),
      g.readAlternatives_text hg, List.append_assoc]
    rfl
  | .one g =>
    rw [Glob.text, List.cons_append, readAlternatives_plain (by decide) (by decide) _ _ (.inl (by decide)),
      g.readAlternatives_text hg, List.append_assoc]
    rfl
  | .star g =>
    rw [Glob.text, List.cons_append, readAlternatives_plain (by decide) (by decide) _ _ (.inl (by decide)),
      g.readAlternatives_text hg.2, List.append_assoc]
    rfl
  | .deep g =>
    rw [Glob.text, List.cons_append, List.cons_append, List.cons_append,
      readAlternatives_plain (by decide) (by decide) _ _ (.inl (by decide)),
      readAlternatives_plain (by decide) (by decide) _ _ (.inl (by decide)),
      readAlternatives_plain (by decide) (by decide) _ _ (.inl (by decide)), g.readAlternatives_text hg,
      List.append_assoc, List.append_assoc, List.append_assoc]
    rfl
  | .alt b g =>
    have hclose : ∀ current, readAlternatives alternatives current (depth + 1) ('}' :: (g.text ++ rest)) =
        readAlternatives alternatives (current ++ ['}']) depth (g.text ++ rest) := by
      intro current
      conv_lhs => unfold readAlternatives
      rw [if_neg (by decide), if_pos ⟨rfl, Nat.succ_pos depth⟩, Nat.add_sub_cancel]
    have hopen : readAlternatives alternatives current depth ((Glob.alt b g).text ++ rest) =
        readAlternatives alternatives (current ++ ['{']) (depth + 1) (b.text ++ '}' :: (g.text ++ rest)) := by
      rw [Glob.text, List.cons_append, List.append_assoc, List.cons_append]
      conv_lhs => unfold readAlternatives
      rw [if_pos rfl]
    rw [hopen, b.readAlternatives_inside hg.1, hclose, g.readAlternatives_text hg.2, Glob.text]
    simp only [List.append_assoc, List.cons_append, List.nil_append]

theorem Branches.readAlternatives_inside (b : Branches) (hb : b.WF) (alternatives : List Text) (current : Text)
    (depth : ℕ) (rest : Text) : readAlternatives alternatives current (depth + 1) (b.text ++ rest) =
      readAlternatives alternatives (current ++ b.text) (depth + 1) rest := by
  match b with
  | .two p q =>
    rw [Branches.text, List.append_assoc, p.readAlternatives_text hb.1, List.cons_append,
      readAlternatives_plain (by decide) (by decide) _ _ (.inr (Nat.succ_pos depth)), q.readAlternatives_text hb.2]
    simp only [List.append_assoc, List.singleton_append]
  | .more p b =>
    rw [Branches.text, List.append_assoc, p.readAlternatives_text hb.1, List.cons_append,
      readAlternatives_plain (by decide) (by decide) _ _ (.inr (Nat.succ_pos depth)), b.readAlternatives_inside hb.2]
    simp only [List.append_assoc, List.singleton_append]

end

theorem readAlternatives_comma (alternatives : List Text) (current rest : Text) :
    readAlternatives alternatives current 0 (',' :: rest) = readAlternatives (alternatives ++ [current]) [] 0 rest := by
  conv_lhs => unfold readAlternatives
  rw [if_neg (by decide), if_neg (by decide), if_pos ⟨rfl, rfl⟩]

theorem Branches.readAlternatives_text (b : Branches) (hb : b.WF) (alternatives : List Text) (rest : Text) :
    readAlternatives alternatives [] 0 (b.text ++ '}' :: rest) = some (alternatives ++ b.texts, rest) := by
  match b with
  | .two p q =>
    rw [Branches.text, List.append_assoc, p.readAlternatives_text hb.1, List.cons_append, readAlternatives_comma,
      q.readAlternatives_text hb.2]
    conv_lhs => unfold readAlternatives
    rw [if_neg (by decide), if_neg fun h => absurd h.2 (lt_irrefl 0), if_neg fun h => absurd h.1 (by decide),
      if_pos rfl, if_neg (List.append_ne_nil_of_right_ne_nil _ (List.cons_ne_nil _ _)), List.append_assoc]
    rfl
  | .more p b =>
    rw [Branches.text, List.append_assoc, p.readAlternatives_text hb.1, List.cons_append, readAlternatives_comma,
      b.readAlternatives_text hb.2, List.append_assoc]
    rfl

theorem Branches.texts_ne_nil (b : Branches) : b.texts ≠ [] := by
  cases b
  · exact List.cons_ne_nil _ _
  · exact List.cons_ne_nil _ _

theorem intercalate_cons {t : Text} {ts : List Text} (h : ts ≠ []) :
    List.intercalate ['|'] (t :: ts) = t ++ '|' :: List.intercalate ['|'] ts := by
  cases ts with
  | nil => exact absurd rfl h
  | cons u us =>
    rw [List.intercalate_cons_cons, List.append_assoc]
    rfl

theorem globFragmentToRegex_plain {c : Char} (hc : c ∉ ['*', '?', '[', '{']) (fuel : ℕ) (rest : Text) :
    globFragmentToRegex (fuel + 1) (c :: rest) = (Token.lit c).text ++ globFragmentToRegex fuel rest := by
  have hne : ∀ d ∈ ['*', '?', '[', '{'], c ≠ d := fun d hd heq => hc (heq ▸ hd)
  conv_lhs => unfold globFragmentToRegex
  rw [if_neg (hne '*' (by decide)), if_neg (hne '?' (by decide)), if_neg (hne '[' (by decide)),
    if_neg (hne '{' (by decide))]
  rfl

mutual

theorem Glob.globFragmentToRegex_text (g : Glob) (hg : g.WF) {fuel : ℕ} (h : g.text.length ≤ fuel) :
    globFragmentToRegex fuel g.text = g.tokens.flatMap Token.text := by
  match g, fuel with
  | .nil, 0 => rfl
  | .nil, _ + 1 => rfl
  | .lit c g, fuel + 1 =>
    have hsub : ∀ d ∈ ['*', '?', '[', '{'], d ∈ special := by decide
    have hc : c ∉ ['*', '?', '[', '{'] := fun hmem => hg.1 (hsub c hmem)
    rw [Glob.text, globFragmentToRegex_plain hc, g.globFragmentToRegex_text hg.2 (Nat.le_of_succ_le_succ h)]
    rfl
  | .sep g, fuel + 1 =>
    rw [Glob.text, globFragmentToRegex_plain (by decide), g.globFragmentToRegex_text hg (Nat.le_of_succ_le_succ h)]
    rfl
  | .one g, fuel + 1 =>
    rw [Glob.text]
    conv_lhs => unfold globFragmentToRegex
    rw [if_neg (by decide), if_pos rfl, g.globFragmentToRegex_text hg (Nat.le_of_succ_le_succ h)]
    rfl
  | .star g, fuel + 1 =>
    rw [Glob.text]
    conv_lhs => unfold globFragmentToRegex
    rw [if_pos rfl, if_neg hg.1, g.globFragmentToRegex_text hg.2 (Nat.le_of_succ_le_succ h)]
    rfl
  | .deep g, fuel + 1 =>
    have hlen : g.text.length ≤ fuel := by
      simp only [Glob.text, List.length_cons] at h
      omega
    rw [Glob.text]
    conv_lhs => unfold globFragmentToRegex
    rw [if_pos rfl, if_pos (show ('*' :: '/' :: g.text).head? = some '*' from rfl),
      if_pos (show ('*' :: '/' :: g.text).tail.head? = some '/' from rfl),
      show List.drop 2 ('*' :: '/' :: g.text) = g.text from rfl, g.globFragmentToRegex_text hg hlen]
    rfl
  | .alt b g, fuel + 1 =>
    have hlens : b.text.length ≤ fuel ∧ g.text.length ≤ fuel := by
      simp only [Glob.text, List.length_cons, List.length_append] at h
      omega
    have hread : readGlobAlternation (b.text ++ '}' :: g.text) = some (b.texts, g.text) :=
      b.readAlternatives_text hg.1 [] g.text
    rw [Glob.text]
    conv_lhs => unfold globFragmentToRegex
    rw [if_neg (by decide), if_neg (by decide), if_neg (by decide), if_pos rfl, hread]
    dsimp only
    rw [b.globFragmentToRegex_texts hg.1 hlens.1, g.globFragmentToRegex_text hg.2 hlens.2, Glob.tokens,
      List.flatMap_cons, List.flatMap_append, List.flatMap_cons]
    simp only [List.append_assoc]
    rfl

theorem Branches.globFragmentToRegex_texts (b : Branches) (hb : b.WF) {fuel : ℕ} (h : b.text.length ≤ fuel) :
    List.intercalate ['|'] (b.texts.map (globFragmentToRegex fuel)) = b.tokens.flatMap Token.text := by
  match b with
  | .two p q =>
    have hlens : p.text.length ≤ fuel ∧ q.text.length ≤ fuel := by
      simp only [Branches.text, List.length_cons, List.length_append] at h
      omega
    rw [Branches.texts, List.map_cons, List.map_cons, List.map_nil, intercalate_cons (List.cons_ne_nil _ _),
      p.globFragmentToRegex_text hb.1 hlens.1, q.globFragmentToRegex_text hb.2 hlens.2, List.intercalate_singleton,
      Branches.tokens, List.flatMap_append, List.flatMap_cons]
    rfl
  | .more p b =>
    have hlens : p.text.length ≤ fuel ∧ b.text.length ≤ fuel := by
      simp only [Branches.text, List.length_cons, List.length_append] at h
      omega
    rw [Branches.texts, List.map_cons, intercalate_cons (fun hnil => b.texts_ne_nil (List.map_eq_nil_iff.mp hnil)),
      p.globFragmentToRegex_text hb.1 hlens.1, b.globFragmentToRegex_texts hb.2 hlens.2, Branches.tokens,
      List.flatMap_append, List.flatMap_cons]
    rfl

end

def deepExpr : Expr := .rep true 0 (some 1) (cat [.rep true 0 none (.cls .dot), .cls (.char '/')])

mutual

def Glob.items : Glob → List Expr
  | .nil => []
  | .lit c rest => .cls (.char c) :: rest.items
  | .sep rest => .cls (.char '/') :: rest.items
  | .one rest => .cls (.noneOf '/') :: rest.items
  | .star rest => .rep true 0 none (.cls (.noneOf '/')) :: rest.items
  | .deep rest => deepExpr :: rest.items
  | .alt branches rest => branches.expr :: rest.items

def Branches.expr : Branches → Expr
  | .two p q => .alt (cat p.items) (cat q.items)
  | .more p rest => .alt (cat p.items) rest.expr

end

theorem foldlM_deepTokens (f : Frame) (st : List Frame) (rest : List Token) :
    (deepTokens ++ rest).foldlM feed (f, st) = rest.foldlM feed (f.push deepExpr, st) := by
  have hclose : deepTokens.foldlM feed (f, st) = some (f.push deepExpr, st) := by
    refine Eq.trans (show _ = ((f.push (cat [.rep true 0 none (.cls .dot), .cls (.char '/')])).quantify (some 1)).map
      (·, st) >>= pure from rfl) ?_
    rw [Frame.quantify_push]
    rfl
  rw [List.foldlM_append, hclose]
  rfl

mutual

theorem Glob.foldlM_tokens (g : Glob) (f : Frame) (st : List Frame) :
    g.tokens.foldlM feed (f, st) = some (⟨f.alts, f.items ++ g.items⟩, st) := by
  match g with
  | .nil =>
    rw [Glob.tokens, Glob.items, List.append_nil]
    rfl
  | .lit c g =>
    refine (g.foldlM_tokens (f.push (.cls (.char c))) st).trans ?_
    rw [Frame.push_items, Glob.items]
    rfl
  | .sep g =>
    refine (g.foldlM_tokens (f.push (.cls (.char '/'))) st).trans ?_
    rw [Frame.push_items, Glob.items]
    rfl
  | .one g =>
    refine (g.foldlM_tokens (f.push (.cls (.noneOf '/'))) st).trans ?_
    rw [Frame.push_items, Glob.items]
    rfl
  | .star g =>
    rw [Glob.tokens]
    refine Eq.trans (show _ = ((f.push (.cls (.noneOf '/'))).quantify none).map (·, st) >>= g.tokens.foldlM feed from rfl) ?_
    rw [Frame.quantify_push]
    refine (g.foldlM_tokens (f.push (.rep true 0 none (.cls (.noneOf '/')))) st).trans ?_
    rw [Frame.push_items, Glob.items]
    rfl
  | .deep g =>
    rw [Glob.tokens, foldlM_deepTokens, g.foldlM_tokens, Frame.push_items, Glob.items]
    rfl
  | .alt b g =>
    obtain ⟨f', hb, hfinish⟩ := b.foldlM_tokens [] (f :: st)
    rw [Glob.tokens, List.foldlM_cons]
    refine Eq.trans (show _ = (b.tokens ++ Token.close :: g.tokens).foldlM feed (⟨[], []⟩, f :: st) from rfl) ?_
    rw [List.foldlM_append, hb]
    refine Eq.trans (show _ = g.tokens.foldlM feed (f.push f'.finish, st) from rfl) ?_
    rw [g.foldlM_tokens, hfinish, Frame.push_items, Glob.items]
    rfl

theorem Branches.foldlM_tokens (b : Branches) (alts : List Expr) (st : List Frame) :
    ∃ f, b.tokens.foldlM feed (⟨alts, []⟩, st) = some (f, st) ∧ f.finish = alts.foldr .alt b.expr := by
  match b with
  | .two p q =>
    refine ⟨⟨alts ++ [cat p.items], q.items⟩, ?_, ?_⟩
    · rw [Branches.tokens, List.foldlM_append, p.foldlM_tokens]
      exact q.foldlM_tokens ⟨alts ++ [cat p.items], []⟩ st
    · unfold Frame.finish
      rw [List.foldr_append, Branches.expr]
      rfl
  | .more p b =>
    obtain ⟨f, hb, hfinish⟩ := b.foldlM_tokens (alts ++ [cat p.items]) st
    refine ⟨f, ?_, ?_⟩
    · rw [Branches.tokens, List.foldlM_append, p.foldlM_tokens]
      exact hb
    · rw [hfinish, List.foldr_append, Branches.expr]
      rfl

end

open Regex (Matches after)

variable {prev next : Option Char} {w : Text}

theorem matches_cls_cons {k : CharSet} {items : List Expr} :
    Matches CharSet.reading (cat (.cls k :: items)) prev w next ↔
      ∃ c v, w = c :: v ∧ k.holds c = true ∧ Matches CharSet.reading (cat items) (some c) v next := by
  rw [RegexText.matches_cat_cons]
  constructor
  · rintro ⟨-, v, rfl, ⟨c, rfl, hc⟩, hv⟩
    exact ⟨c, v, rfl, hc, hv⟩
  · rintro ⟨c, v, rfl, hc, hv⟩
    exact ⟨[c], v, rfl, ⟨c, rfl, hc⟩, hv⟩

theorem matches_char_cons {c : Char} {items : List Expr} :
    Matches CharSet.reading (cat (.cls (.char c) :: items)) prev w next ↔
      ∃ v, w = c :: v ∧ Matches CharSet.reading (cat items) (some c) v next := by
  rw [matches_cls_cons]
  constructor
  · rintro ⟨d, v, rfl, hd, hv⟩
    obtain rfl : c = d := beq_iff_eq.mp hd
    exact ⟨v, rfl, hv⟩
  · rintro ⟨v, rfl, hv⟩
    exact ⟨c, v, rfl, beq_self_eq_true c, hv⟩

theorem matches_deepExpr (hw : '\n' ∉ w) :
    Matches CharSet.reading deepExpr prev w next ↔ w = [] ∨ w.getLast? = some '/' := by
  unfold deepExpr
  rw [RegexText.matches_opt]
  refine or_congr Iff.rfl ?_
  rw [RegexText.matches_cat_cons]
  constructor
  · rintro ⟨u, v, rfl, -, hv⟩
    obtain ⟨rest, rfl, hrest⟩ := matches_char_cons.mp hv
    obtain rfl : rest = [] := hrest
    exact List.getLast?_concat
  · intro hlast
    obtain ⟨u, rfl⟩ := List.getLast?_eq_some_iff.mp hlast
    refine ⟨u, ['/'], rfl, RegexText.matches_star_cls.mpr fun c hc => ?_, matches_char_cons.mpr ⟨[], rfl, rfl⟩⟩
    refine bne_iff_ne.mpr fun heq => hw ?_
    exact List.mem_append_left _ (heq ▸ hc)

theorem notMem_append {u v : Text} (h : '\n' ∉ u ++ v) : '\n' ∉ u ∧ '\n' ∉ v :=
  ⟨fun hu => h (List.mem_append_left _ hu), fun hv => h (List.mem_append_right _ hv)⟩

mutual

theorem Glob.matches_items (g : Glob) {prev next : Option Char} {w : Text} (hw : '\n' ∉ w) :
    Matches CharSet.reading (cat g.items) prev w next ↔ g.Lang w := by
  match g with
  | .nil => exact Iff.rfl
  | .lit c g =>
    rw [Glob.items, matches_char_cons, Glob.Lang]
    refine exists_congr fun v => and_congr_right ?_
    rintro rfl
    exact g.matches_items fun hmem => hw (List.mem_cons_of_mem _ hmem)
  | .sep g =>
    rw [Glob.items, matches_char_cons, Glob.Lang]
    refine exists_congr fun v => and_congr_right ?_
    rintro rfl
    exact g.matches_items fun hmem => hw (List.mem_cons_of_mem _ hmem)
  | .one g =>
    rw [Glob.items, matches_cls_cons, Glob.Lang]
    refine exists₂_congr fun c v => and_congr_right ?_
    rintro rfl
    exact and_congr bne_iff_ne (g.matches_items fun hmem => hw (List.mem_cons_of_mem _ hmem))
  | .star g =>
    rw [Glob.items, RegexText.matches_cat_cons, Glob.Lang]
    refine exists₂_congr fun u v => and_congr_right ?_
    rintro rfl
    refine and_congr (RegexText.matches_star_cls.trans ?_) (g.matches_items (notMem_append hw).2)
    exact ⟨fun hall hmem => bne_iff_ne.mp (hall '/' hmem) rfl, fun hno c hc => bne_iff_ne.mpr fun heq => hno (heq ▸ hc)⟩
  | .deep g =>
    rw [Glob.items, RegexText.matches_cat_cons, Glob.Lang]
    refine exists₂_congr fun u v => and_congr_right ?_
    rintro rfl
    exact and_congr (matches_deepExpr (notMem_append hw).1) (g.matches_items (notMem_append hw).2)
  | .alt b g =>
    rw [Glob.items, RegexText.matches_cat_cons, Glob.Lang]
    refine exists₂_congr fun u v => and_congr_right ?_
    rintro rfl
    exact and_congr (b.matches_expr (notMem_append hw).1) (g.matches_items (notMem_append hw).2)

theorem Branches.matches_expr (b : Branches) {prev next : Option Char} {w : Text} (hw : '\n' ∉ w) :
    Matches CharSet.reading b.expr prev w next ↔ b.Lang w := by
  match b with
  | .two p q =>
    rw [Branches.expr, Branches.Lang]
    exact or_congr (p.matches_items hw) (q.matches_items hw)
  | .more p b =>
    rw [Branches.expr, Branches.Lang]
    exact or_congr (p.matches_items hw) (b.matches_expr hw)

end

def anchor (pattern : Text) : List Token := if '/' ∈ pattern then [.start] else .start :: deepTokens

def anchorItems (pattern : Text) : List Expr := if '/' ∈ pattern then [.start] else [.start, deepExpr]

theorem globExpression_eq {g : Glob} (hg : g.WF) :
    globExpression g.text = (anchor g.text ++ g.tokens ++ [Token.stop]).flatMap Token.text := by
  unfold globExpression anchor
  rw [g.globFragmentToRegex_text hg le_rfl, List.flatMap_append, List.flatMap_append]
  split_ifs
  · rfl
  · rfl

theorem globToRegex_eq {g : Glob} (hg : g.WF) :
    globToRegex g.text = cat (anchorItems g.text ++ g.items ++ [.stop]) := by
  have hanchor : ∀ rest : List Token, (anchor g.text ++ rest).foldlM feed (Frame.new, []) =
      rest.foldlM feed (⟨[], anchorItems g.text⟩, []) := by
    intro rest
    unfold anchor anchorItems
    split_ifs
    · rfl
    · exact foldlM_deepTokens ⟨[], [.start]⟩ [] rest
  unfold globToRegex
  rw [globExpression_eq hg, RegexText.parse_flatMap]
  unfold RegexText.assemble
  rw [List.append_assoc, hanchor, List.foldlM_append, g.foldlM_tokens]
  rfl

theorem matches_start_cons {items : List Expr} : Matches CharSet.reading (cat (.start :: items)) prev w next ↔
    prev = none ∧ Matches CharSet.reading (cat items) prev w next := by
  rw [RegexText.matches_cat_cons]
  constructor
  · rintro ⟨-, v, rfl, ⟨rfl, hprev⟩, hv⟩
    exact ⟨hprev, hv⟩
  · rintro ⟨hprev, hv⟩
    exact ⟨[], w, rfl, ⟨rfl, hprev⟩, hv⟩

theorem matches_concat_stop {items : List Expr} : Matches CharSet.reading (cat (items ++ [.stop])) prev w next ↔
    Matches CharSet.reading (cat items) prev w next ∧ next = none := by
  rw [RegexText.matches_cat_append]
  constructor
  · rintro ⟨u, v, rfl, hu, -, rest, rfl, ⟨rfl, hnext⟩, hnil⟩
    obtain rfl : rest = [] := hnil
    rw [List.append_nil, List.append_nil]
    exact ⟨hu, hnext⟩
  · rintro ⟨hw, rfl⟩
    exact ⟨w, [], (List.append_nil w).symm, hw, [], [], rfl, ⟨rfl, rfl⟩, rfl⟩

theorem hasMatch_anchored (items : List Expr) (path : Text) :
    (cat (.start :: items ++ [.stop])).hasMatch CharSet.reading none path = true ↔
      Matches CharSet.reading (cat items) none path none := by
  rw [Regex.hasMatch_iff]
  constructor
  · rintro ⟨a, w, b, rfl, h⟩
    obtain ⟨h, hb⟩ := matches_concat_stop.mp h
    obtain ⟨ha, h⟩ := matches_start_cons.mp h
    have ha : a = [] := by
      unfold after at ha
      rw [Option.or_none] at ha
      exact List.getLast?_eq_none_iff.mp ha
    have hb : b = [] := List.head?_eq_none_iff.mp hb
    subst ha hb
    rw [List.append_nil]
    exact h
  · intro h
    refine ⟨[], path, [], (List.append_nil path).symm, matches_concat_stop.mpr ⟨matches_start_cons.mpr ⟨rfl, h⟩, rfl⟩⟩

def Glob.Accepts (g : Glob) (path : Text) : Prop :=
  if '/' ∈ g.text then g.Lang path
  else ∃ front rest, path = front ++ rest ∧ (front = [] ∨ front.getLast? = some '/') ∧ g.Lang rest

theorem glob_matches_iff {g : Glob} (hg : g.WF) {path : Text} (hpath : '\n' ∉ path) :
    globPatternMatches g.text path = true ↔ g.Accepts path := by
  unfold globPatternMatches Glob.Accepts
  rw [globToRegex_eq hg]
  unfold anchorItems
  split_ifs
  · exact (hasMatch_anchored g.items path).trans (g.matches_items hpath)
  · refine (hasMatch_anchored (deepExpr :: g.items) path).trans ?_
    rw [RegexText.matches_cat_cons]
    refine exists₂_congr fun u v => and_congr_right ?_
    rintro rfl
    exact and_congr (matches_deepExpr (notMem_append hpath).1) (g.matches_items (notMem_append hpath).2)

def sources : Glob :=
  .star (.lit '.' (.alt (.two (.lit 'r' (.lit 's' .nil)) (.lit 't' (.star .nil))) .nil))

theorem sources_wf : sources.WF := by
  unfold sources
  simp only [Glob.WF, Branches.WF, Glob.text, and_true]
  decide

theorem sources_matched : globPatternMatches sources.text "a/b.rs".toList = true ↔ sources.Accepts "a/b.rs".toList :=
  glob_matches_iff sources_wf (by decide)

end Fluent.Guidance.Query
