import Fluent.Rdf.Lexer

/-! Where the calls of `next_token` start and stop, also after errors. -/

namespace Fluent.Rdf

open Fluent.Library

variable {b : UInt8}

theorem ascii_lt {c : Char} (h : b = ascii c) (hc : ascii c < 0x80) : b < 0x80 := h ▸ hc

theorem isAsciiAlphabetic_lt (h : isAsciiAlphabetic b) : b < 0x80 := by
  have h := of_decide_eq_true h
  simp only [UInt8.le_iff_toNat_le, UInt8.lt_iff_toNat_lt, UInt8.toNat_ofNat] at h ⊢
  omega

theorem isAsciiDigit_lt (h : isAsciiDigit b) : b < 0x80 := by
  have h := of_decide_eq_true h
  simp only [UInt8.le_iff_toNat_le, UInt8.lt_iff_toNat_lt, UInt8.toNat_ofNat] at h ⊢
  omega

theorem isNameChar_lt (h : isNameChar b) : b < 0x80 := by
  rcases of_decide_eq_true h with h | h | h | h | h
  · exact isAsciiAlphabetic_lt h
  · exact isAsciiDigit_lt h
  · exact ascii_lt h (by decide)
  · exact ascii_lt h (by decide)
  · exact ascii_lt h (by decide)

theorem isLangChar_lt (h : isLangChar b) : b < 0x80 := by
  rcases of_decide_eq_true h with h | h
  · exact isAsciiAlphabetic_lt h
  · exact ascii_lt h (by decide)

theorem isPrefixStartChar_of_high (h : 0x80 ≤ b) : isPrefixStartChar b := by
  have hb : 127 < b := by
    simp only [UInt8.le_iff_toNat_le, UInt8.lt_iff_toNat_lt, UInt8.toNat_ofNat] at h ⊢
    omega
  exact decide_eq_true (.inr hb)

theorem isPrefixChar_of_high (h : 0x80 ≤ b) : isPrefixChar b :=
  decide_eq_true (.inl (isPrefixStartChar_of_high h))

theorem isLocalNameChar_of_high (h : 0x80 ≤ b) : isLocalNameChar b :=
  decide_eq_true (.inl (isPrefixChar_of_high h))

/-! Every scanner stops next to an ASCII byte, but for the one of the long literals when it finds no end. -/

theorem quotedEnd_beside {close : UInt8} (hclose : close < 0x80) (escape : UInt8 → Bool) (e : ScanError) (s : Bytes) :
    BesideAscii s (quotedEnd close escape e s).2 := by
  fun_induction quotedEnd close escape e s with
  | case1 => exact .inl nofun
  | case2 => exact besideAscii_one hclose _
  | case3 => exact besideAscii_one (by decide) _
  | case4 b s _ _ ih => exact (ih.cons b).cons _
  | case5 => exact besideAscii_one (by decide) _
  | case6 c s _ _ hc =>
    refine .inl fun b hb => ?_
    obtain rfl := Option.some.inj hb
    exact hc.elim (fun h => ascii_lt h (by decide)) fun h => ascii_lt h (by decide)
  | case7 c s _ _ _ ih => exact ih.cons c

variable (s : Bytes)

theorem longEnd_beside (h : (longEnd s).1 = none) : BesideAscii s (longEnd s).2 := by
  fun_induction longEnd s with
  | case1 c d e s hq => exact ((besideAscii_one (ascii_lt hq.2.2 (by decide)) s).cons d).cons c
  | case2 d e s _ ih => exact ((ih h).cons d).cons _
  | case3 c d e s _ _ ih => exact (ih h).cons c
  | case4 => cases h

theorem cut_digitsEnd : Cut s (digitsEnd s) := cut_takeWhile_ascii (fun _ => isAsciiDigit_lt) s

theorem cut_signEnd : Cut s (signEnd s) := by
  unfold signEnd
  split
  · next c s =>
    split_ifs with hc
    · exact cut_one (hc.elim (fun h => ascii_lt h (by decide)) fun h => ascii_lt h (by decide)) s
    · exact cut_zero _
  · exact cut_zero _

theorem cut_fractionEnd : Cut s (fractionEnd s) := by
  unfold fractionEnd
  split
  · next c d s =>
    split_ifs with hc
    · exact (cut_one (ascii_lt hc.1 (by decide)) _).add (cut_digitsEnd _)
    · exact cut_zero _
  · exact cut_zero _

theorem cut_exponentEnd : Cut s (exponentEnd s) := by
  unfold exponentEnd
  split
  · next c s =>
    split_ifs with hc
    · rw [Nat.add_assoc]
      have hfirst := cut_one (hc.elim (fun h => ascii_lt h (by decide)) fun h => ascii_lt h (by decide)) s
      exact hfirst.add ((cut_signEnd s).add (cut_digitsEnd _))
    · exact cut_zero _
  · exact cut_zero _

theorem cut_numericEnd : Cut s (numericEnd s) :=
  ((((cut_signEnd s).add (cut_digitsEnd _)).add (cut_fractionEnd _)).add (cut_exponentEnd _))

theorem cut_localEnd : Cut s (localEnd s) := by
  unfold localEnd
  split
  · next c s =>
    split_ifs with hc
    · exact (cut_one (ascii_lt hc (by decide)) s).add (cut_takeWhile (fun _ => isLocalNameChar_of_high) s)
    · exact cut_zero _
  · exact cut_zero _

theorem cut_prefixedEnd : Cut s (prefixedEnd s) :=
  (cut_takeWhile (fun _ => isPrefixChar_of_high) s).add (cut_localEnd _)

theorem Scan.length_ended (kind : TokenKind) (start : ℕ) (e : Option ScanError × ℕ) :
    (Scan.ended kind start e).length = start + e.2 := by
  unfold Scan.ended
  split <;> rfl

def Unterminated : Prop := s.take 3 = [ascii '"', ascii '"', ascii '"'] ∧ (longEnd (s.drop 3)).1 ≠ none

/-- The scan of a long literal gives up inside of a character: near the end of the text, at its last two bytes or, when
it has just gone over an escape, at its last. -/
def Torn : Prop := Unterminated s ∧ isCharBoundary (s.drop (3 + (longEnd (s.drop 3)).2)) = false

theorem cut_scanLiteral {s : Bytes} (h : ¬Unterminated (ascii '"' :: s)) : Cut (ascii '"' :: s) (scanLiteral s).length := by
  unfold scanLiteral
  split_ifs with hlong
  · rw [Scan.length_ended]
    have hend : (longEnd (s.drop 2)).1 = none := by
      by_contra hne
      exact h ⟨congrArg (ascii '"' :: ·) hlong, hne⟩
    obtain ⟨a, b, s, rfl⟩ : ∃ a b t, s = a :: b :: t := by
      match s, hlong with
      | a :: b :: t, _ => exact ⟨a, b, t, rfl⟩
    rw [Nat.add_comm]
    exact .inr ((((longEnd_beside _ hend).cons b).cons a).cons _)
  · rw [Scan.length_ended, Nat.add_comm]
    exact .inr ((quotedEnd_beside (by decide) _ _ s).cons _)

theorem punctuation_lt {c : UInt8} (h : (punctuation c).isSome) : c < 0x80 := by
  unfold punctuation at h
  split_ifs at h with h1 h2 h3 h4 h5 h6
  · exact ascii_lt h1 (by decide)
  · exact ascii_lt h2 (by decide)
  · exact ascii_lt h3 (by decide)
  · exact ascii_lt h4 (by decide)
  · exact ascii_lt h5 (by decide)
  · exact ascii_lt h6 (by decide)
  · cases h

def Cuts (o : Option Scan) : Prop := ∀ r, o = some r → Cut s r.length

theorem cuts_some {s : Bytes} {r : Scan} (h : Cut s r.length) : Cuts s (some r) := by
  intro r' hr
  obtain rfl := Option.some.inj hr
  exact h

theorem ite_ind {P : Option Scan → Prop} {c : Prop} [Decidable c] {o o' : Option Scan} (h : c → P o) (h' : ¬c → P o') :
    P (if c then o else o') := by
  split_ifs with hc
  · exact h hc
  · exact h' hc

theorem cuts_scan {c : UInt8} {s : Bytes} (hu : ¬Unterminated (c :: s)) : Cuts (c :: s) (scan c s) := by
  unfold scan
  refine ite_ind (fun h => cuts_some ?_) fun _ => ite_ind (fun h => cuts_some ?_) fun _ =>
    ite_ind (fun h => cuts_some ?_) fun _ => ite_ind (fun h => ?_) fun _ => ite_ind (fun h => cuts_some ?_) fun _ =>
    ite_ind (fun _ => cuts_some (cut_prefixedEnd _)) fun _ => ite_ind (fun h => cuts_some ?_) fun _ =>
    ite_ind (fun _ => cuts_some (cut_numericEnd _)) fun _ => ite_ind (fun h => cuts_some ?_) fun _ =>
    ite_ind (fun h => cuts_some ?_) fun _ => ite_ind (fun _ => cuts_some (cut_numericEnd _)) fun _ =>
    ite_ind (fun _ => cuts_some (cut_prefixedEnd _)) nofun
  · rw [Scan.length_ended, Nat.add_comm]
    exact .inr ((quotedEnd_beside (by decide) _ _ s).cons c)
  · subst h
    exact cut_scanLiteral hu
  · match s, h.2 with
    | d :: s, hd =>
      have hsecond := cut_one (ascii_lt (Option.some.inj hd) (by decide)) s
      exact ((cut_one (ascii_lt h.1 (by decide)) _).add hsecond).add (cut_takeWhile_ascii (fun _ => isNameChar_lt) _)
  · intro r hr
    obtain ⟨kind, -, rfl⟩ := Option.map_eq_some_iff.mp hr
    exact cut_one (punctuation_lt h) s
  · exact (cut_one (ascii_lt h (by decide)) s).add (cut_takeWhile_ascii (fun _ => isLangChar_lt) s)
  · match s, h.2 with
    | d :: s, hd =>
      exact (cut_one (ascii_lt h.1 (by decide)) _).add (cut_one (ascii_lt (Option.some.inj hd) (by decide)) s)
  · exact cut_one (ascii_lt h (by decide)) s
  · exact cut_one (ascii_lt h.1 (by decide)) s

inductive Gap : Bytes → Prop where
  | nil : Gap []
  | blank {c : UInt8} {s : Bytes} (hc : isBlank c) (hs : Gap s) : Gap (c :: s)
  | comment {body s : Bytes} (hbody : ascii '\n' ∉ body) (hend : s = [] ∨ s.head? = some (ascii '\n')) (hs : Gap s) :
      Gap (ascii '#' :: (body ++ s))

theorem gap_blanks :
    Gap (blanks false s) ∧ ∃ body rest, blanks true s = body ++ rest ∧ ascii '\n' ∉ body ∧
      (rest = [] ∨ rest.head? = some (ascii '\n')) ∧ Gap rest := by
  induction s with
  | nil => exact ⟨.nil, [], [], rfl, List.not_mem_nil, .inl rfl, .nil⟩
  | cons c s ih =>
    obtain ⟨hgap, body, rest, htrue, hbody, hend, hrest⟩ := ih
    have hcomment : Gap (ascii '#' :: blanks true s) := by
      rw [htrue]
      exact .comment hbody hend hrest
    have hfalse : Gap (blanks false (c :: s)) := by
      unfold blanks
      rw [if_neg (by simp)]
      split_ifs with hc hblank
      · subst hc
        exact hcomment
      · exact .blank hblank hgap
      · exact .nil
    refine ⟨hfalse, ?_⟩
    by_cases hc : c = ascii '\n'
    · subst hc
      have hline : blanks true (ascii '\n' :: s) = ascii '\n' :: blanks false s := by
        rw [blanks, if_neg (by simp), if_neg (by decide), if_pos (by decide)]
      exact ⟨[], _, hline, List.not_mem_nil, .inr rfl, .blank (by decide) hgap⟩
    · have hmore : blanks true (c :: s) = c :: (body ++ rest) := by
        rw [← htrue]
        exact if_pos ⟨rfl, hc⟩
      refine ⟨c :: body, rest, hmore, fun hmem => ?_, hend, hrest⟩
      exact (List.mem_cons.mp hmem).elim (fun h => hc h.symm) hbody

theorem isBlank_lt (h : isBlank b) : b < 0x80 := by
  rcases of_decide_eq_true h with h | h | h | h
  · exact ascii_lt h (by decide)
  · exact ascii_lt h (by decide)
  · exact ascii_lt h (by decide)
  · exact ascii_lt h (by decide)

theorem blanks_beside (comment : Bool) (s : Bytes) :
    BesideAscii s (blanks comment s).length ∨ blanks comment s = [] ∧ comment = false := by
  induction s generalizing comment with
  | nil => exact .inl (.inl nofun)
  | cons c s ih =>
    have hin : BesideAscii (c :: s) (blanks true s).length.succ :=
      (ih true).elim (·.cons c) fun h => absurd h.2 Bool.noConfusion
    have hblank (hc : isBlank c) : BesideAscii (c :: s) (blanks false s).length.succ := by
      rcases ih false with h | ⟨h, -⟩
      · exact h.cons c
      · rw [h]
        exact besideAscii_one (isBlank_lt hc) s
    rw [blanks]
    split_ifs with hc hsharp hb
    · exact .inl hin
    · exact .inl hin
    · exact .inl (hblank hb)
    · cases comment with
      | false => exact .inr ⟨rfl, rfl⟩
      | true =>
        have hline : c = ascii '\n' := by_contra fun h => hc ⟨rfl, h⟩
        exact absurd (hline ▸ rfl : isBlank c = true) hb

theorem cut_blanks : Cut s (blanks false s).length := by
  rcases blanks_beside false s with h | ⟨h, -⟩
  · exact .inr h
  · rw [h]
    exact cut_zero s

theorem blanks_leads (comment : Bool) (s : Bytes) : blanks comment s <+: s := by
  induction s generalizing comment with
  | nil =>
    rw [blanks]
  | cons c s ih =>
    rw [blanks]
    split_ifs
    · exact (List.prefix_cons_inj c).mpr (ih true)
    · exact (List.prefix_cons_inj c).mpr (ih true)
    · exact (List.prefix_cons_inj c).mpr (ih false)
    · exact List.nil_prefix

theorem take_blanks : s.take (blanks false s).length = blanks false s :=
  (List.prefix_iff_eq_take.mp (blanks_leads false s)).symm

theorem isCharBoundary_iff {s : Bytes} : isCharBoundary s = true ↔ ∀ b ∈ s.head?, ¬Continues b := by
  unfold isCharBoundary Continues
  cases s with
  | nil => simp
  | cons c s =>
    simp only [List.head?_cons, Option.all_some, decide_eq_true_eq, Option.mem_def, Option.some.injEq, forall_eq']
    rw [not_and, UInt8.not_lt, UInt8.lt_iff_toNat_lt, UInt8.le_iff_toNat_le, UInt8.le_iff_toNat_le]
    omega

theorem isCharBoundary_utf8 (t : List Char) : isCharBoundary (utf8 t) = true :=
  isCharBoundary_iff.mpr fun _ => not_continues_head_utf8 t

def Aligned : Prop := ∃ t, s = utf8 t

theorem Aligned.drop {s : Bytes} {n : ℕ} (h : Aligned s) (hn : Cut s n) : Aligned (s.drop n) := by
  obtain ⟨t, rfl⟩ := h
  exact hn.drop_utf8

theorem Aligned.boundary {s : Bytes} (h : Aligned s) : isCharBoundary s = true := by
  obtain ⟨t, rfl⟩ := h
  exact isCharBoundary_utf8 t

theorem Aligned.drop_of_boundary {s : Bytes} {n : ℕ} (h : Aligned s) (hn : isCharBoundary (s.drop n)) :
    Aligned (s.drop n) := by
  obtain ⟨t, rfl⟩ := h
  exact drop_utf8_of_not_continues (isCharBoundary_iff.mp hn)

theorem longEnd_error {s : Bytes} {e : ScanError} (h : (longEnd s).1 = some e) : e = .unterminatedLiteral := by
  fun_induction longEnd s with
  | case1 => cases h
  | case2 d e s _ ih => exact ih h
  | case3 c d e s _ _ ih => exact ih h
  | case4 => exact (Option.some.inj h).symm

theorem scan_unterminated {c : UInt8} {s : Bytes} (h : Unterminated (c :: s)) :
    scan c s = some ⟨.error .unterminatedLiteral, 3 + (longEnd ((c :: s).drop 3)).2⟩ := by
  obtain ⟨hquotes, hend⟩ := h
  rw [List.take_succ_cons, List.cons.injEq] at hquotes
  obtain ⟨rfl, hquotes⟩ := hquotes
  obtain ⟨e, he⟩ := Option.ne_none_iff_exists'.mp hend
  obtain rfl := longEnd_error he
  rw [List.drop_succ_cons] at he ⊢
  rw [scan, if_neg (by decide), if_pos rfl, scanLiteral, if_pos hquotes, Scan.ended, he]

theorem scan_high (h : 0x80 ≤ b) (s : Bytes) : scan b s = some (scanPrefixedName (b :: s)) := by
  have hne {c : Char} (hc : ascii c < 0x80) : b ≠ ascii c := fun hb => absurd (hb ▸ hc) (UInt8.not_lt.mpr h)
  have hpunctuation : ¬(punctuation b).isSome := fun hp => absurd (punctuation_lt hp) (UInt8.not_lt.mpr h)
  have hdigit : ¬isAsciiDigit b := fun hd => absurd (isAsciiDigit_lt hd) (UInt8.not_lt.mpr h)
  have hnumber : ¬(b = ascii '+' ∨ b = ascii '-' ∨ isAsciiDigit b) := by
    rintro (hb | hb | hb)
    · exact hne (by decide) hb
    · exact hne (by decide) hb
    · exact hdigit hb
  rw [scan, if_neg (hne (by decide)), if_neg (hne (by decide)), if_neg fun hb => hne (by decide) hb.1,
    if_neg hpunctuation, if_neg (hne (by decide)), if_neg (hne (by decide)), if_neg fun hb => hne (by decide) hb.1,
    if_neg fun hb => hne (by decide) hb.1, if_neg (hne (by decide)), if_neg fun hb => hne (by decide) hb.1,
    if_neg hnumber, if_pos (isPrefixStartChar_of_high h)]

theorem blanks_high (h : 0x80 ≤ b) (s : Bytes) : blanks false (b :: s) = [] := by
  have hne {c : Char} (hc : ascii c < 0x80) : b ≠ ascii c := fun hb => absurd (hb ▸ hc) (UInt8.not_lt.mpr h)
  have hblank : ¬isBlank b := fun hb => absurd (isBlank_lt hb) (UInt8.not_lt.mpr h)
  rw [blanks, if_neg (by simp), if_neg (hne (by decide)), if_neg hblank]

namespace Lexer

inductive Here (l : Lexer) : Except Fault Token × Lexer → Prop where
  | eof (h : l.rest = []) : Here l (.ok ⟨.eof, [], l.line, l.col⟩, l)
  | stuck (c : UInt8) (s : Bytes) (h : l.rest = c :: s) (hscan : scan c s = none) :
      Here l (.error (.error (.unexpectedChar l.line l.col)), l)
  | token (c : UInt8) (s : Bytes) (h : l.rest = c :: s) (n : ℕ) (kind : TokenKind) (hscan : scan c s = some ⟨.ok kind, n⟩) :
      Here l (l.slice kind n, l.forward n)
  | failed (c : UInt8) (s : Bytes) (h : l.rest = c :: s) (n : ℕ) (e : ScanError) (hscan : scan c s = some ⟨.error e, n⟩) :
      Here l (.error (.error e.rdf), l.forward n)

theorem here_tokenHere (l : Lexer) : Here l l.tokenHere := by
  unfold tokenHere
  split
  · next h => exact .eof h
  · next c s h =>
    split
    · next hscan => exact .stuck c s h hscan
    · next r hscan =>
      obtain ⟨e | kind, n⟩ := r
      · exact .failed c s h n e hscan
      · exact .token c s h n kind hscan

variable {l : Lexer} {x : Except Fault Token × Lexer}

theorem Here.src_eq (h : Here l x) : x.2.src = l.src := by
  cases h <;> rfl

theorem Here.pos_le (h : Here l x) : l.pos ≤ x.2.pos := by
  cases h with
  | eof => exact le_rfl
  | stuck => exact le_rfl
  | token => exact Nat.le_add_right _ _
  | failed => exact Nat.le_add_right _ _

theorem Here.value (h : Here l x) {tok : Token} (htok : x.1 = .ok tok) : tok.value = l.rest.take (x.2.pos - l.pos) := by
  cases h with
  | eof hrest =>
    obtain rfl := Except.ok.inj htok
    rw [hrest, List.take_nil]
  | stuck => cases htok
  | token c s hrest n kind hscan =>
    have hlen : (l.forward n).pos - l.pos = n := Nat.add_sub_cancel_left _ _
    change l.slice kind n = _ at htok
    unfold slice at htok
    split_ifs at htok
    obtain rfl := Except.ok.inj htok
    rw [hlen]
  | failed => cases htok

theorem Here.no_panic (h : Here l x) (hl : Aligned l.rest) : x.1 ≠ .error .panic := by
  cases h with
  | eof => exact nofun
  | stuck => exact nofun
  | token c s hrest n kind hscan =>
    have hu : ¬Unterminated (c :: s) := by
      intro hu
      rw [scan_unterminated hu] at hscan
      cases hscan
    have hcut : Cut l.rest n := hrest ▸ cuts_scan hu _ hscan
    change l.slice kind n ≠ _
    unfold slice
    rw [if_pos ⟨hl.boundary, (hl.drop hcut).boundary⟩]
    exact nofun
  | failed => exact nofun

theorem Here.aligned (h : Here l x) (hl : Aligned l.rest) (htorn : ¬Torn l.rest) : Aligned x.2.rest := by
  have hforward {c : UInt8} {s : Bytes} {r : Scan} (hrest : l.rest = c :: s) (hscan : scan c s = some r) :
      Aligned (l.forward r.length).rest := by
    rw [rest_forward]
    by_cases hu : Unterminated (c :: s)
    · have hr := (Option.some.inj ((scan_unterminated hu).symm.trans hscan)).symm
      subst hr
      refine hl.drop_of_boundary ?_
      by_contra hb
      refine htorn ⟨hrest ▸ hu, ?_⟩
      rw [← hrest] at hb
      exact Bool.eq_false_iff.mpr hb
    · exact hl.drop (hrest ▸ cuts_scan hu _ hscan)
  cases h with
  | eof => exact hl
  | stuck => exact hl
  | token c s hrest n kind hscan => exact hforward hrest hscan
  | failed c s hrest n e hscan => exact hforward hrest hscan

theorem aligned_skip (hl : Aligned l.rest) : Aligned l.skipWhitespaceAndComments.rest := by
  rw [rest_skip]
  exact hl.drop (cut_blanks _)

theorem here_nextToken (l : Lexer) : Here l.skipWhitespaceAndComments l.nextToken := here_tokenHere _

theorem nextToken_inside (h : isCharBoundary l.rest = false) : l.nextToken.1 = .error .panic := by
  obtain ⟨b, s, hrest, hb⟩ : ∃ b s, l.rest = b :: s ∧ Continues b := by
    cases hrest : l.rest with
    | nil =>
      rw [hrest] at h
      cases h
    | cons b s =>
      refine ⟨b, s, rfl, by_contra fun hb => ?_⟩
      rw [hrest, Bool.eq_false_iff] at h
      refine h (isCharBoundary_iff.mpr fun x hx => ?_)
      obtain rfl := Option.some.inj hx
      exact hb
  have hskip : l.skipWhitespaceAndComments.rest = b :: s := by
    rw [rest_skip, hrest, blanks_high hb.1]
    rfl
  unfold nextToken tokenHere
  rw [hskip]
  dsimp only
  rw [scan_high hb.1]
  change slice _ _ _ = _
  unfold slice
  rw [hskip, ← hrest, h]
  exact if_neg fun hf => Bool.noConfusion hf.1

theorem nextToken_torn (h : Torn l.skipWhitespaceAndComments.rest) : l.nextToken.2.nextToken.1 = .error .panic := by
  refine nextToken_inside ?_
  cases hrest : l.skipWhitespaceAndComments.rest with
  | nil =>
    rw [hrest] at h
    cases h.1.1
  | cons c s =>
    unfold nextToken tokenHere
    rw [hrest] at h ⊢
    dsimp only
    rw [scan_unterminated h.1]
    change isCharBoundary (forward _ _).rest = false
    rw [rest_forward, hrest]
    exact h.2

variable (src : Bytes)

def before (k : ℕ) : Lexer := (fun l => l.nextToken.2)^[k] (new src)

def answer (k : ℕ) : Except Fault Token := (before src k).nextToken.1

def ahead (k : ℕ) : Bytes := (before src k).skipWhitespaceAndComments.rest

def start (k : ℕ) : ℕ := (before src k).skipWhitespaceAndComments.pos

def stop (k : ℕ) : ℕ := (before src (k + 1)).pos

theorem before_succ (k : ℕ) : before src (k + 1) = (before src k).nextToken.2 := Function.iterate_succ_apply' _ _ _

theorem src_before (k : ℕ) : (before src k).src = src := by
  induction k with
  | zero => rfl
  | succ k ih =>
    rw [before_succ]
    exact (here_nextToken _).src_eq.trans ih

theorem start_le_stop (k : ℕ) : start src k ≤ stop src k := by
  unfold stop
  rw [before_succ]
  exact (here_nextToken _).pos_le

theorem stop_le_start (k : ℕ) : stop src k ≤ start src (k + 1) := Nat.le_add_right _ _

theorem stop_le_start_of_lt {j k : ℕ} (h : j < k) : stop src j ≤ start src k := by
  induction k, h using Nat.le_induction with
  | base => exact stop_le_start src j
  | succ k _ ih => exact ih.trans ((start_le_stop src k).trans (stop_le_start src k))

theorem value_eq {k : ℕ} {tok : Token} (h : answer src k = .ok tok) :
    tok.value = (src.drop (start src k)).take (stop src k - start src k) := by
  have hrest : src.drop (start src k) = (before src k).skipWhitespaceAndComments.rest := by
    change _ = (before src k).src.drop _
    rw [src_before]
    rfl
  have hstop : stop src k = (before src k).nextToken.2.pos := congrArg pos (before_succ src k)
  rw [hrest, hstop]
  exact (here_nextToken _).value h

theorem gap_between (k : ℕ) :
    Gap ((src.drop (stop src k)).take (start src (k + 1) - stop src k)) := by
  have hrest : src.drop (stop src k) = (before src (k + 1)).rest := by
    unfold rest
    rw [src_before]
    rfl
  have hlen : start src (k + 1) - stop src k = (blanks false (before src (k + 1)).rest).length := Nat.add_sub_cancel_left _ _
  rw [hrest, hlen, take_blanks]
  exact (gap_blanks _).1

def Safe (n : ℕ) : Prop := ∀ k < n, answer src k ≠ .error .panic

def Spanned (n : ℕ) : Prop :=
  (∀ k < n, ∀ tok, answer src k = .ok tok →
    start src k ≤ stop src k ∧ tok.value = (src.drop (start src k)).take (stop src k - start src k)) ∧
  ∀ j k, j < k → k < n → ∀ tok tok', answer src j = .ok tok → answer src k = .ok tok' → stop src j ≤ start src k

def Gapped (n : ℕ) : Prop :=
  ∀ k, k + 1 < n → ∀ tok tok', answer src k = .ok tok → answer src (k + 1) = .ok tok' →
    Gap ((src.drop (stop src k)).take (start src (k + 1) - stop src k))

theorem spanned (n : ℕ) : Spanned src n :=
  ⟨fun k _ _ htok => ⟨start_le_stop src k, value_eq src htok⟩, fun _ _ hjk _ _ _ _ _ => stop_le_start_of_lt src hjk⟩

theorem gapped (n : ℕ) : Gapped src n := fun k _ _ _ _ _ => gap_between src k

theorem aligned_before (t : List Char) {k : ℕ} (h : ∀ j < k, ¬Torn (ahead (utf8 t) j)) :
    Aligned (before (utf8 t) k).rest := by
  induction k with
  | zero => exact ⟨t, rfl⟩
  | succ k ih =>
    have hk := aligned_skip (ih fun j hj => h j (Nat.lt_succ_of_lt hj))
    rw [before_succ]
    exact (here_nextToken _).aligned hk (h k (Nat.lt_succ_self k))

theorem safe_iff (t : List Char) (n : ℕ) : Safe (utf8 t) n ↔ ∀ k, k + 1 < n → ¬Torn (ahead (utf8 t) k) := by
  constructor
  · intro h k hk htorn
    have hpanic := nextToken_torn htorn
    rw [← before_succ] at hpanic
    exact h (k + 1) hk hpanic
  · intro h k hk
    exact (here_nextToken _).no_panic (aligned_skip (aligned_before t fun j hj => h j (by omega)))

theorem next_token_sound_iff (t : List Char) (n : ℕ) :
    (Safe (utf8 t) n ∧ Spanned (utf8 t) n ∧ Gapped (utf8 t) n) ↔ ∀ k, k + 1 < n → ¬Torn (ahead (utf8 t) k) := by
  rw [← safe_iff t n]
  exact ⟨And.left, fun h => ⟨h, spanned _ n, gapped _ n⟩⟩

def tornLiteral : List Char := "\"\"\"€".toList

theorem long_literal_torn :
    answer (utf8 tornLiteral) 0 = .error (.error .unterminatedLiteral) ∧
      answer (utf8 tornLiteral) 1 = .error .panic := by
  decide +kernel

end Lexer

end Fluent.Rdf
