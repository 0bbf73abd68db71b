import Fluent.Library.Utf8

namespace Fluent.CommonCore.Shell

open Fluent.Library
open String (utf8EncodeChar)

abbrev Text := List Char

inductive ShellParseError
  | shellMetacharacter
  | unterminatedQuote
  | emptyCommand
  deriving DecidableEq

inductive State
  | idle
  | token
  | singleQuote
  | doubleQuote
  deriving DecidableEq

def byteOf (c : Char) : UInt8 := c.toNat.toUInt8

def byteChar (b : UInt8) : Char := Char.ofNat b.toNat

def metacharacters : List UInt8 := "|&;<>\x60$()\x7b\x7d".toList.map byteOf

def isMetachar (c : UInt8) : Bool := metacharacters.contains c || c == byteOf '\n' || c == byteOf '\r'

def isAsciiWhitespace (c : UInt8) : Bool :=
  c == byteOf ' ' || c == byteOf '\t' || c == byteOf '\n' || c == 0x0C || c == byteOf '\r'

def pushToken (current : Text) (tokens : List Text) : List Text :=
  if current = [] then tokens else tokens ++ [current]

def finish (state : State) (current : Text) (tokens : List Text) : Except ShellParseError (List Text) :=
  let done (tokens : List Text) := if tokens = [] then .error .emptyCommand else .ok tokens
  match state with
  | .singleQuote | .doubleQuote => .error .unterminatedQuote
  | .token => done (pushToken current tokens)
  | .idle => done tokens

def scan : State → Text → List Text → List UInt8 → Except ShellParseError (List Text)
  | state, current, tokens, [] => finish state current tokens
  | .idle, current, tokens, c :: rest =>
    if isAsciiWhitespace c then scan .idle current tokens rest
    else if c = byteOf '\'' then scan .singleQuote current tokens rest
    else if c = byteOf '"' then scan .doubleQuote current tokens rest
    else if isMetachar c then .error .shellMetacharacter
    else match decide (c = byteOf '\\'), rest with
      | true, escaped :: rest => scan .idle (current ++ [byteChar escaped]) tokens rest
      | _, rest => scan .token (current ++ [byteChar c]) tokens rest
  | .token, current, tokens, c :: rest =>
    if isAsciiWhitespace c then scan .idle [] (pushToken current tokens) rest
    else if isMetachar c then .error .shellMetacharacter
    else if c = byteOf '\'' then scan .singleQuote current tokens rest
    else if c = byteOf '"' then scan .doubleQuote current tokens rest
    else match decide (c = byteOf '\\'), rest with
      | true, escaped :: rest => scan .token (current ++ [byteChar escaped]) tokens rest
      | _, rest => scan .token (current ++ [byteChar c]) tokens rest
  | .singleQuote, current, tokens, c :: rest =>
    if c = byteOf '\'' then scan .token current tokens rest
    else scan .singleQuote (current ++ [byteChar c]) tokens rest
  | .doubleQuote, current, tokens, c :: rest =>
    if c = byteOf '"' then scan .token current tokens rest
    else match decide (c = byteOf '\\'), rest with
      | true, escaped :: rest => scan .doubleQuote (current ++ [byteChar escaped]) tokens rest
      | _, rest =>
        if isMetachar c then .error .shellMetacharacter
        else scan .doubleQuote (current ++ [byteChar c]) tokens rest

def parseCommand (cmd : Text) : Except ShellParseError (List Text) := scan .idle [] [] (utf8 cmd)

example : parseCommand "echo a'b'c".toList = .ok ["echo".toList, "abc".toList] := by decide +kernel

def IsAscii (c : Char) : Prop := c.toNat < 128

instance (c : Char) : Decidable (IsAscii c) := inferInstanceAs (Decidable (_ < _))

section Bytes

variable {c : Char} {a : Text}

theorem utf8_ascii (hc : IsAscii c) : utf8EncodeChar c = [byteOf c] := by
  have hle : c.val.toNat ≤ 127 := Nat.le_of_lt_succ hc
  rw [String.utf8EncodeChar.eq_1, if_pos hle]
  rfl

theorem byteChar_byteOf (hc : IsAscii c) : byteChar (byteOf c) = c := by
  have hc : c.toNat < 128 := hc
  have hbyte : (byteOf c).toNat = c.toNat := by
    change c.toNat % 256 = c.toNat
    omega
  rw [byteChar, hbyte, Char.ofNat_toNat]

theorem not_ascii_bytes (hc : ¬IsAscii c) : ∀ b ∈ utf8EncodeChar c, 128 ≤ b.toNat := by
  have hle : ¬c.val.toNat ≤ 127 := fun hle => hc (Nat.lt_succ_of_le hle)
  intro b hb
  rw [String.utf8EncodeChar.eq_1, if_neg hle] at hb
  split_ifs at hb
  all_goals
    simp only [List.mem_cons, List.not_mem_nil, or_false] at hb
    rcases hb with rfl | rfl | rfl | rfl <;> rw [UInt8.toNat_ofNat'] <;> omega

theorem ascii_of_mem {d : Char} (hd : IsAscii d) (h : byteOf d ∈ utf8EncodeChar c) : c = d := by
  have hd : d.toNat < 128 := hd
  have hbyte : (byteOf d).toNat = d.toNat := by
    change d.toNat % 256 = d.toNat
    omega
  by_cases hc : IsAscii c
  · rw [utf8_ascii hc, List.mem_singleton] at h
    rw [← byteChar_byteOf hc, ← h, byteChar_byteOf hd]
  · have := not_ascii_bytes hc _ h
    omega

theorem byteOf_notMem_utf8 {d : Char} (hd : IsAscii d) (h : d ∉ a) : byteOf d ∉ utf8 a := by
  intro hmem
  obtain ⟨c, hc, hbyte⟩ := List.mem_flatMap.mp hmem
  exact h (ascii_of_mem hd hbyte ▸ hc)

def latin (a : Text) : Text := (utf8 a).map byteChar

theorem latin_cons (c : Char) (a : Text) : latin (c :: a) = (utf8EncodeChar c).map byteChar ++ latin a := by
  rw [latin, utf8_cons, List.map_append]
  rfl

theorem length_latin (a : Text) : (latin a).length = utf8Len a := by
  rw [latin, List.length_map, length_utf8]

theorem latin_eq (h : ∀ c ∈ a, IsAscii c) : latin a = a := by
  induction a with
  | nil => rfl
  | cons c a ih =>
    have hc := h c List.mem_cons_self
    rw [latin_cons, utf8_ascii hc, List.map_singleton, byteChar_byteOf hc, List.singleton_append,
      ih fun d hd => h d (List.mem_cons_of_mem c hd)]

theorem length_le_utf8Len (a : Text) : a.length ≤ utf8Len a := by
  induction a with
  | nil => exact Nat.zero_le _
  | cons c a ih =>
    have := c.utf8Size_pos
    rw [utf8Len_cons, List.length_cons]
    omega

theorem length_lt_latin (h : ¬∀ c ∈ a, IsAscii c) : a.length < (latin a).length := by
  rw [length_latin]
  push Not at h
  obtain ⟨c, hc, hwide⟩ := h
  obtain ⟨p, s, rfl⟩ := List.append_of_mem hc
  have hsize : 1 < c.utf8Size := by
    have hone : c.utf8Size ≠ 1 := fun hone => hwide (Nat.lt_succ_of_le (Char.utf8Size_eq_one_iff.mp hone))
    have := c.utf8Size_pos
    omega
  have hp := length_le_utf8Len p
  have hs := length_le_utf8Len s
  rw [utf8Len_append, utf8Len_cons, List.length_append, List.length_cons]
  omega

theorem latin_eq_iff : latin a = a ↔ ∀ c ∈ a, IsAscii c := by
  refine ⟨fun h => ?_, latin_eq⟩
  by_contra hwide
  have := length_lt_latin hwide
  rw [h] at this
  exact Nat.lt_irrefl _ this

theorem latin_ne_nil (ha : a ≠ []) : latin a ≠ [] := by
  intro h
  have hlen := length_latin a
  rw [h] at hlen
  exact absurd hlen (Nat.ne_of_lt (utf8Len_pos ha))

end Bytes

inductive Writing
  | quoted
  | escaped
  deriving DecidableEq

def Writing.write : Writing → Text → Text
  | .quoted, a => '\'' :: (a ++ ['\''])
  | .escaped, a => a.flatMap fun c => ['\\', c]

def commandLine (w : Writing) (args : List Text) : Text := List.intercalate [' '] (args.map w.write)

section Scanning

variable {a : Text} {current : Text} {tokens : List Text} {rest : List UInt8}

theorem commandLine_cons (w : Writing) (a b : Text) (args : List Text) :
    commandLine w (a :: b :: args) = w.write a ++ ' ' :: commandLine w (b :: args) := by
  simp [commandLine, List.intercalate]

theorem commandLine_singleton (w : Writing) (a : Text) : commandLine w [a] = w.write a := by
  simp [commandLine, List.intercalate]

theorem scan_quote (current : Text) (tokens : List Text) (rest : List UInt8) :
    scan .idle current tokens (byteOf '\'' :: rest) = scan .singleQuote current tokens rest := rfl

theorem scan_inside {bs : List UInt8} (hbs : byteOf '\'' ∉ bs) :
    scan .singleQuote current tokens (bs ++ byteOf '\'' :: rest) =
      scan .token (current ++ bs.map byteChar) tokens rest := by
  induction bs generalizing current with
  | nil => rw [List.nil_append, List.map_nil, List.append_nil, scan, if_pos rfl]
  | cons b bs ih =>
    rw [List.mem_cons, not_or] at hbs
    rw [List.cons_append, scan, if_neg (Ne.symm hbs.1), ih hbs.2, List.append_assoc]
    rfl

theorem scan_quoted (ha : '\'' ∉ a) (rest : List UInt8) :
    scan .idle current tokens (utf8 (Writing.quoted.write a) ++ rest) =
      scan .token (current ++ latin a) tokens rest := by
  have hquote : utf8EncodeChar '\'' = [byteOf '\''] := utf8_ascii (by decide)
  have hbytes : utf8 (Writing.quoted.write a) ++ rest = byteOf '\'' :: (utf8 a ++ byteOf '\'' :: rest) := by
    rw [Writing.write, utf8_cons, utf8_append, utf8_cons, hquote]
    simp [utf8]
  rw [hbytes, scan_quote, scan_inside (byteOf_notMem_utf8 (by decide) ha)]
  rfl

theorem scan_space (current : Text) (tokens : List Text) (rest : List UInt8) :
    scan .token current tokens (utf8EncodeChar ' ' ++ rest) = scan .idle [] (pushToken current tokens) rest := rfl

theorem scan_quotedLine {args : List Text} (hargs : args ≠ []) (hne : ∀ a ∈ args, a ≠ [])
    (hplain : ∀ a ∈ args, '\'' ∉ a) (tokens : List Text) :
    scan .idle [] tokens (utf8 (commandLine .quoted args)) = .ok (tokens ++ args.map latin) := by
  induction args generalizing tokens with
  | nil => exact absurd rfl hargs
  | cons a args ih =>
    have hlatin : latin a ≠ [] := latin_ne_nil (hne a List.mem_cons_self)
    have hpush : pushToken (latin a) tokens = tokens ++ [latin a] := if_neg hlatin
    have ha := hplain a List.mem_cons_self
    cases args with
    | nil =>
      rw [commandLine_singleton, ← List.append_nil (utf8 _), scan_quoted ha, List.nil_append, scan, finish, hpush]
      exact if_neg (List.append_ne_nil_of_right_ne_nil _ (List.cons_ne_nil _ _))
    | cons b args =>
      rw [commandLine_cons, utf8_append, scan_quoted ha, utf8_cons, List.nil_append, scan_space, hpush,
        ih (List.cons_ne_nil _ _) (fun a h => hne a (List.mem_cons_of_mem _ h))
          fun a h => hplain a (List.mem_cons_of_mem _ h), List.append_assoc]
      rfl

theorem high_ne {b : UInt8} (hb : 128 ≤ b.toNat) {d : Char} (hd : IsAscii d) : b ≠ byteOf d := by
  rintro rfl
  have hd : d.toNat < 128 := hd
  change 128 ≤ d.toNat % 256 at hb
  omega

theorem high_plain {b : UInt8} (hb : 128 ≤ b.toNat) : isAsciiWhitespace b = false ∧ isMetachar b = false := by
  have hmeta : b ∉ metacharacters := by
    have hlow : ∀ m ∈ metacharacters, m.toNat < 128 := by decide +kernel
    exact fun hmem => absurd (hlow b hmem) (Nat.not_lt.mpr hb)
  have hfeed : b ≠ 0x0C := by
    rintro rfl
    exact absurd hb (by decide)
  simp [isAsciiWhitespace, isMetachar, hmeta, hfeed, high_ne hb (show IsAscii ' ' by decide),
    high_ne hb (show IsAscii '\t' by decide), high_ne hb (show IsAscii '\n' by decide),
    high_ne hb (show IsAscii '\r' by decide)]

theorem scan_high {state : State} (hstate : state = .idle ∨ state = .token) {b : UInt8} (hb : 128 ≤ b.toNat) :
    scan state current tokens (b :: rest) = scan .token (current ++ [byteChar b]) tokens rest := by
  obtain ⟨hspace, hmeta⟩ := high_plain hb
  have hquote := high_ne hb (show IsAscii '\'' by decide)
  have hdouble := high_ne hb (show IsAscii '"' by decide)
  have hback := high_ne hb (show IsAscii '\\' by decide)
  rcases hstate with rfl | rfl
  · rw [scan, if_neg (by simp [hspace]), if_neg hquote, if_neg hdouble, if_neg (by simp [hmeta])]
    simp [hback]
  · rw [scan, if_neg (by simp [hspace]), if_neg (by simp [hmeta]), if_neg hquote, if_neg hdouble]
    simp [hback]

theorem scan_highs {bs : List UInt8} (hbs : ∀ b ∈ bs, 128 ≤ b.toNat) :
    scan .token current tokens (bs ++ rest) = scan .token (current ++ bs.map byteChar) tokens rest := by
  induction bs generalizing current with
  | nil => rw [List.nil_append, List.map_nil, List.append_nil]
  | cons b bs ih =>
    rw [List.cons_append, scan_high (.inr rfl) (hbs b List.mem_cons_self),
      ih fun d hd => hbs d (List.mem_cons_of_mem b hd), List.append_assoc]
    rfl

theorem scan_backslash {state : State} (hstate : state = .idle ∨ state = .token) (current : Text)
    (tokens : List Text) (b : UInt8) (rest : List UInt8) :
    scan state current tokens (byteOf '\\' :: b :: rest) =
      scan state (current ++ [byteChar b]) tokens rest := by
  rcases hstate with rfl | rfl
  · rfl
  · rfl

theorem utf8_wide {c : Char} (hc : ¬IsAscii c) : ∃ b d bs, utf8EncodeChar c = b :: d :: bs := by
  have hsize : 2 ≤ (utf8EncodeChar c).length := by
    rw [String.length_utf8EncodeChar]
    have hone : c.utf8Size ≠ 1 := fun hone => hc (Nat.lt_succ_of_le (Char.utf8Size_eq_one_iff.mp hone))
    have := c.utf8Size_pos
    omega
  match h : utf8EncodeChar c with
  | [] => simp [h] at hsize
  | [_] => simp [h] at hsize
  | b :: d :: bs => exact ⟨b, d, bs, rfl⟩

def stateAfter (state : State) (a : Text) : State := if ∀ c ∈ a, IsAscii c then state else .token

theorem stateAfter_or {state : State} (hstate : state = .idle ∨ state = .token) (a : Text) :
    stateAfter state a = .idle ∨ stateAfter state a = .token := by
  rw [stateAfter]
  split_ifs
  · exact hstate
  · exact .inr rfl

theorem stateAfter_cons (state : State) (c : Char) (a : Text) :
    stateAfter (stateAfter state [c]) a = stateAfter state (c :: a) := by
  by_cases hc : IsAscii c <;> by_cases ha : ∀ d ∈ a, IsAscii d <;> simp [stateAfter, hc, ha]

theorem scan_escapedChar {state : State} (hstate : state = .idle ∨ state = .token) (c : Char) (current : Text)
    (rest : List UInt8) :
    scan state current tokens (byteOf '\\' :: (utf8EncodeChar c ++ rest)) =
      scan (stateAfter state [c]) (current ++ (utf8EncodeChar c).map byteChar) tokens rest := by
  by_cases hc : IsAscii c
  · have hstay : stateAfter state [c] = state := if_pos fun d hd => List.mem_singleton.mp hd ▸ hc
    rw [hstay, utf8_ascii hc, List.singleton_append, scan_backslash hstate, List.map_singleton]
  · have hmove : stateAfter state [c] = .token := if_neg fun h => hc (h c List.mem_cons_self)
    have hhigh := not_ascii_bytes hc
    obtain ⟨b, d, bs, hbytes⟩ := utf8_wide hc
    rw [hbytes] at hhigh
    rw [hmove, hbytes, List.cons_append, List.cons_append, scan_backslash hstate,
      scan_high hstate (hhigh d (List.mem_cons_of_mem b List.mem_cons_self)),
      scan_highs fun e he => hhigh e (List.mem_cons_of_mem b (List.mem_cons_of_mem d he))]
    simp only [List.map_cons, List.append_assoc, List.cons_append, List.nil_append]

theorem scan_escaped {state : State} (hstate : state = .idle ∨ state = .token) (a : Text) (rest : List UInt8) :
    scan state current tokens (utf8 (Writing.escaped.write a) ++ rest) =
      scan (stateAfter state a) (current ++ latin a) tokens rest := by
  induction a generalizing state current with
  | nil =>
    rw [stateAfter, if_pos (fun c hc => absurd hc List.not_mem_nil)]
    change scan state current tokens rest = scan state (current ++ []) tokens rest
    rw [List.append_nil]
  | cons c a ih =>
    have hbytes : utf8 (Writing.escaped.write (c :: a)) ++ rest =
        byteOf '\\' :: (utf8EncodeChar c ++ (utf8 (Writing.escaped.write a) ++ rest)) := by
      rw [Writing.write, List.flatMap_cons, utf8_append, List.append_assoc, utf8_cons,
        utf8_ascii (show IsAscii '\\' by decide), utf8_cons]
      simp only [utf8, List.flatMap_nil, List.append_nil, List.cons_append, List.nil_append]
      rfl
    rw [hbytes, scan_escapedChar hstate, ih (stateAfter_or hstate [c]), stateAfter_cons, latin_cons,
      List.append_assoc]

theorem scan_idle_space (current : Text) (tokens : List Text) (rest : List UInt8) :
    scan .idle current tokens (utf8EncodeChar ' ' ++ rest) = scan .idle current tokens rest := rfl

def escapedTokens : Text → List Text → List Text
  | _, [] => []
  | current, a :: args =>
    if ∀ c ∈ a, IsAscii c then escapedTokens (current ++ latin a) args
    else (current ++ latin a) :: escapedTokens [] args

theorem scan_escapedLine {args : List Text} (hargs : args ≠ []) (current : Text) (tokens : List Text) :
    scan .idle current tokens (utf8 (commandLine .escaped args)) =
      finish .idle [] (tokens ++ escapedTokens current args) := by
  induction args generalizing current tokens with
  | nil => exact absurd rfl hargs
  | cons a args ih =>
    have hpush : (¬∀ c ∈ a, IsAscii c) → pushToken (current ++ latin a) tokens = tokens ++ [current ++ latin a] := by
      intro hwide
      refine if_neg (List.append_ne_nil_of_right_ne_nil _ (latin_ne_nil ?_))
      rintro rfl
      exact hwide fun c hc => absurd hc List.not_mem_nil
    cases args with
    | nil =>
      rw [commandLine_singleton, ← List.append_nil (utf8 _), scan_escaped (.inl rfl)]
      by_cases hascii : ∀ c ∈ a, IsAscii c
      · rw [stateAfter, if_pos hascii, escapedTokens, if_pos hascii, escapedTokens, List.append_nil]
        rfl
      · rw [stateAfter, if_neg hascii, escapedTokens, if_neg hascii, escapedTokens, ← hpush hascii]
        rfl
    | cons b args =>
      rw [commandLine_cons, utf8_append, scan_escaped (.inl rfl), utf8_cons]
      by_cases hascii : ∀ c ∈ a, IsAscii c
      · rw [stateAfter, if_pos hascii, scan_idle_space, ih (List.cons_ne_nil _ _),
          escapedTokens.eq_2 current a, if_pos hascii]
      · rw [stateAfter, if_neg hascii, scan_space, ih (List.cons_ne_nil _ _), hpush hascii,
          escapedTokens.eq_2 current a, if_neg hascii, List.append_assoc]
        rfl

theorem length_escapedTokens_le (current : Text) (args : List Text) :
    (escapedTokens current args).length ≤ args.length := by
  induction args generalizing current with
  | nil => exact Nat.zero_le _
  | cons a args ih =>
    rw [escapedTokens]
    split_ifs
    · exact (ih _).trans (Nat.le_succ _)
    · exact Nat.succ_le_succ (ih [])

theorem escapedTokens_ne {args : List Text} (hargs : args ≠ []) (current : Text) :
    escapedTokens current args ≠ args := by
  obtain ⟨a, args, rfl⟩ := List.exists_cons_of_ne_nil hargs
  rw [escapedTokens]
  split_ifs with hascii
  · intro h
    have hlen := length_escapedTokens_le (current ++ latin a) args
    rw [h, List.length_cons] at hlen
    exact Nat.not_succ_le_self _ hlen
  · intro h
    have hlen := congrArg List.length (List.cons.inj h).1
    have := length_lt_latin hascii
    rw [List.length_append] at hlen
    omega

end Scanning

theorem parse_written_iff (w : Writing) {args : List Text} (hargs : args ≠ []) (hne : ∀ a ∈ args, a ≠ [])
    (hplain : w = .quoted → ∀ a ∈ args, '\'' ∉ a) :
    parseCommand (commandLine w args) = .ok args ↔ w = .quoted ∧ ∀ a ∈ args, ∀ c ∈ a, IsAscii c := by
  cases w with
  | quoted =>
    rw [parseCommand, scan_quotedLine hargs hne (hplain rfl), List.nil_append]
    constructor
    · intro h
      have hmap : args.map latin = args.map id := by
        rw [List.map_id]
        exact Except.ok.inj h
      exact ⟨rfl, fun a ha => latin_eq_iff.mp (List.map_inj_left.mp hmap a ha)⟩
    · rintro ⟨-, hascii⟩
      rw [List.map_congr_left fun a ha => latin_eq (hascii a ha), List.map_id']
  | escaped =>
    refine iff_of_false ?_ fun h => nomatch h.1
    rw [parseCommand, scan_escapedLine hargs, List.nil_append, finish]
    beta_reduce
    split_ifs
    · exact fun h => nomatch h
    · exact fun h => escapedTokens_ne hargs [] (Except.ok.inj h)

theorem quoted_ascii_kept :
    parseCommand (commandLine .quoted ["a b".toList, "$|&".toList]) = .ok ["a b".toList, "$|&".toList] :=
  (parse_written_iff .quoted (List.cons_ne_nil _ _) (by decide) (fun _ => by decide)).mpr ⟨rfl, by decide⟩

theorem escaped_word_lost :
    commandLine .escaped ["a".toList] = "\\a".toList ∧
      parseCommand (commandLine .escaped ["a".toList]) = .error .emptyCommand ∧
      parseCommand (commandLine .quoted ["é".toList]) = .ok ["Ã©".toList] := by
  decide +kernel

end Fluent.CommonCore.Shell
