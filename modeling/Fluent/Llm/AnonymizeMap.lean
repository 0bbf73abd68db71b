import Mathlib.Order.Lattice.Nat
import Fluent.Library.HashContainers
import Fluent.Library.Utf8
import Fluent.Spacy.Hash

open Fluent.Library

namespace Fluent.Llm

open Fluent.Spacy (Text)
open String (utf8EncodeChar)

def isAsciiPunctuation (c : Char) : Bool :=
  let n := c.toNat
  (33 ≤ n && n ≤ 47) || (58 ≤ n && n ≤ 64) || (91 ≤ n && n ≤ 96) || (123 ≤ n && n ≤ 126)

def extractPlaceholder (s : Text) : Option Text :=
  if s.head? = some '[' then
    (s.findIdx? (· = ']')).bind fun stop =>
      let candidate := s.take (stop + 1)
      if utf8Len candidate ≤ 64 then some candidate else none
  else none

section BuildAnonymizeMap

variable (isAlphanumeric : Char → Bool)

def matchedText (text : Text) : Text :=
  (text.findIdx? fun c => isAlphanumeric c || isAsciiPunctuation c).elim text fun i => text.take (i + 1)

theorem matchedText_prefix (text : Text) : matchedText isAlphanumeric text <+: text := by
  unfold matchedText
  cases text.findIdx? _ with
  | none => exact List.prefix_rfl
  | some i => exact List.take_prefix _ _

theorem matchedText_ne_nil {text : Text} (h : text ≠ []) : matchedText isAlphanumeric text ≠ [] := by
  unfold matchedText
  cases text.findIdx? _ with
  | none => exact h
  | some i => simpa using h

def findMatchingLen (text : Text) : ℕ := max (utf8Len (matchedText isAlphanumeric text)) 1

/-- The walk of both byte cursors; `none` where a slice is taken inside a character, which panics. -/
def diffWalk (original anonymized : Text) (origIdx anonIdx : ℕ) (counts : HashMap Text ℕ)
    (map : HashMap Text Text) : Option (HashMap Text Text) :=
  if origIdx < utf8Len original ∧ anonIdx < utf8Len anonymized then
    if (utf8 original)[origIdx]? = (utf8 anonymized)[anonIdx]? then
      diffWalk original anonymized (origIdx + 1) (anonIdx + 1) counts map
    else
      (sliceFrom original origIdx).bind fun remaining =>
        (sliceFrom anonymized anonIdx).bind fun rest =>
          match extractPlaceholder rest with
          | some ph =>
            if 0 < findMatchingLen isAlphanumeric remaining then
              (sliceTo remaining (findMatchingLen isAlphanumeric remaining)).bind fun value =>
                let count := (counts.lookup ph).getD 0
                let key := if count = 0 then ph else ph ++ '_' :: (Nat.repr count).toList
                diffWalk original anonymized (origIdx + findMatchingLen isAlphanumeric remaining)
                  (anonIdx + utf8Len ph) (counts.insert ph (count + 1)) (map.insert key value)
            else diffWalk original anonymized (origIdx + 1) (anonIdx + 1) counts map
          | none => diffWalk original anonymized (origIdx + 1) (anonIdx + 1) counts map
  else some map
termination_by utf8Len original - origIdx

def buildAnonymizeMap (original anonymized : Text) (map : HashMap Text Text) : Option (HashMap Text Text) :=
  diffWalk isAlphanumeric original anonymized 0 0 ∅ map

def aligned : Text → Text → Bool
  | c :: original, d :: anonymized =>
    if c = d then aligned original anonymized
    else if (utf8EncodeChar c).head? = (utf8EncodeChar d).head? then false
    else
      match extractPlaceholder (d :: anonymized) with
      | some ph =>
        aligned ((c :: original).drop (matchedText isAlphanumeric (c :: original)).length)
          ((d :: anonymized).drop ph.length)
      | none =>
        if (utf8EncodeChar c).tail = (utf8EncodeChar d).tail then aligned original anonymized
        else if (utf8EncodeChar c).tail <+: (utf8EncodeChar d).tail then original.isEmpty
        else if (utf8EncodeChar d).tail <+: (utf8EncodeChar c).tail then anonymized.isEmpty
        else false
  | _, _ => true
termination_by original => original.length
decreasing_by
  · exact Nat.lt_succ_self _
  · have hpos := List.length_pos_iff.mpr (matchedText_ne_nil isAlphanumeric (List.cons_ne_nil c original))
    rw [List.length_drop, List.length_cons]
    omega
  · exact Nat.lt_succ_self _

end BuildAnonymizeMap

theorem extractPlaceholder_prefix {s ph : Text} (h : extractPlaceholder s = some ph) : ph <+: s := by
  unfold extractPlaceholder at h
  split at h
  · obtain ⟨stop, -, h⟩ := Option.bind_eq_some_iff.mp h
    dsimp only at h
    split at h
    · cases h
      exact List.take_prefix _ _
    · cases h
  · cases h

section Walk

variable {f : Char → Bool} {original anonymized : Text} {i j : ℕ} {counts : HashMap Text ℕ} {map : HashMap Text Text}

theorem diffWalk_done (h : ¬(i < utf8Len original ∧ j < utf8Len anonymized)) :
    diffWalk f original anonymized i j counts map = some map := by
  rw [diffWalk, if_neg h]

theorem diffWalk_equal (h : i < utf8Len original ∧ j < utf8Len anonymized)
    (heq : (utf8 original)[i]? = (utf8 anonymized)[j]?) :
    diffWalk f original anonymized i j counts map =
      diffWalk f original anonymized (i + 1) (j + 1) counts map := by
  rw [diffWalk, if_pos h, if_pos heq]

theorem diffWalk_panic (h : i < utf8Len original ∧ j < utf8Len anonymized)
    (hne : (utf8 original)[i]? ≠ (utf8 anonymized)[j]?)
    (hslice : sliceFrom original i = none ∨ sliceFrom anonymized j = none) :
    diffWalk f original anonymized i j counts map = none := by
  rw [diffWalk, if_pos h, if_neg hne]
  rcases hslice with hslice | hslice
  · rw [hslice]
    rfl
  · rw [hslice]
    cases sliceFrom original i with
    | none => rfl
    | some remaining => rfl

end Walk

section Chars

variable {f : Char → Bool} {p q original anonymized : Text} {c d : Char} {counts : HashMap Text ℕ}
  {map : HashMap Text Text}

theorem inside_text {k : ℕ} (hk : k < c.utf8Size) : utf8Len p + k < utf8Len (p ++ c :: original) := by
  rw [utf8Len_append, utf8Len_cons]
  omega

theorem diffWalk_run {k : ℕ} (i : ℕ) (hik : i ≤ k) (hc : k ≤ c.utf8Size) (hd : k ≤ d.utf8Size)
    (heq : ∀ j, i ≤ j → j < k → (utf8EncodeChar c)[j]? = (utf8EncodeChar d)[j]?) :
    diffWalk f (p ++ c :: original) (q ++ d :: anonymized) (utf8Len p + i) (utf8Len q + i) counts map =
      diffWalk f (p ++ c :: original) (q ++ d :: anonymized) (utf8Len p + k) (utf8Len q + k) counts map := by
  induction k, hik using Nat.le_induction with
  | base => rfl
  | succ k hik ih =>
    rw [ih (by omega) (by omega) fun j hij hjk => heq j hij (by omega)]
    apply diffWalk_equal ⟨inside_text hc, inside_text hd⟩
    rw [getElem?_utf8 hc, getElem?_utf8 hd]
    exact heq k hik (Nat.lt_succ_self k)

theorem diffWalk_mismatch {k : ℕ} (i : ℕ) (hik : i ≤ k) (hpos : 0 < k) (hc : k < c.utf8Size) (hd : k < d.utf8Size)
    (heq : ∀ j, i ≤ j → j < k → (utf8EncodeChar c)[j]? = (utf8EncodeChar d)[j]?)
    (hne : (utf8EncodeChar c)[k]? ≠ (utf8EncodeChar d)[k]?) :
    diffWalk f (p ++ c :: original) (q ++ d :: anonymized) (utf8Len p + i) (utf8Len q + i) counts map = none := by
  rw [diffWalk_run i hik hc.le hd.le heq]
  apply diffWalk_panic ⟨inside_text hc, inside_text hd⟩
  · rw [getElem?_utf8 hc, getElem?_utf8 hd]
    exact hne
  · exact Or.inl (sliceFrom_inside hpos hc)

theorem utf8Len_concat (p : Text) (c : Char) : utf8Len p + c.utf8Size = utf8Len (p ++ [c]) := by
  rw [utf8Len_append]
  rfl

theorem diffWalk_original_ahead {k : ℕ} (hpos : 0 < k) (hk : k < d.utf8Size) :
    (diffWalk f (p ++ original) (q ++ d :: anonymized) (utf8Len p) (utf8Len q + k) counts map).isSome =
      original.isEmpty := by
  cases original with
  | nil =>
    rw [diffWalk_done]
    · rfl
    · rw [List.append_nil]
      omega
  | cons c original =>
    rw [diffWalk_panic]
    · rfl
    · exact ⟨inside_text (k := 0) c.utf8Size_pos, inside_text hk⟩
    · have hfirst := getElem?_utf8 (p := p) (s := original) (k := 0) c.utf8Size_pos
      rw [Nat.add_zero] at hfirst
      rw [hfirst, getElem?_utf8 hk]
      exact first_ne_later hpos hk
    · exact Or.inr (sliceFrom_inside hpos hk)

theorem diffWalk_anonymized_ahead {k : ℕ} (hpos : 0 < k) (hk : k < c.utf8Size) :
    (diffWalk f (p ++ c :: original) (q ++ anonymized) (utf8Len p + k) (utf8Len q) counts map).isSome =
      anonymized.isEmpty := by
  cases anonymized with
  | nil =>
    rw [diffWalk_done]
    · rfl
    · rw [List.append_nil]
      omega
  | cons d anonymized =>
    rw [diffWalk_panic]
    · rfl
    · exact ⟨inside_text hk, inside_text (k := 0) d.utf8Size_pos⟩
    · have hfirst := getElem?_utf8 (p := q) (s := anonymized) (k := 0) d.utf8Size_pos
      rw [Nat.add_zero] at hfirst
      rw [hfirst, getElem?_utf8 hk]
      exact (first_ne_later hpos hk).symm
    · exact Or.inl (sliceFrom_inside hpos hk)

theorem getElem?_tail_encode (c : Char) (k : ℕ) : (utf8EncodeChar c)[k + 1]? = (utf8EncodeChar c).tail[k]? := by
  rw [List.getElem?_tail]

theorem length_tail_encode (c : Char) : (utf8EncodeChar c).tail.length + 1 = c.utf8Size := by
  have hpos := c.utf8Size_pos
  rw [List.length_tail, String.length_utf8EncodeChar]
  omega

theorem diffWalk_tails {b : Bool}
    (hnext : (diffWalk f (p ++ c :: original) (q ++ d :: anonymized) (utf8Len (p ++ [c])) (utf8Len (q ++ [d]))
      counts map).isSome = b) :
    (diffWalk f (p ++ c :: original) (q ++ d :: anonymized) (utf8Len p + 1) (utf8Len q + 1) counts map).isSome =
      if (utf8EncodeChar c).tail = (utf8EncodeChar d).tail then b
      else if (utf8EncodeChar c).tail <+: (utf8EncodeChar d).tail then original.isEmpty
      else if (utf8EncodeChar d).tail <+: (utf8EncodeChar c).tail then anonymized.isEmpty
      else false := by
  have hc := length_tail_encode c
  have hd := length_tail_encode d
  have hcut : ∀ (p s : Text) (c : Char), p ++ c :: s = (p ++ [c]) ++ s := fun p s c => by simp
  have hbytes : ∀ k, (∀ j < k, (utf8EncodeChar c).tail[j]? = (utf8EncodeChar d).tail[j]?) →
      ∀ j, 1 ≤ j → j < k + 1 → (utf8EncodeChar c)[j]? = (utf8EncodeChar d)[j]? := by
    intro k h j hj hjk
    obtain ⟨j, rfl⟩ : ∃ i, j = i + 1 := ⟨j - 1, by omega⟩
    rw [getElem?_tail_encode, getElem?_tail_encode]
    exact h j (by omega)
  have hpref : ∀ {l m : List UInt8}, l <+: m → ∀ j < l.length, l[j]? = m[j]? := by
    rintro l _ ⟨t, rfl⟩ j hj
    rw [List.getElem?_append_left hj]
  split
  · next htail =>
    rw [diffWalk_run 1 c.utf8Size_pos (le_refl _) (by rw [← hc, htail, hd]), utf8Len_concat]
    · rw [← hc, htail, hd, utf8Len_concat]
      exact hnext
    · rw [← hc]
      exact hbytes _ fun j _ => by rw [htail]
  · next hne =>
    split
    · next hpre =>
      have hlt : (utf8EncodeChar c).tail.length < (utf8EncodeChar d).tail.length := by
        by_contra hle
        exact hne (hpre.eq_of_length_le (Nat.le_of_not_lt hle))
      rw [diffWalk_run 1 c.utf8Size_pos (le_refl _) (by omega), utf8Len_concat, hcut p]
      · exact diffWalk_original_ahead c.utf8Size_pos (by omega)
      · rw [← hc]
        exact hbytes _ (hpref hpre)
    · next hnot =>
      split
      · next hpre =>
        have hlt : (utf8EncodeChar d).tail.length < (utf8EncodeChar c).tail.length := by
          by_contra hle
          exact hne (hpre.eq_of_length_le (Nat.le_of_not_lt hle)).symm
        rw [diffWalk_run (c := c) (d := d) 1 d.utf8Size_pos (by omega) (le_refl _), utf8Len_concat q d, hcut q]
        · exact diffWalk_anonymized_ahead d.utf8Size_pos (by omega)
        · rw [← hd]
          exact hbytes _ fun j hj => (hpref hpre j hj).symm
      · next hnot' =>
        obtain ⟨k, hkc, hkd, heq, hkne⟩ := exists_mismatch hnot hnot'
        rw [diffWalk_mismatch (k := k + 1) 1 (by omega) (by omega) (by omega) (by omega) (hbytes k heq)]
        · rfl
        · rw [getElem?_tail_encode, getElem?_tail_encode]
          exact hkne

theorem diffWalk_same :
    diffWalk f (p ++ c :: original) (q ++ c :: anonymized) (utf8Len p) (utf8Len q) counts map =
      diffWalk f (p ++ c :: original) (q ++ c :: anonymized) (utf8Len (p ++ [c])) (utf8Len (q ++ [c])) counts map := by
  have hrun : diffWalk f (p ++ c :: original) (q ++ c :: anonymized) (utf8Len p + 0) (utf8Len q + 0) counts map =
      diffWalk f (p ++ c :: original) (q ++ c :: anonymized) (utf8Len p + c.utf8Size) (utf8Len q + c.utf8Size)
        counts map :=
    diffWalk_run 0 (Nat.zero_le _) (le_refl c.utf8Size) (le_refl c.utf8Size) fun _ _ _ => rfl
  rwa [Nat.add_zero, Nat.add_zero, utf8Len_concat, utf8Len_concat] at hrun

theorem diffWalk_same_head (hcd : c ≠ d) (hhead : (utf8EncodeChar c).head? = (utf8EncodeChar d).head?) :
    diffWalk f (p ++ c :: original) (q ++ d :: anonymized) (utf8Len p) (utf8Len q) counts map = none := by
  obtain ⟨k, hkc, hkd, heq, hkne⟩ := exists_mismatch (fun h => hcd (eq_of_utf8_leads h))
    fun h => hcd (eq_of_utf8_leads h).symm
  rw [String.length_utf8EncodeChar] at hkc hkd
  have hpos : 0 < k := by
    by_contra hk
    obtain rfl : k = 0 := by omega
    rw [List.head?_eq_getElem?, List.head?_eq_getElem?] at hhead
    exact hkne hhead
  have hpanic : diffWalk f (p ++ c :: original) (q ++ d :: anonymized) (utf8Len p + 0) (utf8Len q + 0) counts
      map = none := diffWalk_mismatch 0 (Nat.zero_le _) hpos hkc hkd (fun j _ hj => heq j hj) hkne
  rwa [Nat.add_zero, Nat.add_zero] at hpanic

theorem diffWalk_slices (hhead : (utf8EncodeChar c).head? ≠ (utf8EncodeChar d).head?) :
    diffWalk f (p ++ c :: original) (q ++ d :: anonymized) (utf8Len p) (utf8Len q) counts map =
      (extractPlaceholder (d :: anonymized)).elim
        (diffWalk f (p ++ c :: original) (q ++ d :: anonymized) (utf8Len p + 1) (utf8Len q + 1) counts map) fun ph =>
        diffWalk f (p ++ c :: original) (q ++ d :: anonymized) (utf8Len (p ++ matchedText f (c :: original)))
          (utf8Len (q ++ ph)) (counts.insert ph ((counts.lookup ph).getD 0 + 1))
          (map.insert (if (counts.lookup ph).getD 0 = 0 then ph
            else ph ++ '_' :: (Nat.repr ((counts.lookup ph).getD 0)).toList) (matchedText f (c :: original))) := by
  have hin : utf8Len p < utf8Len (p ++ c :: original) ∧ utf8Len q < utf8Len (q ++ d :: anonymized) :=
    ⟨inside_text (k := 0) c.utf8Size_pos, inside_text (k := 0) d.utf8Size_pos⟩
  have hfirst : (utf8 (p ++ c :: original))[utf8Len p]? = (utf8EncodeChar c).head? := by
    rw [List.head?_eq_getElem?]
    exact getElem?_utf8 (k := 0) c.utf8Size_pos
  have hfirst' : (utf8 (q ++ d :: anonymized))[utf8Len q]? = (utf8EncodeChar d).head? := by
    rw [List.head?_eq_getElem?]
    exact getElem?_utf8 (k := 0) d.utf8Size_pos
  have hne := matchedText_ne_nil f (List.cons_ne_nil c original)
  have hlen : findMatchingLen f (c :: original) = utf8Len (matchedText f (c :: original)) := by
    have := utf8Len_pos hne
    unfold findMatchingLen
    omega
  have hslice : sliceTo (c :: original) (utf8Len (matchedText f (c :: original))) =
      some (matchedText f (c :: original)) := by
    obtain ⟨left, hleft⟩ := matchedText_prefix f (c :: original)
    have hslice := sliceTo_append (matchedText f (c :: original)) left
    rwa [hleft] at hslice
  rw [diffWalk, if_pos hin, if_neg (by rw [hfirst, hfirst']; exact hhead), sliceFrom_append, sliceFrom_append,
    Option.bind_some, Option.bind_some]
  cases extractPlaceholder (d :: anonymized) with
  | none => rfl
  | some ph =>
    dsimp only
    rw [if_pos (by rw [hlen]; exact utf8Len_pos hne), hlen, hslice, Option.bind_some, Option.elim_some, utf8Len_append,
      utf8Len_append]

end Chars

theorem diffWalk_isSome (f : Char → Bool) (original anonymized p q : Text) (counts : HashMap Text ℕ)
    (map : HashMap Text Text) :
    (diffWalk f (p ++ original) (q ++ anonymized) (utf8Len p) (utf8Len q) counts map).isSome =
      aligned f original anonymized := by
  induction hn : original.length using Nat.strong_induction_on generalizing original anonymized p q counts map with
  | _ n ih =>
    subst hn
    rcases original with _ | ⟨c, original⟩
    · rw [diffWalk_done (by rw [List.append_nil]; omega)]
      cases anonymized with
      | nil => simp [aligned]
      | cons d anonymized => simp [aligned]
    rcases anonymized with _ | ⟨d, anonymized⟩
    · rw [diffWalk_done (by rw [List.append_nil]; omega)]
      simp [aligned]
    have hnext : ∀ counts map, (diffWalk f (p ++ c :: original) (q ++ d :: anonymized) (utf8Len (p ++ [c]))
        (utf8Len (q ++ [d])) counts map).isSome = aligned f original anonymized := by
      intro counts map
      have h := ih original.length (Nat.lt_succ_self _) original anonymized (p ++ [c]) (q ++ [d]) counts map rfl
      rw [List.append_assoc, List.append_assoc] at h
      exact h
    rw [aligned]
    split
    · next hcd =>
      subst hcd
      rw [diffWalk_same]
      exact hnext counts map
    · next hcd =>
      split
      · next hhead =>
        rw [diffWalk_same_head hcd hhead]
        rfl
      · next hhead =>
        rw [diffWalk_slices hhead]
        cases hph : extractPlaceholder (d :: anonymized) with
        | none => exact diffWalk_tails (hnext counts map)
        | some ph =>
          obtain ⟨rest, hrest⟩ := extractPlaceholder_prefix hph
          obtain ⟨left, hleft⟩ := matchedText_prefix f (c :: original)
          have hdrop : (c :: original).drop (matchedText f (c :: original)).length = left := by
            have hdrop := congrArg (List.drop (matchedText f (c :: original)).length) hleft.symm
            rwa [List.drop_left] at hdrop
          have hdrop' : (d :: anonymized).drop ph.length = rest := by
            rw [← hrest, List.drop_left]
          have hshort : left.length < (c :: original).length := by
            have := List.length_pos_iff.mpr (matchedText_ne_nil f (List.cons_ne_nil c original))
            rw [← hdrop, List.length_drop, List.length_cons]
            omega
          dsimp only [Option.elim_some]
          rw [hdrop, hdrop', ← ih left.length hshort left rest (p ++ matchedText f (c :: original)) (q ++ ph) _ _ rfl,
            List.append_assoc, List.append_assoc, hleft, hrest]

theorem buildAnonymizeMap_isSome (f : Char → Bool) (original anonymized : Text) (map : HashMap Text Text) :
    (buildAnonymizeMap f original anonymized map).isSome = aligned f original anonymized :=
  diffWalk_isSome f original anonymized [] [] ∅ map

end Fluent.Llm
