import Fluent.Spacy.Hash
import Mathlib.Data.List.TakeWhile

namespace Fluent.Llm

open Fluent.Spacy (Text isWhitespace)

def isTerminal (c : Char) : Bool := ['.', '!', '?', '。', '！', '？'].contains c

def sliceBetween (text : Text) (start stop : ℕ) : Option Text :=
  if start ≤ stop ∧ stop ≤ text.length then some ((text.take stop).drop start) else none

def unitEnd (text : Text) (idx : ℕ) (ch : Char) : ℕ :=
  if idx + 1 < text.length then
    if isTerminal ch ∧ text[idx + 1]? = some '\n' then
      if idx + 2 < text.length then idx + 2 else text.length
    else idx + 1
  else text.length

def pushUnit (units : List Text) (unit : Text) : List Text := if unit.trim = [] then units else units ++ [unit]

def splitStep (text : Text) (s : ℕ × List Text) (idx : ℕ) : Option (ℕ × List Text) :=
  match text[idx]? with
  | none => some s
  | some ch =>
    if isTerminal ch ∨ ch = '\n' then do
      let unit ← sliceBetween text s.1 (unitEnd text idx ch)
      some (unitEnd text idx ch, pushUnit s.2 unit)
    else some s

def splitIntoSentences (text : Text) : Option (List Text) := do
  let s ← (List.range text.length).foldlM (splitStep text) (0, [])
  if s.1 < text.length then some (pushUnit s.2 (text.drop s.1)) else some s.2

def visible (t : Text) : Text := t.filter fun c => !isWhitespace c

theorem visible_append (s t : Text) : visible (s ++ t) = visible s ++ visible t := List.filter_append ..

theorem visible_eq_nil_iff (t : Text) : visible t = [] ↔ ∀ c ∈ t, isWhitespace c = true := by
  simp [visible, List.filter_eq_nil_iff]

theorem visible_dropWhile (t : Text) : visible (t.dropWhile isWhitespace) = visible t := by
  induction t with
  | nil => rfl
  | cons c t ih =>
    by_cases hc : isWhitespace c = true
    · rw [List.dropWhile_cons_of_pos hc, ih]
      simp [visible, hc]
    · rw [List.dropWhile_cons_of_neg hc]

theorem visible_reverse (t : Text) : visible t.reverse = (visible t).reverse := List.filter_reverse ..

theorem visible_trim (t : Text) : visible t.trim = visible t := by
  rw [Text.trim, visible_reverse, visible_dropWhile, visible_reverse, List.reverse_reverse, visible_dropWhile]

theorem trim_eq_nil_iff (t : Text) : t.trim = [] ↔ visible t = [] := by
  constructor
  · intro h
    rw [← visible_trim, h]
    rfl
  · intro h
    have hall := (visible_eq_nil_iff t).mp h
    rw [Text.trim, List.dropWhile_eq_nil_iff.mpr hall]
    rfl

theorem visible_pushUnit (units : List Text) (unit : Text) :
    visible (pushUnit units unit).flatten = visible units.flatten ++ visible unit := by
  rw [pushUnit]
  split
  · next h => rw [(trim_eq_nil_iff unit).mp h, List.append_nil]
  · rw [List.flatten_append, visible_append, List.flatten_singleton]

theorem mem_pushUnit {units : List Text} {unit u : Text} (h : u ∈ pushUnit units unit) :
    u ∈ units ∨ visible u ≠ [] := by
  rw [pushUnit] at h
  split at h
  · exact Or.inl h
  · next hunit =>
    obtain h | h := List.mem_append.mp h
    · exact Or.inl h
    · rw [List.mem_singleton.mp h]
      exact Or.inr fun hv => hunit ((trim_eq_nil_iff unit).mpr hv)

structure Splits (text : Text) (idx : ℕ) (s : ℕ × List Text) : Prop where
  le_length : s.1 ≤ text.length
  start : s.1 ≤ idx ∨ s.1 = idx + 1 ∧ text[idx]? = some '\n'
  covers : visible s.2.flatten = visible (text.take s.1)
  units : ∀ u ∈ s.2, visible u ≠ []

theorem unitEnd_cases {text : Text} {idx : ℕ} (h : idx < text.length) (ch : Char) :
    unitEnd text idx ch = idx + 1 ∨
      unitEnd text idx ch = idx + 2 ∧ idx + 1 < text.length ∧ text[idx + 1]? = some '\n' := by
  rw [unitEnd]
  split
  · next hlt =>
    split
    · next hnewline =>
      refine Or.inr ⟨?_, hlt, hnewline.2⟩
      split <;> omega
    · exact Or.inl rfl
  · exact Or.inl (by omega)

theorem visible_take_slice {text : Text} {start stop : ℕ} (h : start ≤ stop) :
    visible (text.take stop) = visible (text.take start) ++ visible ((text.take stop).drop start) := by
  rw [← visible_append]
  conv_lhs => rw [← List.take_append_drop start (text.take stop)]
  rw [List.take_take, Nat.min_eq_left h]

theorem Splits.step {text : Text} {idx : ℕ} {s : ℕ × List Text} (h : Splits text idx s) (hidx : idx < text.length) :
    ∃ s', splitStep text s idx = some s' ∧ Splits text (idx + 1) s' := by
  have hstart := h.start
  rw [splitStep, List.getElem?_eq_getElem hidx]
  dsimp only
  split
  · have hend := unitEnd_cases hidx (text.get ⟨idx, hidx⟩)
    have hle : s.1 ≤ unitEnd text idx (text.get ⟨idx, hidx⟩) := by omega
    have hlen : unitEnd text idx (text.get ⟨idx, hidx⟩) ≤ text.length := by omega
    refine ⟨_, by rw [sliceBetween, if_pos ⟨hle, hlen⟩]; rfl, hlen, ?_, ?_, fun u hu => ?_⟩
    · obtain hone | ⟨htwo, -, hnewline⟩ := hend
      · exact Or.inl (Nat.le_of_eq hone)
      · exact Or.inr ⟨htwo, hnewline⟩
    · rw [visible_pushUnit, h.covers]
      exact (visible_take_slice hle).symm
    · exact (mem_pushUnit hu).elim (h.units u) id
  · exact ⟨s, rfl, h.le_length, Or.inl (by omega), h.covers, h.units⟩

theorem splits_range {text : Text} {n : ℕ} (hn : n ≤ text.length) :
    ∃ s, (List.range n).foldlM (splitStep text) (0, []) = some s ∧ Splits text n s := by
  induction n with
  | zero => exact ⟨(0, []), rfl, Nat.zero_le _, Or.inl (Nat.le_refl _), by simp, by simp⟩
  | succ n ih =>
    obtain ⟨s, hs, hsplits⟩ := ih (by omega)
    obtain ⟨s', hstep, hsplits'⟩ := hsplits.step (by omega)
    refine ⟨s', ?_, hsplits'⟩
    rw [List.range_succ, List.foldlM_append, hs]
    simpa using hstep

theorem splitIntoSentences_covers (text : Text) :
    ∃ units, splitIntoSentences text = some units ∧ visible units.flatten = visible text ∧
      ∀ u ∈ units, visible u ≠ [] := by
  obtain ⟨s, hs, hsplits⟩ := splits_range (Nat.le_refl text.length)
  rw [splitIntoSentences, hs]
  by_cases hrest : s.1 < text.length
  · refine ⟨_, if_pos hrest, ?_, fun u hu => (mem_pushUnit hu).elim (hsplits.units u) id⟩
    rw [visible_pushUnit, hsplits.covers, ← visible_append, List.take_append_drop]
  · refine ⟨s.2, if_neg hrest, ?_, hsplits.units⟩
    rw [hsplits.covers, List.take_of_length_le (by omega)]

end Fluent.Llm
