import Fluent.Library.Lossy
import Fluent.Spacy.Hash

namespace Fluent.Llm

open Fluent.Library
open Fluent.Spacy (Text isWhitespace)

def newline : UInt8 := 10

def trimEnd (t : Text) : Text := (t.reverse.dropWhile isWhitespace).reverse

theorem drop_line_lt {buffer : List UInt8} (h : newline ∈ buffer) :
    (buffer.drop (buffer.idxOf newline + 1)).length < buffer.length := by
  have hlt := List.idxOf_lt_length_of_mem h
  rw [List.length_drop]
  omega

def drainLines (buffer : List UInt8) : List Text × List UInt8 :=
  if h : newline ∈ buffer then
    let pos := buffer.idxOf newline
    let line := buffer.take (pos + 1)
    let rest := drainLines (buffer.drop (pos + 1))
    (trimEnd (decodeLossy line) :: rest.1, rest.2)
  else ([], buffer)
termination_by buffer.length
decreasing_by exact drop_line_lt h

def drainSseLines (buffer chunk : List UInt8) : List Text × List UInt8 := drainLines (buffer ++ chunk)

def drainChunks : List UInt8 → List (List UInt8) → List Text × List UInt8
  | buffer, [] => ([], buffer)
  | buffer, chunk :: chunks =>
    let called := drainSseLines buffer chunk
    let rest := drainChunks called.2 chunks
    (called.1 ++ rest.1, rest.2)

def segments (stream : List UInt8) : List (List UInt8) := stream.splitOnP (· == newline)

theorem trimEnd_newline (t : Text) : trimEnd (t ++ ['\n']) = trimEnd t := by
  rw [trimEnd, List.reverse_append, List.reverse_singleton, List.singleton_append,
    List.dropWhile_cons_of_pos (by decide)]
  rfl

theorem drainLines_of_notMem {buffer : List UInt8} (h : newline ∉ buffer) : drainLines buffer = ([], buffer) := by
  rw [drainLines, dif_neg h]

theorem drainLines_append {first : List UInt8} (h : newline ∉ first) (rest : List UInt8) :
    drainLines (first ++ newline :: rest) =
      (trimEnd (decodeLossy first) :: (drainLines rest).1, (drainLines rest).2) := by
  have hpos : (first ++ newline :: rest).idxOf newline = first.length := by
    rw [List.idxOf_append_of_notMem h, List.idxOf_cons_self, Nat.add_zero]
  have htake : (first ++ newline :: rest).take (first.length + 1) = first ++ [newline] := by
    simp [List.take_append]
  have hdrop : (first ++ newline :: rest).drop (first.length + 1) = rest := by
    simp [List.drop_append]
  have hline : decodeLossy (first ++ [newline]) = decodeLossy first ++ ['\n'] :=
    decodeLossy_append_ascii first [] (by decide)
  rw [drainLines, dif_pos (by simp)]
  simp only [hpos, htake, hdrop, hline, trimEnd_newline]

theorem stream_induction {P : List UInt8 → Prop} (tail : ∀ stream, newline ∉ stream → P stream)
    (line : ∀ first rest, newline ∉ first → P rest → P (first ++ newline :: rest)) (stream : List UInt8) :
    P stream := by
  induction hn : stream.length using Nat.strong_induction_on generalizing stream with
  | _ n ih =>
    by_cases hmem : newline ∈ stream
    · obtain ⟨first, rest, rfl, hfirst⟩ := List.eq_append_cons_of_mem hmem
      refine line first rest hfirst (ih rest.length ?_ rest rfl)
      rw [← hn, List.length_append, List.length_cons]
      omega
    · exact tail stream hmem

theorem segments_append {first : List UInt8} (h : newline ∉ first) (rest : List UInt8) :
    segments (first ++ newline :: rest) = first :: segments rest := by
  rw [segments, List.splitOnP_append_cons _ _ (by simp), splitOnP_of_notMem h]
  rfl

theorem segments_ne_nil (stream : List UInt8) : segments stream ≠ [] := List.splitOnP_ne_nil _ _

theorem drainLines_eq (stream : List UInt8) :
    drainLines stream = ((segments stream).dropLast.map fun line => trimEnd (decodeLossy line),
      (segments stream).getLast (segments_ne_nil stream)) := by
  induction stream using stream_induction with
  | tail stream h =>
    have hsegments : segments stream = [stream] := splitOnP_of_notMem h
    simp [drainLines_of_notMem h, hsegments]
  | line first rest h ih =>
    simp only [drainLines_append h, segments_append h, ih]
    rw [List.dropLast_cons_of_ne_nil (segments_ne_nil rest), List.map_cons, List.getLast_cons (segments_ne_nil rest)]

theorem newline_notMem_drainLines (stream : List UInt8) : newline ∉ (drainLines stream).2 := by
  induction stream using stream_induction with
  | tail stream h => rwa [drainLines_of_notMem h]
  | line first rest h ih => rwa [drainLines_append h]

theorem drainLines_cut (stream more : List UInt8) :
    drainLines (stream ++ more) =
      ((drainLines stream).1 ++ (drainLines ((drainLines stream).2 ++ more)).1,
        (drainLines ((drainLines stream).2 ++ more)).2) := by
  induction stream using stream_induction with
  | tail stream h => simp [drainLines_of_notMem h]
  | line first rest h ih =>
    rw [List.append_assoc, List.cons_append, drainLines_append h, drainLines_append h, ih]
    rfl

theorem drainChunks_eq {buffer : List UInt8} (h : newline ∉ buffer) (chunks : List (List UInt8)) :
    drainChunks buffer chunks = drainLines (buffer ++ chunks.flatten) := by
  induction chunks generalizing buffer with
  | nil => rw [List.flatten_nil, List.append_nil, drainLines_of_notMem h, drainChunks]
  | cons chunk chunks ih =>
    rw [drainChunks, List.flatten_cons, ← List.append_assoc, drainLines_cut, drainSseLines,
      ih (newline_notMem_drainLines _)]

theorem drain_sse_lines_chunks (chunks : List (List UInt8)) :
    drainChunks [] chunks = drainSseLines [] chunks.flatten ∧
      (drainChunks [] chunks).1 = (segments chunks.flatten).dropLast.map (fun line => trimEnd (decodeLossy line)) ∧
      (drainChunks [] chunks).1 =
        ((decodeLossy chunks.flatten).splitOnP (· == '\n')).dropLast.map trimEnd ∧
      (segments chunks.flatten).getLast? = some (drainChunks [] chunks).2 := by
  have hdrain : drainChunks [] chunks = drainLines chunks.flatten := drainChunks_eq (List.not_mem_nil) chunks
  have hdecoded : (decodeLossy chunks.flatten).splitOnP (· == '\n') = (segments chunks.flatten).map decodeLossy :=
    splitOnP_decodeLossy (show newline.toNat < 0x80 by decide) (by decide) _
  rw [hdrain, drainLines_eq, hdecoded]
  refine ⟨(drainLines_eq _).symm, rfl, ?_, List.getLast?_eq_some_getLast _⟩
  rw [← List.map_dropLast, List.map_map]
  rfl

example : drainChunks [] [[100, 97, 0xC3], [0xA9, 13, 10, 104], [105]] = (["daé".toList], [104, 105]) := by
  decide +kernel

end Fluent.Llm
