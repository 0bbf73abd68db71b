import Fluent.Llm.StripThinking
import Fluent.Router.Request

open Fluent.Library

namespace Fluent.Router

open Fluent.Spacy (Text)
open Fluent.Llm

structure ChatCompletionChunk where
  id : Text
  object : Text
  created : ℕ
  model : Text
  index : ℕ
  content : Text
  finishReason : Option Text
deriving DecidableEq

structure StreamingHandler where
  buffer : Text
  filteredBuffer : Text
  chunkIndex : BitVec 32
  requestId : Text
  model : Text
  filterThinking : Bool
  filter : StreamingThinkFilter
deriving DecidableEq

namespace StreamingHandler

def new (requestId model : Text) : StreamingHandler := ⟨[], [], 0, requestId, model, false, .new⟩

def withFilterThinking (self : StreamingHandler) (enabled : Bool) : StreamingHandler :=
  { self with filterThinking := enabled }

def filterThinkBlock (self : StreamingHandler) (delta : Text) : Text × StreamingHandler :=
  let (content, filter) := self.filter.push delta
  (content, { self with filter })

def formatChunk (self : StreamingHandler) (now : ℕ) (delta : Text) (finishReason : Option Text) :
    Option ChatCompletionChunk × StreamingHandler :=
  let self := { self with buffer := self.buffer ++ delta, chunkIndex := self.chunkIndex + 1 }
  let (contentToSend, self) := if self.filterThinking then self.filterThinkBlock delta else (delta, self)
  if contentToSend = [] ∧ finishReason = none then (none, self)
  else
    (some ⟨self.requestId, "chat.completion.chunk".toList, now, self.model, 0, contentToSend, finishReason⟩,
      { self with filteredBuffer := self.filteredBuffer ++ contentToSend })

def filteredContent (self : StreamingHandler) : Text :=
  if self.filterThinking then self.filteredBuffer else stripThinkingBlocks self.buffer

def formatChunks (self : StreamingHandler) : List (ℕ × Text) → List ChatCompletionChunk × StreamingHandler
  | [] => ([], self)
  | (now, delta) :: deltas =>
    let (chunk, self) := self.formatChunk now delta none
    let (chunks, self) := self.formatChunks deltas
    (chunk.toList ++ chunks, self)

def stream (self : StreamingHandler) (deltas : List (ℕ × Text)) (now : ℕ) (last reason : Text) :
    List ChatCompletionChunk × StreamingHandler :=
  let (chunks, self) := self.formatChunks deltas
  let (chunk, self) := self.formatChunk now last (some reason)
  (chunks ++ chunk.toList, self)

def contentOf (chunks : List ChatCompletionChunk) : Text := chunks.flatMap ChatCompletionChunk.content

variable {self : StreamingHandler}

theorem formatChunk_filtering (h : self.filterThinking = true) (now : ℕ) (delta : Text) (finishReason : Option Text) :
    let out := self.formatChunk now delta finishReason
    let pushed := self.filter.push delta
    contentOf out.1.toList = pushed.1 ∧ out.2.filteredBuffer = self.filteredBuffer ++ pushed.1 ∧
      out.2.filter = pushed.2 ∧ out.2.filterThinking = true := by
  simp only [formatChunk, h, if_true, filterThinkBlock]
  split
  · next hempty =>
    rw [hempty.1, List.append_nil]
    exact ⟨rfl, rfl, rfl, rfl⟩
  · exact ⟨List.append_nil _, rfl, rfl, rfl⟩

theorem formatChunks_filtering (h : self.filterThinking = true) (deltas : List (ℕ × Text)) :
    let out := self.formatChunks deltas
    let pushed := self.filter.pushAll (deltas.map Prod.snd)
    contentOf out.1 = pushed.1 ∧ out.2.filteredBuffer = self.filteredBuffer ++ pushed.1 ∧
      out.2.filter = pushed.2 ∧ out.2.filterThinking = true := by
  induction deltas generalizing self with
  | nil => exact ⟨rfl, (List.append_nil _).symm, rfl, h⟩
  | cons d deltas ih =>
    obtain ⟨hcontent, hbuffer, hfilter, hon⟩ := formatChunk_filtering h d.1 d.2 none
    obtain ⟨hcontents, hbuffers, hfilters, hons⟩ := ih hon
    simp only [formatChunks, List.map_cons, StreamingThinkFilter.pushAll]
    rw [← hfilter]
    refine ⟨?_, ?_, hfilters, hons⟩
    · rw [← hcontents, ← hcontent, contentOf, List.flatMap_append]
      rfl
    · rw [hbuffers, hbuffer, List.append_assoc]

theorem stream_filtering (h : self.filterThinking = true) (deltas : List (ℕ × Text)) (now : ℕ) (last reason : Text) :
    let out := self.stream deltas now last reason
    let pushed := self.filter.pushAll (deltas.map Prod.snd ++ [last])
    contentOf out.1 = pushed.1 ∧ out.2.filteredContent = self.filteredBuffer ++ pushed.1 := by
  obtain ⟨hcontents, hbuffers, hfilters, hons⟩ := formatChunks_filtering h deltas
  obtain ⟨hcontent, hbuffer, -, hon⟩ := formatChunk_filtering hons now last (some reason)
  rw [hfilters] at hcontent hbuffer
  simp only [stream, StreamingThinkFilter.pushAll_concat]
  constructor
  · rw [← hcontents, ← hcontent, contentOf, List.flatMap_append]
    rfl
  · rw [filteredContent, if_pos hon, hbuffer, hbuffers, List.append_assoc]

end StreamingHandler

open StreamingThinkFilter in
theorem push_plain {s : Text} (hplain : ∀ tag ∈ openTags, ¬tag <:+: s) :
    (StreamingThinkFilter.new.push s).1 = s ↔ tagPrefixes s openTags = [] := by
  have hnone : earliest id (tags false) s = none :=
    earliest_eq_none.mpr fun tag htag i hat => hplain tag htag (hat.isInfix.trans (List.drop_suffix i s).isInfix)
  have hle := tagPrefixLen_le false s
  change (scan false s).1 = s ↔ _
  rw [scan_none hnone, ← tagPrefixLen_eq_zero]
  change s.take _ = s ↔ tagPrefixLen s (tags false) = 0
  rw [List.take_eq_self_iff]
  omega

namespace StreamingHandler

theorem stream_complete_iff (requestId model : Text) (deltas : List (ℕ × Text)) (now : ℕ) (last reason : Text)
    (hplain : ∀ tag ∈ StreamingThinkFilter.openTags, ¬tag <:+: (deltas.map Prod.snd ++ [last]).flatten) :
    let out := ((new requestId model).withFilterThinking true).stream deltas now last reason
    (contentOf out.1 = (deltas.map Prod.snd ++ [last]).flatten ∧
        out.2.filteredContent = (deltas.map Prod.snd ++ [last]).flatten) ↔
      StreamingThinkFilter.tagPrefixes (deltas.map Prod.snd ++ [last]).flatten StreamingThinkFilter.openTags = [] := by
  have hon : ((new requestId model).withFilterThinking true).filterThinking = true := rfl
  obtain ⟨hcontent, hfiltered⟩ := stream_filtering hon deltas now last reason
  dsimp only
  rw [hcontent, hfiltered]
  change (StreamingThinkFilter.new.pushAll _).1 = _ ∧ [] ++ (StreamingThinkFilter.new.pushAll _).1 = _ ↔ _
  rw [List.nil_append, and_self, StreamingThinkFilter.pushAll_eq StreamingThinkFilter.new_push_nil, push_plain hplain]

theorem stream_complete_one_chunk :
    let out := ((new [] []).withFilterThinking true).stream [(0, "a < b".toList)] 1 ", c".toList "stop".toList
    contentOf out.1 = "a < b, c".toList ∧ out.2.filteredContent = "a < b, c".toList :=
  (stream_complete_iff [] [] [(0, "a < b".toList)] 1 ", c".toList "stop".toList (by decide)).mpr (by decide)

theorem stream_loses_end :
    let out := ((new [] []).withFilterThinking true).stream [(0, "a <".toList)] 1 [] "stop".toList
    contentOf out.1 = "a ".toList ∧ out.2.filteredContent = "a ".toList ∧ out.2.filter.finish = "<".toList := by
  decide +kernel

end StreamingHandler

end Fluent.Router
