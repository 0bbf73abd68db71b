import Fluent.Library.HashContainers
import Fluent.Spacy.Hash

open Fluent.Library

namespace Fluent.Router

open Fluent.Spacy (Text)

inductive ContentPart where
  | text (t : Text)
  | imageUrl (url : Text)
deriving DecidableEq

inductive RouterMessageContent where
  | text (s : Text)
  | parts (parts : List ContentPart)
deriving DecidableEq

namespace RouterMessageContent

def toStringLossy : RouterMessageContent → Text
  | text s => s
  | parts ps =>
    List.intercalate [' '] (ps.filterMap fun
      | .text t => some t
      | .imageUrl _ => none)

end RouterMessageContent

structure RouterMessage where
  role : Text
  content : RouterMessageContent
deriving DecidableEq

inductive FilterAction where
  | redact
  | anonymize
  | omit
deriving DecidableEq

structure RegexMatch where
  patternName : Text
  matchedText : Text
  start : ℕ
  stop : ℕ
  action : FilterAction
deriving DecidableEq

structure PiiVerdict where
  pattern : Text
  action : FilterAction
  codewords : HashMap Text Text
  hits : List RegexMatch
deriving DecidableEq

structure RequestMetadata where
  piiFilter : Option PiiVerdict
  anonymizeMap : Option (HashMap Text Text)
  codewordMap : Option (HashMap Text Text)

structure RouterRequest where
  messages : List RouterMessage
  metadata : RequestMetadata

def extractUserMessage (request : RouterRequest) : Option Text :=
  request.messages.reverse.findSome? fun m =>
    if m.role ≠ "user".toList then none
    else
      match m.content with
      | .text s => some s
      | .parts ps =>
        let text := (RouterMessageContent.parts ps).toStringLossy
        if text.trim ≠ [] then some text else none

inductive TransformError where
  | failed (reason : Text)
  | notApplicable (reason : Text)
deriving DecidableEq

abbrev Rewrite (σ : Type) := StateT σ (ExceptT TransformError Option)

def rewriteMessage {σ : Type} (rewrite : Text → Rewrite σ Text) (message : RouterMessage) : Rewrite σ RouterMessage :=
  match message.content with
  | .text s => do
    let text ← rewrite s
    pure { message with content := .text text }
  | .parts _ => pure message

def rewriteTextMessages {σ : Type} (request : RouterRequest) (rewrite : Text → Rewrite σ Text) :
    Rewrite σ RouterRequest := do
  let messages ← request.messages.mapM (rewriteMessage rewrite)
  pure { request with messages }

def insertStringMap (old : Option (HashMap Text Text)) (map : HashMap Text Text) : Option (HashMap Text Text) :=
  if map = ∅ then old else some map

def RouterRequest.texts (request : RouterRequest) : List Text :=
  request.messages.filterMap fun m =>
    match m.content with
    | .text s => some s
    | .parts _ => none

theorem RouterRequest.mem_texts {request : RouterRequest} {t : Text} :
    t ∈ request.texts ↔ ∃ m ∈ request.messages, m.content = .text t := by
  unfold texts
  rw [List.mem_filterMap]
  constructor
  · rintro ⟨m, hm, h⟩
    refine ⟨m, hm, ?_⟩
    cases hc : m.content with
    | text s =>
      rw [hc] at h
      exact congrArg _ (Option.some.inj h)
    | parts ps =>
      rw [hc] at h
      cases h
  · rintro ⟨m, hm, h⟩
    exact ⟨m, hm, by rw [h]⟩

namespace Rewrite

variable {σ α β : Type}

def Succeeds (x : Rewrite σ α) (s : σ) : Prop := ∃ out, (x.run s).run = some (.ok out)

theorem succeeds_pure (a : α) (s : σ) : Succeeds (pure a : Rewrite σ α) s := ⟨(a, s), rfl⟩

theorem succeeds_bind {x : Rewrite σ α} {g : α → Rewrite σ β} {s : σ} :
    Succeeds (x >>= g) s ↔ ∃ a s', (x.run s).run = some (.ok (a, s')) ∧ Succeeds (g a) s' := by
  unfold Succeeds
  rw [StateT.run_bind, ExceptT.run_bind]
  cases hx : (x.run s).run with
  | none =>
    constructor
    · rintro ⟨out, h⟩
      cases h
    · rintro ⟨a, s', h, -⟩
      cases h
  | some r =>
    cases r with
    | error e =>
      constructor
      · rintro ⟨out, h⟩
        cases h
      · rintro ⟨a, s', h, -⟩
        cases h
    | ok r =>
      constructor
      · rintro ⟨out, h⟩
        exact ⟨r.1, r.2, rfl, out, h⟩
      · rintro ⟨a, s', h, out, hg⟩
        cases h
        exact ⟨out, hg⟩

theorem succeeds_rewriteTextMessages {request : RouterRequest} {rewrite : Text → Rewrite σ Text} {P : Text → Prop}
    (h : ∀ t s, Succeeds (rewrite t) s ↔ P t) (s : σ) :
    Succeeds (rewriteTextMessages request rewrite) s ↔ ∀ t ∈ request.texts, P t := by
  have hmessage : ∀ m s, Succeeds (rewriteMessage rewrite m) s ↔ ∀ t, m.content = .text t → P t := by
    intro m s
    unfold rewriteMessage
    cases hm : m.content with
    | text t =>
      rw [succeeds_bind]
      constructor
      · rintro ⟨a, s', hx, -⟩ t' ht'
        cases ht'
        exact (h t s).mp ⟨_, hx⟩
      · intro hP
        obtain ⟨out, hx⟩ := (h t s).mpr (hP t rfl)
        exact ⟨out.1, out.2, hx, succeeds_pure _ _⟩
    | parts ps => exact ⟨fun _ t ht => (nomatch ht), fun _ => succeeds_pure _ _⟩
  have hmapM : ∀ (messages : List RouterMessage) (s : σ), Succeeds (messages.mapM (rewriteMessage rewrite)) s ↔
      ∀ m ∈ messages, ∀ t, m.content = .text t → P t := by
    intro messages
    induction messages with
    | nil => exact fun s => ⟨fun _ m hm => absurd hm List.not_mem_nil, fun _ => succeeds_pure _ _⟩
    | cons m messages ih =>
      intro s
      rw [List.mapM_cons, succeeds_bind, List.forall_mem_cons, ← hmessage m s]
      constructor
      · rintro ⟨a, s', hx, hrest⟩
        rw [succeeds_bind] at hrest
        obtain ⟨_, _, hrest, -⟩ := hrest
        exact ⟨⟨_, hx⟩, (ih s').mp ⟨_, hrest⟩⟩
      · rintro ⟨⟨out, hx⟩, hrest⟩
        refine ⟨out.1, out.2, hx, ?_⟩
        rw [succeeds_bind]
        obtain ⟨out', hx'⟩ := (ih out.2).mpr hrest
        exact ⟨out'.1, out'.2, hx', succeeds_pure _ _⟩
  unfold rewriteTextMessages
  rw [succeeds_bind]
  have htexts : (∀ t ∈ request.texts, P t) ↔ ∀ m ∈ request.messages, ∀ t, m.content = .text t → P t := by
    simp only [RouterRequest.mem_texts]
    exact ⟨fun h m hm t ht => h t ⟨m, hm, ht⟩, fun h t ⟨m, hm, ht⟩ => h m hm t ht⟩
  rw [htexts, ← hmapM _ s]
  constructor
  · rintro ⟨a, s', hx, -⟩
    exact ⟨_, hx⟩
  · rintro ⟨out, hx⟩
    exact ⟨out.1, out.2, hx, succeeds_pure _ _⟩

theorem run_bind_of_ok {x : Rewrite σ α} {g : α → Rewrite σ β} {s s' : σ} {a : α}
    (h : (x.run s).run = some (.ok (a, s'))) : ((x >>= g).run s).run = ((g a).run s').run := by
  rw [StateT.run_bind, ExceptT.run_bind, h]
  rfl

def Refines (x y : Rewrite σ α) : Prop := ∀ s out, (x.run s).run = some (.ok out) → (y.run s).run = some (.ok out)

theorem Refines.refl (x : Rewrite σ α) : Refines x x := fun _ _ h => h

theorem run_bind_of_panic {x : Rewrite σ α} {s : σ} (h : (x.run s).run = none) (g : α → Rewrite σ β) :
    ((x >>= g).run s).run = none := by
  rw [StateT.run_bind, ExceptT.run_bind, h]
  rfl

theorem Refines.bind {x y : Rewrite σ α} {g k : α → Rewrite σ β} (hx : Refines x y) (hg : ∀ a, Refines (g a) (k a)) :
    Refines (x >>= g) (y >>= k) := by
  intro s out h
  obtain ⟨a, s', hxs, -⟩ := succeeds_bind.mp ⟨out, h⟩
  rw [run_bind_of_ok hxs] at h
  rw [run_bind_of_ok (hx s _ hxs)]
  exact hg a s' out h

theorem Refines.rewriteTextMessages {f g : Text → Rewrite σ Text} (h : ∀ t, Refines (f t) (g t))
    (request : RouterRequest) : Refines (rewriteTextMessages request f) (rewriteTextMessages request g) := by
  have hmessage : ∀ m, Refines (rewriteMessage f m) (rewriteMessage g m) := by
    intro m
    unfold rewriteMessage
    cases m.content with
    | text t => exact (h t).bind fun _ => .refl _
    | parts ps => exact .refl _
  have hmapM : ∀ messages : List RouterMessage,
      Refines (messages.mapM (rewriteMessage f)) (messages.mapM (rewriteMessage g)) := by
    intro messages
    induction messages with
    | nil => exact .refl _
    | cons m messages ih =>
      rw [List.mapM_cons, List.mapM_cons]
      exact (hmessage m).bind fun _ => ih.bind fun _ => .refl _
  exact (hmapM request.messages).bind fun _ => .refl _

end Rewrite

end Fluent.Router
