import Fluent.Llm.AnonymizeMap
import Fluent.Llm.PiiPatterns
import Fluent.Router.Request

open Fluent.Library

namespace Fluent.Router

open Fluent.Spacy (Text)
open Fluent.Llm (anonymize buildAnonymizeMap aligned buildAnonymizeMap_isSome)

namespace PiiAnonymize

section Transform

variable (U : Unicode) (isAlphanumeric : Char → Bool)

def rewrite (content : Text) : Rewrite (HashMap Text Text) Text := fun map =>
  let anonymized := anonymize U content
  (buildAnonymizeMap isAlphanumeric content anonymized map).map fun map' => .ok (anonymized, map')

def insertMap (out : RouterRequest × HashMap Text Text) : RouterRequest :=
  let metadata := out.1.metadata
  { out.1 with metadata := { metadata with anonymizeMap := insertStringMap metadata.anonymizeMap out.2 } }

def transform (request : RouterRequest) : Option (Except TransformError RouterRequest) :=
  (((rewriteTextMessages request (rewrite U isAlphanumeric)).run ∅).run).map fun out => out.map insertMap

end Transform

theorem succeeds_rewrite (U : Unicode) (f : Char → Bool) (t : Text) (map : HashMap Text Text) :
    Rewrite.Succeeds (rewrite U f t) map ↔ aligned f t (anonymize U t) = true := by
  rw [← buildAnonymizeMap_isSome f t (anonymize U t) map]
  unfold Rewrite.Succeeds
  have hrun : ((rewrite U f t).run map).run =
      (buildAnonymizeMap f t (anonymize U t) map).map fun map' => .ok (anonymize U t, map') := rfl
  rw [hrun]
  cases buildAnonymizeMap f t (anonymize U t) map with
  | none => exact ⟨fun ⟨_, h⟩ => (nomatch h), fun h => (nomatch h)⟩
  | some map' => exact ⟨fun _ => rfl, fun _ => ⟨_, rfl⟩⟩

theorem transform_ok_iff (U : Unicode) (f : Char → Bool) (request : RouterRequest) :
    (∃ out, transform U f request = some (.ok out)) ↔
      ∀ t ∈ request.texts, aligned f t (anonymize U t) = true := by
  rw [← Rewrite.succeeds_rewriteTextMessages (succeeds_rewrite U f) ∅]
  unfold transform Rewrite.Succeeds
  cases ((rewriteTextMessages request (rewrite U f)).run ∅).run with
  | none => exact ⟨fun ⟨_, h⟩ => (nomatch h), fun ⟨_, h⟩ => (nomatch h)⟩
  | some r =>
    cases r with
    | error e => exact ⟨fun ⟨_, h⟩ => (nomatch h), fun ⟨_, h⟩ => (nomatch h)⟩
    | ok out => exact ⟨fun _ => ⟨_, rfl⟩, fun _ => ⟨_, rfl⟩⟩

theorem build_anonymize_map_ends_iff (U : Unicode) (f : Char → Bool) :
    (∀ (original anonymized : Text) (map : HashMap Text Text),
      (buildAnonymizeMap f original anonymized map).isSome = true ↔ aligned f original anonymized = true) ∧
    ∀ request : RouterRequest, (∃ out, transform U f request = some (.ok out)) ↔
      ∀ t ∈ request.texts, aligned f t (anonymize U t) = true := by
  refine ⟨fun original anonymized map => ?_, transform_ok_iff U f⟩
  rw [buildAnonymizeMap_isSome]

theorem build_anonymize_map_panics :
    anonymize .ascii "a@b.cc é".toList = "[EMAIL] é".toList ∧
      (buildAnonymizeMap Char.isAlphanum "a@b.cc é".toList "[EMAIL] é".toList ∅).isNone = true := by
  decide +kernel

end PiiAnonymize

end Fluent.Router
