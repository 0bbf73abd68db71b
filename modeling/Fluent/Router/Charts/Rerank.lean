import Mathlib.Data.List.Nodup
import Mathlib.Data.List.Perm.Basic
import Fluent.Router.Charts.Schema

namespace Fluent.Router.Charts

open Fluent.Spacy (Text)

variable {N F : Type}

def rankedNames (value : Json N) : Option (List Text) :=
  match value with
  | .array items => some (items.filterMap Json.asStr)
  | .object _ => ((value.get "ranking".toList).bind Json.asArray).map (·.filterMap Json.asStr)
  | _ => none

def parseRerankOutput (parseTyped : Text → Option (Json N)) (raw : Text) : Option (List Text) := do
  let value ← parseTyped raw
  let names ← rankedNames value
  if names.isEmpty then none else some names

def scoreOf (candidates : List (Text × F)) (name : Text) : Option F :=
  (candidates.find? (·.1 = name)).map Prod.snd

def pushNamed (candidates : List (Text × F)) (names : List Text) : List (Text × F) :=
  names.filterMap fun name => (scoreOf candidates name).map (name, ·)

def appendOmitted (candidates reordered : List (Text × F)) : List (Text × F) :=
  candidates.foldl (fun reordered c => if reordered.any (·.1 = c.1) then reordered else reordered ++ [c]) reordered

def reorder (candidates : List (Text × F)) (names : List Text) : List (Text × F) :=
  let reordered := appendOmitted candidates (pushNamed candidates names)
  if reordered.isEmpty then candidates else reordered

def rerank (parseTyped : Text → Option (Json N)) (response : Option Text) (candidates : List (Text × F)) :
    List (Text × F) :=
  ((response.bind (parseRerankOutput parseTyped)).map (reorder candidates)).getD candidates

def mentioned (parseTyped : Text → Option (Json N)) (response : Option Text) : List Text :=
  (response.bind (parseRerankOutput parseTyped)).getD []

def Reranks (candidates : List (Text × F)) (names : List Text) (out : List (Text × F)) : Prop :=
  out.Perm candidates ∧ ∃ named rest, out = named ++ rest ∧ (∀ c ∈ named, c.1 ∈ names) ∧ (∀ c ∈ rest, c.1 ∉ names) ∧
    named.Pairwise fun a b => names.idxOf a.1 < names.idxOf b.1

section Reorder

variable {candidates : List (Text × F)} {names : List Text}

theorem scoreOf_eq_some (hdistinct : (candidates.map Prod.fst).Nodup) {name : Text} {score : F} :
    scoreOf candidates name = some score ↔ (name, score) ∈ candidates := by
  unfold scoreOf
  induction candidates with
  | nil => simp
  | cons c candidates ih =>
    obtain ⟨hnew, hdistinct'⟩ := List.nodup_cons.mp hdistinct
    by_cases hc : c.1 = name
    · subst hc
      have hout : (c.1, score) ∉ candidates := fun h => hnew (List.mem_map.mpr ⟨_, h, rfl⟩)
      simp [hout, Prod.ext_iff, eq_comm]
    · have hne : (name, score) ≠ c := fun h => hc (h ▸ rfl)
      simp [hc, hne, ih hdistinct']

theorem mem_pushNamed (hdistinct : (candidates.map Prod.fst).Nodup) {c : Text × F} :
    c ∈ pushNamed candidates names ↔ c.1 ∈ names ∧ c ∈ candidates := by
  obtain ⟨name, score⟩ := c
  simp only [pushNamed, List.mem_filterMap, Option.map_eq_some_iff, Prod.mk.injEq]
  constructor
  · rintro ⟨_, hname, _, hscore, rfl, rfl⟩
    exact ⟨hname, (scoreOf_eq_some hdistinct).mp hscore⟩
  · rintro ⟨hname, hmem⟩
    exact ⟨name, hname, score, (scoreOf_eq_some hdistinct).mpr hmem, rfl, rfl⟩

theorem pushNamed_names : (pushNamed candidates names).map Prod.fst = names.filter (· ∈ candidates.map Prod.fst) := by
  induction names with
  | nil => rfl
  | cons name names ih =>
    have hknown : (scoreOf candidates name).isSome ↔ name ∈ candidates.map Prod.fst := by
      simp [scoreOf, List.find?_isSome]
    cases hs : scoreOf candidates name with
    | none =>
      have hout : name ∉ candidates.map Prod.fst := fun h => nomatch (hs ▸ hknown.mpr h : (none : Option F).isSome = true)
      rw [List.filter_cons_of_neg (by simpa using hout), ← ih]
      simp [pushNamed, hs]
    | some score =>
      have hin : name ∈ candidates.map Prod.fst := hknown.mp (hs ▸ rfl)
      rw [List.filter_cons_of_pos (by simpa using hin), ← ih]
      simp [pushNamed, hs]

theorem appendOmitted_eq (hdistinct : (candidates.map Prod.fst).Nodup) (reordered : List (Text × F)) :
    appendOmitted candidates reordered = reordered ++ candidates.filter (·.1 ∉ reordered.map Prod.fst) := by
  unfold appendOmitted
  induction candidates generalizing reordered with
  | nil => simp
  | cons c candidates ih =>
    obtain ⟨hnew, hdistinct'⟩ := List.nodup_cons.mp hdistinct
    have hany : reordered.any (·.1 = c.1) = true ↔ c.1 ∈ reordered.map Prod.fst := by
      simp [List.any_eq_true]
    rw [List.foldl_cons, ih hdistinct']
    by_cases hc : c.1 ∈ reordered.map Prod.fst
    · rw [if_pos (hany.mpr hc), List.filter_cons_of_neg (by simpa using hc)]
    · rw [if_neg (mt hany.mp hc), List.filter_cons_of_pos (by simpa using hc), List.append_assoc]
      refine congrArg (reordered ++ c :: ·) (List.filter_congr fun d hd => ?_)
      have hne : d.1 ≠ c.1 := fun h => hnew (h ▸ List.mem_map_of_mem hd)
      simp [hne]

theorem reorder_eq (hdistinct : (candidates.map Prod.fst).Nodup) : reorder candidates names =
    pushNamed candidates names ++ candidates.filter (·.1 ∉ (pushNamed candidates names).map Prod.fst) := by
  unfold reorder
  dsimp only
  rw [appendOmitted_eq hdistinct]
  split
  · next hempty =>
    obtain ⟨hnamed, -⟩ := List.append_eq_nil_iff.mp (List.isEmpty_iff.mp hempty)
    rw [hnamed]
    simp
  · rfl

theorem pairwise_idxOf_filter {p : Text → Bool} (h : (names.filter p).Nodup) :
    (names.filter p).Pairwise fun a b => names.idxOf a < names.idxOf b := by
  induction names with
  | nil => exact .nil
  | cons x names ih =>
    have hshift : ∀ {l : List Text}, x ∉ l → l.Pairwise (fun a b => names.idxOf a < names.idxOf b) →
        l.Pairwise fun a b => (x :: names).idxOf a < (x :: names).idxOf b := by
      intro l hx hl
      refine hl.imp_of_mem fun {a b} ha hb hlt => ?_
      have hxa : x ≠ a := fun e => hx (e.symm ▸ ha)
      have hxb : x ≠ b := fun e => hx (e.symm ▸ hb)
      rw [List.idxOf_cons_ne _ hxa, List.idxOf_cons_ne _ hxb]
      exact Nat.succ_lt_succ hlt
    by_cases hx : p x = true
    · rw [List.filter_cons_of_pos hx] at h ⊢
      obtain ⟨hout, hnodup⟩ := List.nodup_cons.mp h
      refine List.pairwise_cons.mpr ⟨fun b hb => ?_, hshift hout (ih hnodup)⟩
      have hxb : x ≠ b := fun e => hout (e.symm ▸ hb)
      rw [List.idxOf_cons_self, List.idxOf_cons_ne _ hxb]
      exact Nat.succ_pos _
    · rw [List.filter_cons_of_neg hx] at h ⊢
      exact hshift (fun hmem => hx (List.mem_filter.mp hmem).2) (ih h)

theorem reranks_reorder_iff (hdistinct : (candidates.map Prod.fst).Nodup) :
    Reranks candidates names (reorder candidates names) ↔ (names.filter (· ∈ candidates.map Prod.fst)).Nodup := by
  rw [reorder_eq hdistinct, ← pushNamed_names]
  have hmem : ∀ c ∈ candidates, c.1 ∈ (pushNamed candidates names).map Prod.fst ↔ c.1 ∈ names := by
    intro c hc
    rw [pushNamed_names]
    simpa using fun _ => ⟨c.2, hc⟩
  constructor
  · rintro ⟨hperm, -⟩
    have hnodup := (hperm.map Prod.fst).nodup_iff.mpr hdistinct
    rw [List.map_append] at hnodup
    exact hnodup.of_append_left
  · intro hnodup
    refine ⟨?_, _, _, rfl, fun c hc => ((mem_pushNamed hdistinct).mp hc).1, fun c hc => ?_, ?_⟩
    · refine (List.perm_ext_iff_of_nodup ?_ hdistinct.of_map).mpr fun c => ?_
      · refine hnodup.of_map.append (hdistinct.of_map.filter _) fun c hnamed hrest => ?_
        exact (of_decide_eq_true (List.mem_filter.mp hrest).2) (List.mem_map_of_mem hnamed)
      · rw [List.mem_append, mem_pushNamed hdistinct, List.mem_filter, decide_eq_true_eq]
        constructor
        · rintro (h | h)
          · exact h.2
          · exact h.1
        · intro hc
          by_cases hname : c.1 ∈ names
          · exact .inl ⟨hname, hc⟩
          · exact .inr ⟨hc, mt (hmem c hc).mp hname⟩
    · obtain ⟨hc, hout⟩ := List.mem_filter.mp hc
      exact mt (hmem c hc).mpr (of_decide_eq_true hout)
    · rw [pushNamed_names] at hnodup
      have hpairs := pairwise_idxOf_filter hnodup
      rw [← pushNamed_names, List.pairwise_map] at hpairs
      exact hpairs

end Reorder

theorem rerank_perm_iff (parseTyped : Text → Option (Json N)) (response : Option Text) (candidates : List (Text × F))
    (hdistinct : (candidates.map Prod.fst).Nodup) :
    Reranks candidates (mentioned parseTyped response) (rerank parseTyped response candidates) ↔
      ((mentioned parseTyped response).filter (· ∈ candidates.map Prod.fst)).Nodup := by
  unfold rerank mentioned
  cases response.bind (parseRerankOutput parseTyped) with
  | none =>
    refine iff_of_true ⟨.refl _, [], candidates, rfl, ?_⟩ List.nodup_nil
    simp
  | some names => exact reranks_reorder_iff hdistinct

def rankedPair : List (Text × ℕ) := [(['a'], 1), (['b'], 2)]

theorem rerank_perm_swapped : Reranks rankedPair [['b'], ['x'], ['a']]
    (rerank (fun _ => some (.array [.string ['b'], .string ['x'], .bool true, .string ['a']] : Json Unit)) (some [])
      rankedPair) :=
  (rerank_perm_iff (fun _ => some (.array [.string ['b'], .string ['x'], .bool true, .string ['a']] : Json Unit))
    (some []) rankedPair (by decide)).mpr (by decide)

theorem rerank_repeats_named : rerank
    (fun _ => some (.array [.string ['b'], .string ['b']] : Json Unit)) (some []) rankedPair =
      [(['b'], 2), (['b'], 2), (['a'], 1)] := by
  decide

end Fluent.Router.Charts
