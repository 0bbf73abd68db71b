import Mathlib.Tactic.IntervalCases
import Fluent.Library.Runs
import Fluent.Router.Ledger.StoreSteps

open Fluent.Library

namespace Fluent.Router.Ledger

open Fluent.Spacy (Text)

variable {X : Type} {host : Host X}

def Summarized (host : Host X) (text : Text) (node : ContentNode X) : Prop :=
  ∀ level, 1 ≤ level → level ≤ 4 → node.tier level ≠ [] →
    ∃ summarize, host.summarizer = some summarize ∧ summarize text = .ok (node.tier level)

def Tierless (node : ContentNode X) : Prop := ∀ level, 1 ≤ level → level ≤ 4 → node.tier level = []

def TiersFresh (host : Host X) (node : ContentNode X) : Prop := Summarized host (node.tier 0) node

theorem Tierless.fresh {node : ContentNode X} (h : Tierless node) : TiersFresh host node :=
  fun level h₁ h₄ hne => absurd (h level h₁ h₄) hne

theorem Summarized.congr {text : Text} {node node' : ContentNode X}
    (h : ∀ level, 1 ≤ level → level ≤ 4 → node'.tier level = node.tier level) :
    Summarized host text node' ↔ Summarized host text node := by
  unfold Summarized
  refine forall_congr' fun level => forall_congr' fun h₁ => forall_congr' fun h₄ => ?_
  rw [h level h₁ h₄]

theorem tierless_of_tiers {node node' : ContentNode X} (hnode : Tierless node)
    (h : ∀ level, 1 ≤ level → level ≤ 4 → node'.tier level = node.tier level) : Tierless node' :=
  fun level h₁ h₄ => (h level h₁ h₄).trans (hnode level h₁ h₄)

theorem tierless_newNode (id : NodeId) (sessionId requestId role content : Text) (accepted : Option Bool)
    (now : UInt64) : Tierless (ContentNode.newNode id sessionId requestId role content accepted now : ContentNode X) := by
  intro level h₁ h₄
  rw [ContentNode.newNode, (ContentNode.ensureLodEager_keeps _).2.2.2.2 level (by omega)]
  interval_cases level <;> rfl

namespace ContentNodeStore

variable {store : ContentNodeStore X}

theorem tierless_requestNode (sessionId requestId content : Text) (now : UInt64) :
    Tierless (store.requestNode host sessionId requestId content now) := by
  refine tierless_of_tiers (tierless_newNode store.nextId sessionId requestId "user".toList (host.scrub content).text
    none now) fun level h₁ h₄ => ?_
  rw [requestNode, (ContentNode.ensureLodEager_keeps _).2.2.2.2 level (by omega), host.guarded_tier _ (by omega)]

theorem tierless_contentNode {node : ContentNode X} (h : Tierless node) : Tierless (store.contentNode node host) := by
  refine tierless_of_tiers h fun level h₁ h₄ => ?_
  rw [contentNode, (ContentNode.ensureLodEager_keeps _).2.2.2.2 level (by omega), host.guarded_tier _ (by omega),
    (ContentNode.ensureLodEager_keeps _).2.2.2.2 level (by omega)]
  exact host.scrubLod0_tier node (by omega)

def Fresh (host : Host X) : ContentNodeStore X → Prop := AllNodes fun _ => TiersFresh host

def Tiering : StoreOp X → Prop
  | .recordRequest .. | .recordResult .. | .ensureLod .. | .collapseNode .. | .compactSession .. => True
  | .recordContentNode node => Tierless node
  | _ => False

def KeepsTiers (host : Host X) (store : ContentNodeStore X) : StoreOp X → Prop
  | .recordResult id _ _ content => (host.scrub content).text ≠ [] →
      ∀ node, store.nodes.lookup id = some node → Summarized host (host.scrub content).text node
  | .collapseNode id summary _ => ∀ node, store.nodes.lookup id = some node → Summarized host summary node
  | _ => True

theorem Tiering.ne_reopen {op : StoreOp X} (h : Tiering op) : op ≠ .reopen := by
  rintro rfl
  exact h

theorem fresh_replaceText {node : ContentNode X} (h : 6 ≤ node.lod.length) (text : Text) (lod : UInt8) :
    TiersFresh host (replaceText text lod node).ensureLodEager ↔ Summarized host text node := by
  obtain ⟨-, -, -, -, htier⟩ := ContentNode.ensureLodEager_keeps (replaceText text lod node)
  obtain ⟨htext, htiers⟩ := replaceText_tier h text lod
  unfold TiersFresh
  rw [htier 0 (by omega), htext]
  exact Summarized.congr fun level h₁ h₄ => (htier level (by omega)).trans (htiers level h₁ h₄)

theorem fresh_of_tiers {node node' : ContentNode X} (h : ∀ level ≤ 4, node'.tier level = node.tier level)
    (hnode : TiersFresh host node) : TiersFresh host node'.ensureLodEager := by
  have htier : ∀ level ≤ 4, node'.ensureLodEager.tier level = node.tier level := fun level hlevel =>
    ((ContentNode.ensureLodEager_keeps node').2.2.2.2 level (by omega)).trans (h level hlevel)
  unfold TiersFresh
  rw [htier 0 (by omega)]
  exact (Summarized.congr fun level _ h₄ => htier level h₄).mpr hnode

theorem fresh_cacheTier {node : ContentNode X} {summarize : Text → Except Text Text} {level : ℕ} {derived : Text}
    (h₁ : 1 ≤ level) (hsummarizer : host.summarizer = some summarize)
    (hderived : summarize (node.tier 0) = .ok derived) (hnode : TiersFresh host node) :
    TiersFresh host (cacheTier level derived node).ensureLodEager := by
  have hother : ∀ l ≤ 4, l ≠ level → (cacheTier level derived node).ensureLodEager.tier l = node.tier l := by
    intro l hl hne
    rw [(ContentNode.ensureLodEager_keeps _).2.2.2.2 l (by omega)]
    exact cacheTier_tier node hne.symm derived
  intro l hl₁ hl₄ hne
  rw [hother 0 (by omega) (by omega)]
  by_cases hl : l = level
  · subst hl
    refine ⟨summarize, hsummarizer, ?_⟩
    rw [(ContentNode.ensureLodEager_keeps _).2.2.2.2 l (by omega), cacheTier,
      ContentNode.tier_setTier_self _ (node.le_length_padLod (l + 1)), hderived]
  · rw [hother l hl₄ hl] at hne ⊢
    exact hnode l hl₁ hl₄ hne

theorem fresh_step_iff (hpad : Padded store) (h : Fresh host store) {op : StoreOp X} (hop : Tiering op) :
    Fresh host (store.step host op) ↔ KeepsTiers host store op := by
  cases op with
  | recordRequest sessionId requestId content now =>
    refine iff_of_true ?_ trivial
    rw [step, recordRequest_eq]
    exact (allNodes_insertPrepared (allNodes_allocate h) _).mpr (tierless_requestNode _ _ _ _).fresh
  | recordContentNode node =>
    refine iff_of_true ?_ trivial
    rw [step, recordContentNode_eq]
    exact (allNodes_insertPrepared (allNodes_allocated h node) _).mpr (tierless_contentNode hop).fresh
  | recordResult id accepted score content =>
    refine (allNodes_withNodeMut h _).trans ?_
    by_cases htext : (host.scrub content).text = []
    · refine iff_of_true (fun node hnode => ?_) fun hne => absurd htext hne
      rw [applyResult, if_pos htext]
      exact fresh_of_tiers (fun _ _ => rfl) (h id node hnode)
    · simp only [applyResult, if_neg htext]
      have hiff : ∀ node, store.nodes.lookup id = some node → (TiersFresh host (ContentNode.ensureLodEager
          (replaceText (host.scrub content).text 0 { node with accepted := some accepted, acceptanceScore := score })) ↔
            Summarized host (host.scrub content).text node) := by
        intro node hnode
        refine (fresh_replaceText ?_ _ 0).trans (Summarized.congr fun _ _ _ => rfl)
        exact hpad id node hnode
      exact ⟨fun hall _ node hnode => (hiff node hnode).mp (hall node hnode),
        fun hall node hnode => (hiff node hnode).mpr (hall htext node hnode)⟩
  | collapseNode id summary lod =>
    refine (allNodes_withNodeMut h _).trans (forall₂_congr fun node hnode => ?_)
    exact fresh_replaceText (hpad id node hnode) ..
  | ensureLod id level =>
    refine iff_of_true ?_ trivial
    rw [step, ensureLod_snd]
    split <;> rename_i hderived
    · exact h
    · obtain ⟨hlevel, node, summarize, hlookup, hsummarizer, htext⟩ := derivedTier_spec hderived
      refine (allNodes_withNodeMut h _).mpr fun node' hnode' => ?_
      obtain rfl := Option.some.inj (hlookup.symm.trans hnode')
      exact fresh_cacheTier hlevel.1 hsummarizer htext (h id node hlookup)
  | compactSession sessionId maxNodes =>
    refine iff_of_true ?_ trivial
    refine compactSession_induction (fun store id lod h => ?_) h sessionId maxNodes
    exact (allNodes_withNodeMut h _).mpr fun node hnode => fresh_of_tiers (fun _ _ => rfl) (h id node hnode)
  | insertNode | updateNodeMetadata | applyReview | ledgerRequest | ledgerResult | ledgerContentNode | reopen =>
    exact hop.elim

theorem tiers_fresh_iff (durable : Option (List LedgerRow)) (faults : List Bool) (ops : List (StoreOp X))
    (hops : ∀ op ∈ ops, Tiering op) :
    Along (step host) (Fresh host) { empty durable with faults := faults } ops ↔
      Respects (step host) (KeepsTiers host) { empty durable with faults := faults } ops := by
  exact along_iff_respects (fun _ _ h hop => padded_step h hop.ne_reopen) (fun _ _ hpad h hop => fresh_step_iff hpad h hop)
    (allNodes_empty durable faults) (allNodes_empty durable faults) (respects_of_forall hops)

def firstChar : Host Unit where
  unicode := .ascii
  toJson _ := []
  fromJson _ := none
  summarizer := some fun text => .ok (text.take 1)

def derivedOnce : List (StoreOp Unit) := [.recordRequest "s".toList "r".toList "ab".toList 0, .ensureLod 1 1]

theorem derived_once_fresh : Along (step firstChar) (Fresh firstChar) { empty none with faults := [] } derivedOnce :=
  (tiers_fresh_iff none [] derivedOnce (by
    intro op hop
    rcases List.mem_cons.mp hop with rfl | hop
    · trivial
    · rw [List.mem_singleton.mp hop]
      trivial)).mpr ⟨trivial, trivial, trivial⟩

def answeredLater : ContentNodeStore Unit :=
  (derivedOnce ++ [StoreOp.recordResult 1 true none "cd".toList]).foldl (step firstChar) (empty none)

theorem result_keeps_old_summary :
    (answeredLater.nodes.lookup 1).map (fun node => (node.tier 0, node.tier 1)) = some ("cd".toList, "a".toList) ∧
      ¬Fresh firstChar answeredLater := by
  have hanswer : firstChar.scrub "cd".toList = ⟨"cd".toList, false, none⟩ :=
    firstChar.scrub_harmless (by decide +kernel)
  have hnode : (answeredLater.nodes.lookup 1).map (fun node => (node.tier 0, node.tier 1)) =
      some ("cd".toList, "a".toList) := by
    unfold answeredLater derivedOnce
    simp only [List.cons_append, List.nil_append, List.foldl_cons, List.foldl_nil, step, recordRequest_eq,
      requestNode_harmless _ (by decide +kernel : Harmless "ab".toList), recordResult, hanswer]
    decide +kernel
  refine ⟨hnode, fun hfresh => ?_⟩
  obtain ⟨node, hlookup, htiers⟩ := Option.map_eq_some_iff.mp hnode
  obtain ⟨h0, h1⟩ := Prod.mk.inj htiers
  obtain ⟨summarize, hsome, hsummary⟩ := hfresh 1 node hlookup 1 (by decide) (by decide) (by
    rw [h1]
    decide)
  obtain rfl := Option.some.inj hsome
  rw [h0, h1] at hsummary
  exact absurd (Except.ok.inj hsummary) (by decide)

end ContentNodeStore

end Fluent.Router.Ledger
