import Fluent.Library.Ensures
import Fluent.Rdf.Boundaries
import Fluent.Rdf.Parser

namespace Fluent.Rdf

open Fluent.Library

def Token.isNode (tok : Token) : Bool := tok.kind = .blankNode ∨ tok.kind = .blankNodeOpen

def Token.isOpen (tok : Token) : Bool := tok.kind = .blankNodeOpen

def Token.label (tok : Token) : Bytes := tok.value.drop 2

def anonymousId (count : ℕ) : Bytes := ascii 'b' :: ofString (toString count)

namespace Lexer

def tokens (src : Bytes) (k : ℕ) : List Token := (List.range k).filterMap fun i => (answer src i).toOption

theorem tokens_succ (src : Bytes) (k : ℕ) : tokens src (k + 1) = tokens src k ++ (answer src k).toOption.toList := by
  rw [tokens, tokens, List.range_succ, List.filterMap_append, List.filterMap_cons, List.filterMap_nil]
  cases (answer src k).toOption <;> rfl

theorem tokens_ok {src : Bytes} {k : ℕ} {tok : Token} (h : answer src k = .ok tok) :
    tokens src (k + 1) = tokens src k ++ [tok] := by
  rw [tokens_succ, h]
  rfl

end Lexer

namespace Parser

def Grows (p p' : Parser) : Prop := p.nodes <+: p'.nodes

instance : IsPreorder Parser Grows where
  refl _ := List.prefix_rfl
  trans _ _ _ := List.IsPrefix.trans

structure At (src : Bytes) (k : ℕ) (p : Parser) : Prop where
  lex : p.lex = Lexer.before src (k + p.peeked.toList.length)
  peeked : ∀ t ∈ p.peeked, Lexer.answer src k = .ok t

def Known (p : Parser) (t : Term) : Prop :=
  match t with
  | .blankNode id place => (p.nodes[place]?).map Prod.snd = some id
  | _ => True

def KnownTriple (p : Parser) (t : Triple) : Prop := p.Known t.subject ∧ p.Known t.predicate ∧ p.Known t.object

theorem Known.grows {p p' : Parser} (hgrows : Grows p p') {t : Term} (h : p.Known t) : p'.Known t := by
  cases t with
  | blankNode id place =>
    obtain ⟨node, hnode, hid⟩ := Option.map_eq_some_iff.mp h
    obtain ⟨rest, hrest⟩ := hgrows
    refine Option.map_eq_some_iff.mpr ⟨node, ?_, hid⟩
    rw [← hrest, List.getElem?_append_left (List.getElem?_eq_some_iff.mp hnode).1, hnode]
  | iri value => trivial
  | literal literal => trivial

theorem KnownTriple.grows {p p' : Parser} (hgrows : Grows p p') {t : Triple} (h : p.KnownTriple t) : p'.KnownTriple t :=
  ⟨h.1.grows hgrows, h.2.1.grows hgrows, h.2.2.grows hgrows⟩

/-- The nodes are made of tokens of the text, the labels give the ids of theirs and the counter those of the others. -/
structure Sound (src : Bytes) (k : ℕ) (p : Parser) : Prop where
  named : ∀ node ∈ p.nodes, node.1 ∈ Lexer.tokens src k ∧
    (node.1.kind = .blankNode ∧ node.2 = node.1.label ∨ node.1.kind = .blankNodeOpen)
  counted : (p.nodes.filter fun node => node.1.isOpen).map Prod.snd =
    (List.range p.blankCounter).map fun c => anonymousId (c + 1)
  bounded : p.blankCounter ≤ (Lexer.tokens src k).countP Token.isOpen
  queued : ∀ t ∈ p.queue, p.KnownTriple t

structure Complete (src : Bytes) (k : ℕ) (p : Parser) : Prop where
  tokens : ∀ i < k, ∃ tok, Lexer.answer src i = .ok tok ∧ tok.kind ≠ .eof
  nodes : p.nodes.map Prod.fst = (Lexer.tokens src k).filter Token.isNode

def Reading (src : Bytes) (strict : Prop) (p : Parser) : Prop :=
  ∃ k, At src k p ∧ Sound src k p ∧ (strict → Complete src k p)

def Took (src : Bytes) (strict : Prop) (tok : Token) (p : Parser) : Prop :=
  ∃ k, At src (k + 1) p ∧ Sound src k p ∧ (strict → Complete src k p) ∧ Lexer.answer src k = .ok tok

def Peeked (src : Bytes) (strict : Prop) (tok : Token) (p : Parser) : Prop := Reading src strict p ∧ p.peeked = some tok

abbrev Keeps {α : Type} (src : Bytes) (P : Parser → Prop) (m : Parse α) (Q : α → Parser → Prop) : Prop :=
  Ensures Grows (Reading src False) P m Q

variable {src : Bytes} {strict : Prop} {k : ℕ} {p : Parser} {tok : Token}

theorem Sound.mono (h : Sound src k p) : Sound src (k + 1) p where
  named node hnode := by
    obtain ⟨hmem, hkind⟩ := h.named node hnode
    rw [Lexer.tokens_succ]
    exact ⟨List.mem_append_left _ hmem, hkind⟩
  counted := h.counted
  bounded := by
    rw [Lexer.tokens_succ, List.countP_append]
    exact h.bounded.trans (Nat.le_add_right _ _)
  queued := h.queued

theorem Sound.moved (h : Sound src k p) (lex : Lexer) (peeked : Option Token) :
    Sound src k { p with lex, peeked } := ⟨h.named, h.counted, h.bounded, h.queued⟩

theorem Complete.moved (h : Complete src k p) (lex : Lexer) (peeked : Option Token) :
    Complete src k { p with lex, peeked } := ⟨h.tokens, h.nodes⟩

theorem Reading.weaken (h : Reading src strict p) : Reading src False p := by
  obtain ⟨k, hat, hsound, -⟩ := h
  exact ⟨k, hat, hsound, False.elim⟩

theorem Took.weaken (h : Took src strict tok p) : Reading src False p := by
  obtain ⟨k, hat, hsound, -, -⟩ := h
  exact ⟨k + 1, hat, hsound.mono, False.elim⟩

theorem Complete.tokens_succ (h : Complete src k p) (hanswer : Lexer.answer src k = .ok tok) (heof : tok.kind ≠ .eof) :
    ∀ i < k + 1, ∃ tok, Lexer.answer src i = .ok tok ∧ tok.kind ≠ .eof := by
  intro i hi
  rcases Nat.lt_succ_iff_lt_or_eq.mp hi with hi | rfl
  · exact h.tokens i hi
  · exact ⟨tok, hanswer, heof⟩

theorem Took.plain (h : Took src strict tok p) (hnode : tok.isNode = false) (heof : tok.kind ≠ .eof) :
    Reading src strict p := by
  obtain ⟨k, hat, hsound, hcomplete, hanswer⟩ := h
  refine ⟨k + 1, hat, hsound.mono, fun hstrict => ⟨(hcomplete hstrict).tokens_succ hanswer heof, ?_⟩⟩
  rw [Lexer.tokens_ok hanswer, List.filter_append, (hcomplete hstrict).nodes, List.filter_cons_of_neg (by simp [hnode])]
  simp

theorem Reading.of_eq {p' : Parser} (h : Reading src strict p) (hlex : p'.lex = p.lex) (hpeeked : p'.peeked = p.peeked)
    (hcounter : p'.blankCounter = p.blankCounter) (hnodes : p'.nodes = p.nodes)
    (hqueue : ∀ t ∈ p'.queue, p.KnownTriple t) : Reading src strict p' := by
  obtain ⟨k, hat, hsound, hcomplete⟩ := h
  refine ⟨k, ⟨by rw [hlex, hpeeked]; exact hat.lex, by rw [hpeeked]; exact hat.peeked⟩, ⟨?_, ?_, ?_, fun t ht => ?_⟩,
    fun hstrict => ⟨(hcomplete hstrict).tokens, ?_⟩⟩
  · rw [hnodes]
    exact hsound.named
  · rw [hnodes, hcounter]
    exact hsound.counted
  · rw [hcounter]
    exact hsound.bounded
  · exact (hqueue t ht).grows (by rw [Grows, hnodes])
  · rw [hnodes]
    exact (hcomplete hstrict).nodes

theorem At.next (h : At src k p) (hp : p.peeked = none) :
    p.lex.nextToken = (Lexer.answer src k, Lexer.before src (k + 1)) := by
  have hlex : p.lex = Lexer.before src k := by simpa [hp] using h.lex
  rw [hlex, Lexer.before_succ]
  rfl

theorem failed (hsound : Sound src k p) (hp : p.peeked = none) :
    Reading src False { p with lex := Lexer.before src (k + 1) } :=
  ⟨k + 1, ⟨by simp [hp], by simp [hp]⟩, hsound.mono.moved _ _, False.elim⟩

theorem ensures_peekTok : Keeps src (Reading src strict) peekTok (Peeked src strict) := by
  rintro p ⟨k, hat, hsound, hcomplete⟩
  unfold peekTok
  cases hp : p.peeked with
  | some t => exact .ok List.prefix_rfl ⟨⟨k, hat, hsound, hcomplete⟩, hp⟩
  | none =>
    dsimp only
    rw [hat.next hp]
    cases hanswer : Lexer.answer src k with
    | ok t => exact .ok List.prefix_rfl ⟨⟨k, ⟨rfl, fun _ ht => Option.some.inj ht ▸ hanswer⟩, hsound.moved _ _,
        fun hstrict => (hcomplete hstrict).moved _ _⟩, rfl⟩
    | error e => exact .error List.prefix_rfl (failed hsound hp)

theorem ensures_consumeTok : Keeps src (Reading src strict) consumeTok (Took src strict) := by
  rintro p ⟨k, hat, hsound, hcomplete⟩
  unfold consumeTok
  cases hp : p.peeked with
  | some t => exact .ok List.prefix_rfl ⟨k, ⟨by simpa [hp] using hat.lex, by simp⟩, hsound.moved _ _,
      fun hstrict => (hcomplete hstrict).moved _ _, hat.peeked t hp⟩
  | none =>
    dsimp only
    rw [hat.next hp]
    cases hanswer : Lexer.answer src k with
    | ok t => exact .ok List.prefix_rfl ⟨k, ⟨rfl, by simp⟩, hsound.moved _ _,
        fun hstrict => (hcomplete hstrict).moved _ _, hanswer⟩
    | error e => exact .error List.prefix_rfl (failed hsound hp)

theorem ensures_take : Keeps src (Peeked src strict tok) consumeTok
    fun tok' p => tok' = tok ∧ Took src strict tok p := by
  rintro p ⟨hp, hpeeked⟩
  have htook := ensures_consumeTok p hp
  unfold consumeTok at htook ⊢
  rw [hpeeked] at htook ⊢
  cases htook with
  | ok hmore h => exact .ok hmore ⟨rfl, h⟩

theorem ensures_skip (hnode : tok.isNode = false) (heof : tok.kind ≠ .eof) :
    Keeps src (Peeked src strict tok) consumeTok
      fun tok' p => tok' = tok ∧ Reading src strict p :=
  ensures_take.imp (fun _ => id) fun _ _ h => ⟨h.1, h.2.plain hnode heof⟩

variable {α : Type} {P : Parser → Prop} {Q : α → Parser → Prop}

theorem ensures_fail {e : RdfError} (h : ∀ p, P p → Reading src False p) :
    Keeps src P (fail e) Q := fun p hp => .error List.prefix_rfl (h p hp)

theorem ensures_outOfFuel (h : ∀ p, P p → Reading src False p) :
    Keeps src P outOfFuel Q := fun p hp => .error List.prefix_rfl (h p hp)

theorem ensures_expect (kind : TokenKind) : Keeps src (Reading src strict) (expectTok kind)
    fun tok p => tok.kind = kind ∧ Took src strict tok p := by
  refine ensures_consumeTok.bind fun tok => .ite (fun _ => ensures_fail fun _ h => h.weaken) fun hkind => .pure fun p hp => ?_
  exact ⟨not_not.mp hkind, hp⟩

theorem isNode_of_kind {kind : TokenKind} (hkind : tok.kind = kind)
    (h : kind ≠ .blankNode ∧ kind ≠ .blankNodeOpen) : tok.isNode = false := by
  simp [Token.isNode, hkind, h]

theorem ensures_expect_plain {kind : TokenKind} (h : kind ≠ .blankNode ∧ kind ≠ .blankNodeOpen) (heof : kind ≠ .eof) :
    Keeps src (Reading src strict) (expectTok kind) fun _ p => Reading src strict p :=
  (ensures_expect kind).imp (fun _ => id) fun _ _ h' => h'.2.plain (isNode_of_kind h'.1 h) (h'.1 ▸ heof)

variable {id : Bytes}

theorem Complete.push (h : Complete src k p) (hanswer : Lexer.answer src k = .ok tok) (hnode : tok.isNode = true)
    (heof : tok.kind ≠ .eof) {p' : Parser} (hnodes : p'.nodes = p.nodes ++ [(tok, id)]) : Complete src (k + 1) p' := by
  refine ⟨h.tokens_succ hanswer heof, ?_⟩
  rw [hnodes, List.map_append, h.nodes, Lexer.tokens_ok hanswer, List.filter_append, List.filter_cons_of_pos hnode]
  rfl

theorem Sound.named_push (h : Sound src k p) (hanswer : Lexer.answer src k = .ok tok)
    (hkind : tok.kind = .blankNode ∧ id = tok.label ∨ tok.kind = .blankNodeOpen) :
    ∀ node ∈ p.nodes ++ [(tok, id)], node.1 ∈ Lexer.tokens src (k + 1) ∧
      (node.1.kind = .blankNode ∧ node.2 = node.1.label ∨ node.1.kind = .blankNodeOpen) := by
  intro node hnode
  rcases List.mem_append.mp hnode with hnode | hnode
  · exact h.mono.named node hnode
  · obtain rfl := List.mem_singleton.mp hnode
    rw [Lexer.tokens_ok hanswer]
    exact ⟨List.mem_append_right _ List.mem_cons_self, hkind⟩

theorem known_last {nodes : List (Token × Bytes)} (h : p.nodes = nodes ++ [(tok, id)]) :
    p.Known (.blankNode id nodes.length) := by
  change (p.nodes[nodes.length]?).map Prod.snd = some id
  rw [h, List.getElem?_append_right le_rfl, Nat.sub_self]
  rfl

theorem ensures_makeBlank (hkind : tok.kind = .blankNode) :
    Keeps src (Took src strict tok) (makeBlank tok (tok.value.drop 2))
      fun t p => Reading src strict p ∧ p.Known t := by
  rintro p ⟨k, hat, hsound, hcomplete, hanswer⟩
  have hgrows : Grows p { p with nodes := p.nodes ++ [(tok, tok.value.drop 2)] } := List.prefix_append _ _
  refine .ok hgrows ⟨⟨k + 1, ⟨hat.lex, hat.peeked⟩, ⟨hsound.named_push hanswer (.inl ⟨hkind, rfl⟩), ?_,
    hsound.mono.bounded, ?_⟩, fun hstrict => ?_⟩, known_last rfl⟩
  · rw [List.filter_append, List.filter_cons_of_neg (by simp [Token.isOpen, hkind]), List.filter_nil, List.append_nil]
    exact hsound.counted
  · exact fun t ht => (hsound.queued t ht).grows hgrows
  · exact (hcomplete hstrict).push hanswer (by simp [Token.isNode, hkind]) (by simp [hkind]) rfl

theorem ensures_freshBlank (hkind : tok.kind = .blankNodeOpen) :
    Keeps src (Took src strict tok) (freshBlank tok)
      fun t p => Reading src strict p ∧ p.Known t := by
  rintro p ⟨k, hat, hsound, hcomplete, hanswer⟩
  have hopen : tok.isOpen = true := by simp [Token.isOpen, hkind]
  have hgrows : Grows p { p with
      blankCounter := p.blankCounter + 1, nodes := p.nodes ++ [(tok, anonymousId (p.blankCounter + 1))] } :=
    List.prefix_append _ _
  refine .ok hgrows ⟨⟨k + 1, ⟨hat.lex, hat.peeked⟩, ⟨hsound.named_push hanswer (.inr hkind), ?_, ?_, ?_⟩,
    fun hstrict => ?_⟩, known_last rfl⟩
  · change ((p.nodes ++ [(tok, _)]).filter _).map _ = (List.range (p.blankCounter + 1)).map _
    rw [List.filter_append, List.map_append, hsound.counted, List.range_succ, List.map_append,
      List.filter_cons_of_pos (by exact hopen)]
    rfl
  · change p.blankCounter + 1 ≤ _
    rw [Lexer.tokens_ok hanswer, List.countP_append, List.countP_singleton, hopen]
    exact Nat.succ_le_succ hsound.bounded
  · exact fun t ht => (hsound.queued t ht).grows hgrows
  · exact (hcomplete hstrict).push hanswer (by simp [Token.isNode, hkind]) (by simp [hkind]) rfl

def KnownTerm (p : Parser) (t : Option Term) : Prop := ∀ t' ∈ t, p.Known t'

theorem knownTerm_some {t : Term} (h : p.Known t) : p.KnownTerm (some t) := fun _ ht => Option.some.inj ht ▸ h

theorem knownTerm_none : p.KnownTerm none := fun _ ht => nomatch ht

variable {F : Parser → Prop}

theorem ensures_inspect {f : Parser → α} (h : ∀ p, P p → Q (f p) p) :
    Keeps src P (inspect f) Q := fun p hp => .ok List.prefix_rfl (h p hp)

abbrev GivesTerm (src : Bytes) (strict : Prop) (m : Parse (Option Term)) : Prop :=
  Keeps src (Reading src strict) m fun t p => Reading src strict p ∧ p.KnownTerm t

theorem ensures_pureTerm {t : Term} (h : ∀ p : Parser, p.Known t) :
    GivesTerm src strict (pure (some t)) := .pure fun p hp => ⟨hp, knownTerm_some (h p)⟩

theorem ensures_datatypeIri : Keeps src (Took src strict tok) (datatypeIri tok)
    fun _ p => Reading src strict p := by
  unfold datatypeIri
  split
  · next hkind =>
    exact .pure fun _ h => h.plain (isNode_of_kind hkind (by decide)) (by simp [hkind])
  · next hkind =>
    exact ensures_inspect fun _ h => h.plain (isNode_of_kind hkind (by decide)) (by simp [hkind])
  · exact ensures_fail fun _ h => h.weaken

theorem ensures_literal (tok : Token) : GivesTerm src strict (parseLiteralTerm tok) := by
  refine .ite (fun _ => ensures_pureTerm fun _ => trivial) fun _ => ensures_peekTok.bind fun pk => .ite (fun hkind => ?_) fun _ =>
    .ite (fun hkind => ?_) fun _ => .pure fun p hp => ⟨hp.1, knownTerm_some trivial⟩
  · refine (ensures_skip (isNode_of_kind hkind (by decide)) (by simp [hkind])).bind fun _ => .pure fun p hp => ?_
    exact ⟨hp.2, knownTerm_some trivial⟩
  · refine (ensures_skip (isNode_of_kind hkind (by decide)) (by simp [hkind])).bind fun _ => ?_
    refine (ensures_consumeTok.imp (fun _ h => h.2) fun _ _ => id).bind fun dtTok => ?_
    exact ensures_datatypeIri.bind fun _ => ensures_pureTerm fun _ => trivial

theorem ensures_termAt {m : Parse (Option Term)} (hm : GivesTerm src strict m) (tok : Token) :
    Keeps src (Peeked src strict tok) (parseTermAt m tok)
      fun t p => Reading src strict p ∧ p.KnownTerm t := by
  have hskip {kind : TokenKind} (hkind : tok.kind = kind) (h : kind ≠ .blankNode ∧ kind ≠ .blankNodeOpen)
      (heof : kind ≠ .eof) : Keeps src (Peeked src strict tok)
        consumeTok fun _ p => Reading src strict p :=
    (ensures_skip (isNode_of_kind hkind h) (hkind ▸ heof)).imp (fun _ => id) fun _ _ h => h.2
  have hnone : Keeps src (Peeked src strict tok)
      (pure none : Parse (Option Term)) fun t p => Reading src strict p ∧ p.KnownTerm t :=
    .pure fun _ hp => ⟨hp.1, knownTerm_none⟩
  unfold parseTermAt
  split
  · next hkind => exact (hskip hkind (by decide) (by decide)).bind fun _ => ensures_pureTerm fun _ => trivial
  · next hkind =>
    exact (hskip hkind (by decide) (by decide)).bind fun _ =>
      ensures_inspect fun _ hp => ⟨hp, knownTerm_some trivial⟩
  · next hkind =>
    refine (ensures_take.imp (fun _ => id) fun _ _ h => h.2).bind fun _ => (ensures_makeBlank hkind).bind fun t => ?_
    exact .pure fun _ hp => ⟨hp.1, knownTerm_some hp.2⟩
  · exact hm.imp (fun _ hp => hp.1) fun _ _ => id
  · next hkind => exact (hskip hkind (by decide) (by decide)).bind fun _ => ensures_literal tok
  · next hkind =>
    refine .ite (fun _ => ?_) fun _ => hnone
    exact (hskip hkind (by decide) (by decide)).bind fun _ => ensures_pureTerm fun _ => trivial
  · exact hnone

theorem ensures_orEof (term : Option Term) :
    Keeps src (fun p => Reading src strict p ∧ p.KnownTerm term) (orEof term)
      fun t p => Reading src strict p ∧ p.Known t := by
  cases term with
  | none => exact ensures_fail fun _ h => h.1.weaken
  | some t => exact .pure fun _ hp => ⟨hp.1, hp.2 t rfl⟩

theorem ensures_insertTriple (pos : ℕ) (t : Triple) :
    Keeps src (fun p => Reading src strict p ∧ p.KnownTriple t) (insertTriple pos t)
      fun _ p => Reading src strict p := by
  rintro p ⟨hp, ht⟩
  refine .ok List.prefix_rfl (hp.of_eq rfl rfl rfl rfl fun t' ht' => ?_)
  obtain ⟨k, -, hsound, -⟩ := hp
  rcases List.mem_append.mp ht' with ht' | ht'
  · exact hsound.queued t' (List.mem_of_mem_take ht')
  · rcases List.mem_cons.mp ht' with rfl | ht'
    · exact ht
    · exact hsound.queued t' (List.mem_of_mem_drop ht')

theorem ensures_peekThen {m : Token → Parse α} (h : ∀ tok,
    Keeps src (Peeked src strict tok) (m tok) Q) :
    Keeps src (Reading src strict) (peekTok >>= m) Q := ensures_peekTok.bind h

structure Parses (src : Bytes) (strict : Prop) (fuel : ℕ) : Prop where
  term : GivesTerm src strict (parseTerm fuel)
  inlineBlankNode : GivesTerm src strict (parseInlineBlankNode fuel)
  verb : GivesTerm src strict (parseVerb fuel)
  predicateObjectList : ∀ subj, Keeps src (fun p => Reading src strict p ∧ p.Known subj)
    (collectPredicateObjectList fuel subj) fun _ p => Reading src strict p
  objects : ∀ subj verb, Keeps src
    (fun p => Reading src strict p ∧ p.Known subj ∧ p.Known verb) (collectObjects fuel subj verb)
    fun _ p => Reading src strict p

theorem known_stable (t : Term) : ∀ p p', Grows p p' → Known p t → Known p' t := fun _ _ hgrows h => h.grows hgrows

theorem ensures_separator {kind : TokenKind} (hkind : tok.kind = kind) (h : kind ≠ .blankNode ∧ kind ≠ .blankNodeOpen)
    (heof : kind ≠ .eof) (hF : ∀ p p', Grows p p' → F p → F p') :
    Keeps src (fun p => Peeked src strict tok p ∧ F p) consumeTok
      fun _ p => Reading src strict p ∧ F p :=
  ((ensures_skip (isNode_of_kind hkind h) (hkind ▸ heof)).frame hF).imp (fun _ => id) fun _ _ h => ⟨h.1.2, h.2⟩

theorem Parses.succ {fuel : ℕ} (h : Parses src strict fuel) : Parses src strict (fuel + 1) where
  term := by
    unfold parseTerm
    exact ensures_peekThen fun tok => ensures_termAt h.inlineBlankNode tok
  inlineBlankNode := by
    unfold parseInlineBlankNode
    refine (ensures_expect _).bind fun tok s hs => ?_
    refine (ensures_freshBlank hs.1).bind (fun t => ?_) s hs.2
    refine (ensures_peekTok.frame (known_stable t)).bind fun pk => ?_
    have hbody : Keeps src (fun p => Peeked src strict pk p ∧ p.Known t)
        (if pk.kind ≠ .blankNodeClose then collectPredicateObjectList fuel t else pure ())
        fun _ p => Reading src strict p ∧ p.Known t := by
      refine .ite (fun _ => ?_) fun _ => .pure fun _ hp => ⟨hp.1.1, hp.2⟩
      exact ((h.predicateObjectList t).frame (known_stable t)).imp (fun _ hp => ⟨⟨hp.1.1, hp.2⟩, hp.2⟩) fun _ _ => id
    refine hbody.bind fun _ => ((ensures_expect_plain (by decide) (by decide)).frame (known_stable t)).bind fun _ => ?_
    exact .pure fun _ hp => ⟨hp.1, knownTerm_some hp.2⟩
  verb := by
    unfold parseVerb
    refine ensures_peekThen fun tok => .ite (fun _ => .pure fun _ hp => ⟨hp.1, knownTerm_none⟩) fun _ =>
      .ite (fun hkind => ?_) fun _ => h.term.imp (fun _ hp => hp.1) fun _ _ => id
    refine (ensures_skip (isNode_of_kind hkind.1 (by decide)) (by simp [hkind.1])).bind fun _ => ?_
    exact .pure fun _ hp => ⟨hp.2, knownTerm_some trivial⟩
  predicateObjectList := by
    intro subj
    unfold collectPredicateObjectList
    refine (h.verb.frame (known_stable subj)).bind fun verb => ?_
    cases verb with
    | none => exact .pure fun _ hp => hp.1.1
    | some verb =>
      refine (((h.objects subj verb).frame (known_stable subj)).imp
        (fun _ hp => ⟨⟨hp.1.1, hp.2, hp.1.2 verb rfl⟩, hp.2⟩) fun _ _ => id).bind fun _ => ?_
      refine (ensures_peekTok.frame (known_stable subj)).bind fun pk => .ite (fun hkind => ?_) fun _ =>
        .pure fun _ hp => hp.1.1
      refine (ensures_separator hkind (by decide) (by decide) (known_stable subj)).bind fun _ => ?_
      refine (ensures_peekTok.frame (known_stable subj)).bind fun pk2 => .ite (fun _ => .pure fun _ hp => hp.1.1) fun _ => ?_
      exact (h.predicateObjectList subj).imp (fun _ hp => ⟨hp.1.1, hp.2⟩) fun _ _ => id
  objects := by
    intro subj verb
    have hstable : ∀ p p', Grows p p' → (Known p subj ∧ Known p verb) → Known p' subj ∧ Known p' verb :=
      fun _ _ hgrows hp => ⟨hp.1.grows hgrows, hp.2.grows hgrows⟩
    unfold collectObjects
    have hpos : Keeps src (fun p => Reading src strict p ∧ p.Known subj ∧ p.Known verb)
        (inspect fun p => p.queue.length) fun _ p => Reading src strict p ∧ p.Known subj ∧ p.Known verb :=
      ensures_inspect fun _ => id
    refine hpos.bind fun pos => (h.term.frame hstable).bind fun term => ?_
    refine ((ensures_orEof term).frame hstable).bind fun obj => ?_
    refine (((ensures_insertTriple pos ⟨subj, verb, obj⟩).frame hstable).imp
      (fun _ hp => ⟨⟨hp.1.1, hp.2.1, hp.2.2, hp.1.2⟩, hp.2⟩) fun _ _ => id).bind fun _ => ?_
    refine (ensures_peekTok.frame hstable).bind fun pk => .ite (fun hkind => ?_) fun _ => .pure fun _ hp => hp.1.1
    exact (ensures_separator hkind (by decide) (by decide) hstable).bind fun _ => h.objects subj verb

theorem parses (fuel : ℕ) : Parses src strict fuel := by
  induction fuel with
  | zero =>
    exact ⟨ensures_outOfFuel fun _ => Reading.weaken, ensures_outOfFuel fun _ => Reading.weaken,
      ensures_outOfFuel fun _ => Reading.weaken, fun _ => ensures_outOfFuel fun _ h => h.1.weaken,
      fun _ _ => ensures_outOfFuel fun _ h => h.1.weaken⟩
  | succ fuel ih => exact ih.succ

theorem ensures_statement (fuel : ℕ) : Keeps src (Reading src strict) (parseStatement fuel)
    fun _ p => Reading src strict p := by
  refine (parses fuel).term.bind fun term => (ensures_orEof term).bind fun subj => ?_
  refine ((parses fuel).predicateObjectList subj).bind fun _ => ensures_peekThen fun pk => .ite (fun hkind => ?_) fun _ =>
    .pure fun _ hp => hp.1
  exact (ensures_skip (isNode_of_kind hkind (by decide)) (by simp [hkind])).bind fun _ => .pure fun _ hp => hp.2

theorem ensures_update {f : Parser → Parser} (hlex : ∀ p, (f p).lex = p.lex) (hpeeked : ∀ p, (f p).peeked = p.peeked)
    (hcounter : ∀ p, (f p).blankCounter = p.blankCounter) (hnodes : ∀ p, (f p).nodes = p.nodes)
    (hqueue : ∀ p, (f p).queue = p.queue) :
    Keeps src (Reading src strict) (update f) fun _ p => Reading src strict p := by
  intro p hp
  refine .ok (by rw [Grows, hnodes]) (hp.of_eq (hlex p) (hpeeked p) (hcounter p) (hnodes p) ?_)
  obtain ⟨k, -, hsound, -⟩ := hp
  rw [hqueue]
  exact hsound.queued

theorem ensures_prefix : Keeps src (Reading src strict) parsePrefix
    fun _ p => Reading src strict p := by
  refine ensures_consumeTok.bind fun nameTok => .ite (fun _ => ensures_fail fun _ h => h.weaken) fun hkind => ?_
  have hname : nameTok.kind = .prefixedName ∨ nameTok.kind = .keyword := by tauto
  have hplain : nameTok.isNode = false ∧ nameTok.kind ≠ .eof := by
    rcases hname with hkind | hkind <;> simp [Token.isNode, hkind]
  refine ((ensures_expect_plain (by decide) (by decide)).imp (fun _ h => h.plain hplain.1 hplain.2)
    fun _ _ => id).bind fun iriTok => (ensures_expect_plain (by decide) (by decide)).bind fun _ => ?_
  split
  · exact ensures_fail fun _ h => h.weaken
  · exact ensures_update (fun _ => rfl) (fun _ => rfl) (fun _ => rfl) (fun _ => rfl) fun _ => rfl

theorem ensures_base : Keeps src (Reading src strict) parseBase
    fun _ p => Reading src strict p := by
  refine (ensures_expect_plain (by decide) (by decide)).bind fun iriTok =>
    (ensures_expect_plain (by decide) (by decide)).bind fun _ => ?_
  exact ensures_update (fun _ => rfl) (fun _ => rfl) (fun _ => rfl) (fun _ => rfl) fun _ => rfl

theorem ensures_directive (kw : Token) : Keeps src (Reading src strict) (parseDirective kw)
    fun _ p => Reading src strict p :=
  .ite (fun _ => ensures_prefix) fun _ => .ite (fun _ => ensures_base) fun _ => ensures_fail fun _ h => h.weaken

def GivesTriple (src : Bytes) (strict : Prop) (t : Option Triple) (p : Parser) : Prop :=
  Reading src strict p ∧ (∀ t' ∈ t, p.KnownTriple t') ∧ (t = none → ∃ tok, p.peeked = some tok ∧ tok.kind = .eof)

theorem ensures_popFront : Keeps src (Reading src strict) popFront
    fun t p => Reading src strict p ∧ ∀ t' ∈ t, p.KnownTriple t' := by
  intro p hp
  refine .ok List.prefix_rfl ⟨hp.of_eq rfl rfl rfl rfl fun t ht => ?_, fun t ht => ?_⟩
  · obtain ⟨k, -, hsound, -⟩ := hp
    exact hsound.queued t (List.mem_of_mem_tail ht)
  · obtain ⟨k, -, hsound, -⟩ := hp
    exact hsound.queued t (List.mem_of_mem_head? ht)

theorem ensures_nextTriple (fuel : ℕ) :
    Keeps src (Reading src strict) (nextTriple fuel) (GivesTriple src strict) := by
  induction fuel with
  | zero => exact ensures_outOfFuel fun _ => Reading.weaken
  | succ fuel ih =>
    refine ensures_popFront.bind fun popped => ?_
    cases popped with
    | some t => exact .pure fun _ hp => ⟨hp.1, hp.2, nofun⟩
    | none =>
      refine (ensures_peekTok.imp (fun _ hp => hp.1) fun _ _ => id).bind fun tok => ?_
      unfold advance
      split
      · next hkind => exact .pure fun _ hp => ⟨hp.1, nofun, fun _ => ⟨tok, hp.2, hkind⟩⟩
      · next hkind =>
        refine ((ensures_skip (isNode_of_kind hkind (by decide)) (by simp [hkind])).imp (fun _ => id)
          fun _ _ h => h.2).bind fun kw => (ensures_directive kw).bind fun _ => ih
      · exact ((ensures_statement fuel).imp (fun _ hp => hp.1) fun _ _ => id).bind fun _ => ih

end Parser

end Fluent.Rdf
