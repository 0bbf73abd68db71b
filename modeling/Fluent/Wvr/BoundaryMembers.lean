import Mathlib.Data.List.Forall2
import Fluent.Wvr.BoundaryTokens

namespace Fluent.Wvr

open Fluent.Library Fluent.Library.JsonText
open Fluent.Spacy (Text isWhitespace)

structure Member where
  before : List Space
  key : List RawChar
  afterKey : List Space
  beforeValue : List Space
  value : Scalar
  after : List Space

namespace Member

variable (m : Member)

def name : Text := m.key.map Subtype.val

def clipped : Text := m.name.dropLast

def label : Label .curly := ⟨m.key.map .raw, m.afterKey, m.beforeValue⟩

theorem renderItems_label : renderItems m.label.name = m.name := by
  rw [label, renderItems, List.flatMap_map, name]
  exact List.map_eq_flatMap.symm

end Member

def memberEntries (m : Member) : List Member → Entries .curly
  | [] => .last m.before m.label (.scalar m.value) m.after
  | m' :: ms => .cons m.before m.label (.scalar m.value) m.after (memberEntries m' ms)

structure FlatObject where
  before : List Space
  first : Member
  rest : List Member
  after : List Space

namespace FlatObject

variable (o : FlatObject)

def members : List Member := o.first :: o.rest

def document : Document := ⟨o.before, .filled .curly (memberEntries o.first o.rest), o.after⟩

end FlatObject

def fieldsOf (fieldNames : List Text) (nameOf : Member → Text) (ms : List Member) : List (Text × Text) :=
  (ms.filter fun m => nameOf m ∈ fieldNames).map fun m => (nameOf m, m.value.render)

theorem fieldsOf_cons (fieldNames : List Text) (nameOf : Member → Text) (m : Member) (ms : List Member) :
    fieldsOf fieldNames nameOf (m :: ms) =
      (if nameOf m ∈ fieldNames then [(nameOf m, m.value.render)] else []) ++ fieldsOf fieldNames nameOf ms := by
  rw [fieldsOf, List.filter_cons]
  split_ifs with hm <;> simp_all [fieldsOf]

def Skipped (c : Char) : Prop := c ∉ ['\'', '"', '{', '[', '}', ']', ',']

instance (c : Char) : Decidable (Skipped c) := inferInstanceAs (Decidable (c ∉ _))

theorem captureFrom_skipped {a : Text} (ha : ∀ c ∈ a, Skipped c) (t : Text) :
    captureFrom 0 none false (a ++ t) = captureFrom 0 none false t := by
  induction a with
  | nil => rfl
  | cons c a ih =>
    obtain ⟨hc, ha⟩ := List.forall_mem_cons.mp ha
    simp only [Skipped, List.mem_cons, List.not_mem_nil, or_false, not_or] at hc
    simp [captureFrom, hc, ih ha]

theorem captureFrom_item (i : Item) (t : Text) :
    captureFrom 0 (some '"') false (i.render ++ t) = captureFrom 0 (some '"') false t := by
  cases i with
  | raw c => simp [Item.render, captureFrom, c.2.2.1, c.2.2.2]
  | short e => simp [Item.render, captureFrom]
  | unicode a b c d => simp [Item.render, captureFrom, a.char_plain, b.char_plain, c.char_plain, d.char_plain]

theorem captureFrom_quoted (s : List Item) (t : Text) :
    captureFrom 0 none false (quoted (renderItems s) ++ t) = captureFrom 0 none false t := by
  have hitems : captureFrom 0 (some '"') false (renderItems s ++ '"' :: t) = captureFrom 0 none false t := by
    induction s with
    | nil => rfl
    | cons i s ih => rw [renderItems, List.flatMap_cons, List.append_assoc, captureFrom_item, ← renderItems, ih]
  rw [← hitems]
  simp [quoted, captureFrom]

theorem captureFrom_scalar (s : Scalar) (t : Text) :
    captureFrom 0 none false (s.render ++ t) = captureFrom 0 none false t := by
  cases s with
  | null => exact captureFrom_skipped (by decide) t
  | bool b => exact captureFrom_skipped (by cases b <;> decide) t
  | number n =>
    have hskipped : ∀ c ∈ numberChars, Skipped c := by decide
    exact captureFrom_skipped (fun c hc => hskipped c (n.render_subset hc)) t
  | string s => exact captureFrom_quoted s t

theorem captureFrom_spaces (ws : List Space) (t : Text) :
    captureFrom 0 none false (spaces ws ++ t) = captureFrom 0 none false t := by
  refine captureFrom_skipped (fun c hc => ?_) t
  obtain ⟨w, -, rfl⟩ := List.mem_map.mp hc
  cases w <;> decide

theorem scalar_ends_solid (s : Scalar) : ∃ a z, s.render = a ++ [z] ∧ isWhitespace z = false := by
  cases s with
  | null => exact ⟨['n', 'u', 'l'], 'l', rfl, by decide⟩
  | bool b =>
    cases b with
    | true => exact ⟨['t', 'r', 'u'], 'e', rfl, by decide⟩
    | false => exact ⟨['f', 'a', 'l', 's'], 'e', rfl, by decide⟩
  | number n =>
    have hdigit : ∀ d : Fin 10, isWhitespace (digit d) = false := by decide
    obtain ⟨a, d, h⟩ := n.render_eq_concat
    exact ⟨a, digit d, h, hdigit d⟩
  | string s => exact ⟨'"' :: renderItems s, '"', rfl, by decide⟩

theorem scalar_starts_solid (s : Scalar) : ∃ c a, s.render = c :: a ∧ isWhitespace c = false := by
  have hsolid : ∀ c ∈ scalarStarts, isWhitespace c = false := by decide
  obtain ⟨c, a, h, hc⟩ := s.render_eq_cons
  exact ⟨c, a, h, hsolid c hc⟩

theorem isWhitespace_spaces {ws : List Space} {c : Char} (hc : c ∈ spaces ws) : isWhitespace c = true := by
  obtain ⟨w, -, rfl⟩ := List.mem_map.mp hc
  cases w <;> decide

theorem trim_spaces (ws ws' : List Space) (s : Scalar) :
    Text.trim (spaces ws ++ (s.render ++ spaces ws')) = s.render := by
  obtain ⟨c, a, hfirst, hc⟩ := scalar_starts_solid s
  obtain ⟨a', z, hlast, hz⟩ := scalar_ends_solid s
  have hfront : (spaces ws ++ (s.render ++ spaces ws')).dropWhile isWhitespace = s.render ++ spaces ws' := by
    rw [List.dropWhile_append_of_pos fun c hc => isWhitespace_spaces hc, hfirst]
    exact List.dropWhile_cons_of_neg (by simp [hc])
  have hback : (s.render ++ spaces ws').reverse.dropWhile isWhitespace = s.render.reverse := by
    rw [List.reverse_append, List.dropWhile_append_of_pos fun c hc => isWhitespace_spaces (List.mem_reverse.mp hc),
      hlast, List.reverse_append]
    exact List.dropWhile_cons_of_neg (by simp [hz])
  rw [Text.trim, hfront, hback, List.reverse_reverse]

theorem pushMember_scalar (members : List (Text × Text)) (key : Text) (ws ws' : List Space) (s : Scalar) {u : Text}
    (hu : captureValue u = u) :
    pushMember members key (spaces ws ++ (s.render ++ (spaces ws' ++ u))) = members ++ [(key, s.render)] := by
  have hcapture : captureValue (spaces ws ++ (s.render ++ (spaces ws' ++ u))) = u := by
    rw [captureValue, captureFrom_spaces, captureFrom_scalar, captureFrom_spaces, ← captureValue, hu]
  rw [pushMember, hcapture]
  simp only [← List.append_assoc, between_append]
  rw [List.append_assoc, trim_spaces]

/-! A key is recorded without its last character. -/

def keyEnd (ke : Text) : Text → Text → Text
  | [], _ => ke
  | c :: k, u => keyEnd (c :: (k ++ u)) k u

theorem keyEnd_concat (ke : Text) (k : Text) (z : Char) (u : Text) : keyEnd ke (k ++ [z]) u = z :: u := by
  induction k generalizing ke with
  | nil => rfl
  | cons c k ih => exact ih _

theorem between_keyEnd (k u : Text) : between (k ++ u) (keyEnd (k ++ u) k u) = k.dropLast := by
  obtain rfl | ⟨k, z, rfl⟩ := List.eq_nil_or_concat k
  · simp [keyEnd, between]
  · rw [List.concat_eq_append, keyEnd_concat, List.dropLast_concat, List.append_assoc, List.singleton_append,
      between_append]

section Walk

variable (opts : BoundaryOptions) (t : Text) (members : List (Text × Text)) (depth : ℕ)

theorem finish_closeKey (out ks ke : Text) : finish opts (inside ('"' :: t) out members depth (some (ks, ke))) =
    finish opts (outside t (out ++ ['"']) (recognise opts members (between ks ke) t) depth) := by
  rw [finish_inside]
  rfl

theorem finish_key (k : List RawChar) (out ks ke : Text) : ∃ out',
    finish opts (inside (k.map Subtype.val ++ '"' :: t) out members depth (some (ks, ke))) =
      finish opts (outside t (out' ++ ['"'])
        (recognise opts members (between ks (keyEnd ke (k.map Subtype.val) ('"' :: t))) t) depth) := by
  induction k generalizing out ke with
  | nil => exact ⟨out, finish_closeKey opts t members depth out ks ke⟩
  | cons c k ih =>
    obtain ⟨out', h⟩ := ih (out ++ (escapedChar c.val).getD [c.val]) (c.val :: (k.map Subtype.val ++ '"' :: t))
    refine ⟨out', ?_⟩
    rw [List.map_cons, List.cons_append, finish_raw opts _ _ _ _ c.2.2.1 c.2.2.2]
    exact h

end Walk

theorem prevSignificant_spaces (out : Text) (ws : List Space) :
    prevSignificant (out ++ spaces ws) = prevSignificant out := by
  have hnone : (spaces ws).reverse.find? (fun c => !isWhitespace c) = none := by
    refine List.find?_eq_none.mpr fun c hc => ?_
    simp [isWhitespace_spaces (List.mem_reverse.mp hc)]
  rw [prevSignificant, List.reverse_append, List.find?_append, hnone, Option.none_or, prevSignificant]

theorem prevSignificant_concat (out : Text) {c : Char} (hc : isWhitespace c = false) :
    prevSignificant (out ++ [c]) = some c := by
  simp [prevSignificant, hc]

section Members

variable (fieldNames : List Text)

theorem recognise_scalar (members : List (Text × Text)) (key : Text) (ws ws' ws'' : List Space) (s : Scalar) {u : Text}
    (hu : captureValue u = u) :
    recognise (.forSchema fieldNames) members key
        (spaces ws ++ ':' :: (spaces ws' ++ (s.render ++ (spaces ws'' ++ u)))) =
      members ++ if key ∈ fieldNames then [(key, s.render)] else [] := by
  have hsep : afterSeparator (spaces ws ++ ':' :: (spaces ws' ++ (s.render ++ (spaces ws'' ++ u)))) =
      some (spaces ws' ++ (s.render ++ (spaces ws'' ++ u))) := by
    rw [afterSeparator, List.dropWhile_append_of_pos fun c hc => isWhitespace_spaces hc]
    rfl
  simp only [recognise, BoundaryOptions.forSchema, hsep, pushMember_scalar _ _ _ _ _ hu]
  split_ifs
  · rfl
  · rw [List.append_nil]

theorem finish_member (m : Member) {u : Text} (hu : captureValue u = u) (hends : Ends u) {out : Text}
    (hout : prevSignificant out = some '{' ∨ prevSignificant out = some ',') (members : List (Text × Text)) :
    ∃ out', finish (.forSchema fieldNames)
        (outside (spaces m.before ++ (labelText renderItems .curly m.label ++ (m.value.render ++ (spaces m.after ++ u))))
          out members 1) =
      finish (.forSchema fieldNames) (outside u out'
        (members ++ if m.clipped ∈ fieldNames then [(m.clipped, m.value.render)] else []) 1) := by
  have hkeyText : labelText renderItems .curly m.label ++ (m.value.render ++ (spaces m.after ++ u)) =
      '"' :: (m.key.map Subtype.val ++ '"' :: (spaces m.afterKey ++ ':' :: (spaces m.beforeValue ++
        (m.value.render ++ (spaces m.after ++ u))))) := by
    have hname := m.renderItems_label
    simp only [Member.label, Member.name] at hname
    simp [labelText, quoted, Member.label, hname]
  have hopen : ∀ t, finish (.forSchema fieldNames) (outside ('"' :: t) (out ++ spaces m.before) members 1) =
      finish (.forSchema fieldNames) (inside t (out ++ spaces m.before ++ ['"']) members 1 (some (t, t))) := by
    intro t
    have hkey : maybeKey (.forSchema fieldNames) (outside ('"' :: t) (out ++ spaces m.before) members 1) = true := by
      simp only [maybeKey, outside, prevSignificant_spaces]
      obtain h | h := hout <;> rw [h] <;> rfl
    rw [finish_outside, outsideStep, if_pos rfl, hkey]
    rfl
  rw [finish_spaces, hkeyText, hopen]
  obtain ⟨out', hkey⟩ := finish_key (.forSchema fieldNames) (spaces m.afterKey ++ ':' :: (spaces m.beforeValue ++
    (m.value.render ++ (spaces m.after ++ u)))) members 1 m.key (out ++ spaces m.before ++ ['"']) _ _
  rw [hkey, between_keyEnd, recognise_scalar fieldNames _ _ _ _ _ _ hu, finish_spaces,
    finish_copied _ _ _ _ _ (by decide), finish_spaces, finish_scalar _ _ _ _ _ rfl (ends_spaces _ hends),
    finish_spaces]
  · exact ⟨_, rfl⟩
  · have hcolon : isWhitespace ':' = false := by decide
    simp only [maybeKey, outside, prevSignificant_spaces, prevSignificant_concat _ hcolon]
    rfl

theorem finish_memberEntries (m : Member) (ms : List Member) (t : Text) {out : Text}
    (hout : prevSignificant out = some '{' ∨ prevSignificant out = some ',') (members : List (Text × Text)) :
    ∃ out', finish (.forSchema fieldNames)
        (outside ((memberEntries m ms).renderWith Scalar.render renderItems ++ '}' :: t) out members 1) =
      finish (.forSchema fieldNames)
        (outside ('}' :: t) out' (members ++ fieldsOf fieldNames Member.clipped (m :: ms)) 1) := by
  induction ms generalizing m out members with
  | nil =>
    obtain ⟨out', h⟩ := finish_member fieldNames m (u := '}' :: t) rfl (ends_closing .curly t) hout members
    refine ⟨out', ?_⟩
    rw [fieldsOf_cons, fieldsOf, List.filter_nil, List.map_nil, List.append_nil, ← h]
    simp only [memberEntries, Entries.renderWith, Value.renderWith, List.append_assoc]
  | cons m' ms ih =>
    have hopens := opens_entries (memberEntries m' ms) ('}' :: t)
    obtain ⟨out', h⟩ := finish_member fieldNames m rfl (ends_comma _) hout members
    have hcomma : prevSignificant (out' ++ [',']) = some ',' := prevSignificant_concat out' (by decide)
    obtain ⟨out'', h'⟩ := ih m' (.inr hcomma)
      (members ++ if m.clipped ∈ fieldNames then [(m.clipped, m.value.render)] else [])
    refine ⟨out'', ?_⟩
    rw [fieldsOf_cons, ← List.append_assoc, ← h', ← finish_comma _ _ _ _ _ hopens, ← h]
    simp only [memberEntries, Entries.renderWith, Value.renderWith, List.append_assoc, List.cons_append]

theorem repairBoundary_members (o : FlatObject) :
    (repairBoundary o.document.render (.forSchema fieldNames)).members =
      fieldsOf fieldNames Member.clipped o.members := by
  have htext : o.document.render = spaces o.before ++ '{' ::
      ((memberEntries o.first o.rest).renderWith Scalar.render renderItems ++ '}' :: spaces o.after) := by
    simp [FlatObject.document, Document.render, Value.render, Value.renderWith, Bracket.opening, Bracket.closing]
  obtain ⟨out, hentries⟩ := finish_memberEntries fieldNames o.first o.rest (spaces o.after)
    (.inl (prevSignificant_concat (spaces o.before) (c := '{') (by decide))) []
  have hclose := finish_closing (.forSchema fieldNames) (spaces o.after) out
    (fieldsOf fieldNames Member.clipped o.members) 0 .curly
  have hopen := finish_opening (.forSchema fieldNames) ((memberEntries o.first o.rest).renderWith Scalar.render
    renderItems ++ '}' :: spaces o.after) (spaces o.before) [] 0 .curly
  have hspaces := finish_spaces (.forSchema fieldNames) (fieldsOf fieldNames Member.clipped o.members) 0 o.after []
    (out ++ ['}'])
  have hwalk : finish (.forSchema fieldNames) (.start o.document.render) =
      outside [] (out ++ ['}'] ++ spaces o.after) (fieldsOf fieldNames Member.clipped o.members) 0 := by
    rw [htext]
    refine (finish_spaces (.forSchema fieldNames) [] 0 o.before _ []).trans (hopen.trans (hentries.trans
      (hclose.trans ?_)))
    rw [List.append_nil] at hspaces
    exact hspaces
  simp only [repairBoundary, BoundaryOptions.forSchema, Option.isSome_some, if_true, walk_eq]
  exact congrArg WalkState.members hwalk

theorem extractMembers_object (o : FlatObject) :
    extractMembers o.document.render (.forSchema fieldNames) =
      if fieldsOf fieldNames Member.clipped o.members = [] then .error .noMembers
      else .ok (fieldsOf fieldNames Member.clipped o.members) := by
  rw [extractMembers, repairBoundary_members]

def Twinned (ms : List Member) : Prop :=
  List.Forall₂ (fun m m' => m'.clipped = m.name ∧ m'.value.render = m.value.render)
    (ms.filter fun m => m.name ∈ fieldNames) (ms.filter fun m => m.clipped ∈ fieldNames)

theorem fieldsOf_eq_iff_twinned (ms : List Member) :
    fieldsOf fieldNames Member.clipped ms = fieldsOf fieldNames Member.name ms ↔ Twinned fieldNames ms := by
  rw [eq_comm, fieldsOf, fieldsOf, ← List.forall₂_eq_eq_eq, List.forall₂_map_left_iff, List.forall₂_map_right_iff,
    Twinned]
  simp only [Prod.mk.injEq, eq_comm]

theorem members_exact_iff (o : FlatObject) (ho : ∃ m ∈ o.members, m.name ∈ fieldNames) :
    extractMembers o.document.render (.forSchema fieldNames) = .ok (fieldsOf fieldNames Member.name o.members) ↔
      Twinned fieldNames o.members := by
  have hne : fieldsOf fieldNames Member.name o.members ≠ [] := by
    obtain ⟨m, hm, hname⟩ := ho
    refine List.ne_nil_of_mem (a := (m.name, m.value.render)) (List.mem_map.mpr ⟨m, ?_, rfl⟩)
    exact List.mem_filter.mpr ⟨hm, by simpa using hname⟩
  rw [extractMembers_object, ← fieldsOf_eq_iff_twinned]
  constructor
  · intro h
    split_ifs at h
    exact Except.ok.inj h
  · intro h
    rw [h, if_neg hne]

end Members

def rawChars (t : Text) : List RawChar :=
  t.filterMap fun c => if h : 0x20 ≤ c.toNat ∧ c ≠ '"' ∧ c ≠ '\\' then some ⟨c, h⟩ else none

def zeroed (key : Text) : Member := ⟨[], rawChars key, [], [.space], .number ⟨false, .zero, none, none⟩, []⟩

theorem quoted_key_loses_last :
    (FlatObject.mk [] (zeroed "action".toList) [] []).document.render = "\x7b\"action\": 0\x7d".toList ∧
      extractMembers "\x7b\"action\": 0\x7d".toList (.forSchema ["action".toList]) = .error .noMembers ∧
      extractMembers "\x7b\"actions\": 1,\"action\": 2\x7d".toList (.forSchema ["action".toList]) =
        .ok [("action".toList, "1".toList)] := by
  decide +kernel

def twins : FlatObject := ⟨[], zeroed "a".toList, [zeroed "ab".toList], []⟩

theorem twins_exact :
    extractMembers twins.document.render (.forSchema ["a".toList]) = .ok [("a".toList, "0".toList)] :=
  (members_exact_iff ["a".toList] twins ⟨zeroed "a".toList, List.mem_cons_self, by decide⟩).mpr
    (.cons ⟨by decide, by decide⟩ .nil)

end Fluent.Wvr
