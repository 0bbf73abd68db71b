import Mathlib.Algebra.GroupWithZero.Nat
import Mathlib.Data.List.MinMax
import Mathlib.Data.List.Nodup
import Mathlib.Data.Prod.Lex
import Mathlib.Order.Lattice
import Fluent.Spacy.Hash

namespace Fluent.Router.Ledger

open Fluent.Spacy (Text)

inductive ProvenanceTier where
  | deterministic
  | localModel
  | frontier
  | humanReview

namespace ProvenanceTier

def rank : ProvenanceTier → ℕ
  | deterministic => 0
  | localModel => 1
  | frontier => 2
  | humanReview => 3

theorem rank_injective : Function.Injective rank := by
  intro a b h
  cases a <;> cases b <;> first | rfl | cases h

instance : LinearOrder ProvenanceTier := LinearOrder.lift' rank rank_injective

end ProvenanceTier

inductive ClaimStatus where
  | provisional
  | confirmed
  | superseded
deriving DecidableEq

structure AnnotationClaim (V : Type) where
  claimKey : Text
  tier : ProvenanceTier
  status : ClaimStatus
  payload : V
  producedBy : Text
  producedAt : UInt64

inductive DbError where
  | sqlite
  | duplicateEntry
  | other (message : Text)
deriving DecidableEq

structure AnnotationRow where
  contentHash : Int64
  claimKey : Text
  claimId : ℤ
  tier : Text
  status : Text
  payload : Text
  producedBy : Text
  producedAt : Int64
deriving DecidableEq

/-- JSON values as the store prints and reads them. -/
structure Serde (V : Type) where
  print : V → Text
  parse : Text → Option V
  parse_print : ∀ v, parse (print v) = some v

def tierAsText : ProvenanceTier → Text
  | .deterministic => "deterministic".toList
  | .localModel => "local_model".toList
  | .frontier => "frontier".toList
  | .humanReview => "human_review".toList

def tierFromText (s : Text) : Except DbError ProvenanceTier :=
  if s = "deterministic".toList then .ok .deterministic
  else if s = "local_model".toList then .ok .localModel
  else if s = "frontier".toList then .ok .frontier
  else if s = "human_review".toList then .ok .humanReview
  else .error (.other ("unknown provenance tier: ".toList ++ s))

def statusAsText : ClaimStatus → Text
  | .provisional => "provisional".toList
  | .confirmed => "confirmed".toList
  | .superseded => "superseded".toList

def statusFromText (s : Text) : Except DbError ClaimStatus :=
  if s = "provisional".toList then .ok .provisional
  else if s = "confirmed".toList then .ok .confirmed
  else if s = "superseded".toList then .ok .superseded
  else .error (.other ("unknown claim status: ".toList ++ s))

theorem tierFromText_tierAsText (t : ProvenanceTier) : tierFromText (tierAsText t) = .ok t := by
  cases t <;> decide +kernel

theorem statusFromText_statusAsText (s : ClaimStatus) : statusFromText (statusAsText s) = .ok s := by
  cases s <;> decide +kernel

theorem statusAsText_injective : Function.Injective statusAsText := by
  intro a b h
  have hparse := statusFromText_statusAsText a
  rw [h, statusFromText_statusAsText] at hparse
  exact (Except.ok.inj hparse).symm

def statusPriority (status : Text) : ℕ :=
  if status = statusAsText .confirmed then 0 else if status = statusAsText .provisional then 1 else 2

namespace AnnotationStore

variable {V : Type} (serde : Serde V)

structure Row where
  claimId : ℤ
  tier : ProvenanceTier
  status : ClaimStatus

def rowToRow (row : AnnotationRow) : Except DbError Row := do
  let tier ← tierFromText row.tier
  let status ← statusFromText row.status
  pure ⟨row.claimId, tier, status⟩

def rowToClaim (row : AnnotationRow) : Except DbError (AnnotationClaim V) := do
  let tier ← tierFromText row.tier
  let status ← statusFromText row.status
  match serde.parse row.payload with
  | some payload => pure ⟨row.claimKey, tier, status, payload, row.producedBy, row.producedAt.toUInt64⟩
  | none => .error .sqlite

def rowsAt (table : List AnnotationRow) (hash : UInt64) (key : Text) : List AnnotationRow :=
  table.filter fun row => row.contentHash = hash.toInt64 ∧ row.claimKey = key

scoped instance (priority := 2000) claimIdOrder : Preorder ℤ := Int.instLinearOrder.toPreorder

def firstLive (rows : List AnnotationRow) : Option AnnotationRow :=
  (rows.filter fun row => row.status ≠ statusAsText .superseded).argmin
    fun row => toLex (statusPriority row.status, OrderDual.toDual row.claimId)

def read (table : List AnnotationRow) (hash : UInt64) (key : Text) :
    Except DbError (Option (AnnotationClaim V)) :=
  match firstLive (rowsAt table hash key) with
  | none => .ok none
  | some row => some <$> rowToClaim serde row

def currentRow (table : List AnnotationRow) (hash : UInt64) (key : Text) : Except DbError (Option Row) :=
  match firstLive (rowsAt table hash key) with
  | none => .ok none
  | some row => some <$> rowToRow row

def nextClaimId (table : List AnnotationRow) (hash : UInt64) (key : Text) : ℤ :=
  (((rowsAt table hash key).map AnnotationRow.claimId).max?).getD 0 + 1

def rowOf (hash : UInt64) (claimId : ℤ) (claim : AnnotationClaim V) (status : ClaimStatus) : AnnotationRow where
  contentHash := hash.toInt64
  claimKey := claim.claimKey
  claimId := claimId
  tier := tierAsText claim.tier
  status := statusAsText status
  payload := serde.print claim.payload
  producedBy := claim.producedBy
  producedAt := claim.producedAt.toInt64

def insertRow (table : List AnnotationRow) (hash : UInt64) (claimId : ℤ) (claim : AnnotationClaim V)
    (status : ClaimStatus) : Except DbError (List AnnotationRow) :=
  if (rowsAt table hash claim.claimKey).any (·.claimId = claimId) then .error .duplicateEntry
  else .ok (table ++ [rowOf serde hash claimId claim status])

-- a `u64` above `i64::MAX` cannot be bound to a statement
def bindHash (hash : UInt64) : Except DbError Int64 :=
  if hash.toNat < 2 ^ 63 then .ok hash.toInt64 else .error .sqlite

def supersedeRow (hash : Int64) (key : Text) (claimId : ℤ) (row : AnnotationRow) : AnnotationRow :=
  if row.contentHash = hash ∧ row.claimKey = key ∧ row.claimId = claimId then
    { row with status := statusAsText .superseded }
  else row

def supersede (table : List AnnotationRow) (hash : UInt64) (key : Text) (claimId : ℤ) :
    Except DbError (List AnnotationRow) := do
  let bound ← bindHash hash
  pure (table.map (supersedeRow bound key claimId))

def write (table : List AnnotationRow) (hash : UInt64) (claim : AnnotationClaim V) :
    Except DbError (ClaimStatus × List AnnotationRow) := do
  match ← currentRow table hash claim.claimKey with
  | none =>
    let table ← insertRow serde table hash (nextClaimId table hash claim.claimKey) claim .confirmed
    pure (.confirmed, table)
  | some cur =>
    if cur.tier < claim.tier then
      let table ← supersede table hash claim.claimKey cur.claimId
      let table ← insertRow serde table hash (nextClaimId table hash claim.claimKey) claim .confirmed
      pure (.confirmed, table)
    else if claim.tier = cur.tier ∧ cur.status = .confirmed then
      pure (.confirmed, table)
    else
      let table ← insertRow serde table hash (nextClaimId table hash claim.claimKey) claim .provisional
      pure (.provisional, table)

def run (table : List AnnotationRow) (writes : List (UInt64 × AnnotationClaim V)) :
    Except DbError (List AnnotationRow) :=
  writes.foldlM (fun table w => Prod.snd <$> write serde table w.1 w.2) table

variable {serde}

@[simp] theorem rowToRow_rowOf (hash : UInt64) (claimId : ℤ) (claim : AnnotationClaim V) (status : ClaimStatus) :
    rowToRow (rowOf serde hash claimId claim status) = .ok ⟨claimId, claim.tier, status⟩ := by
  simp only [rowToRow, rowOf, tierFromText_tierAsText, statusFromText_statusAsText]
  rfl

theorem rowToClaim_rowOf (hash : UInt64) (claimId : ℤ) (claim : AnnotationClaim V) (status : ClaimStatus) :
    rowToClaim serde (rowOf serde hash claimId claim status) = .ok { claim with status := status } := by
  simp only [rowToClaim, rowOf, tierFromText_tierAsText, statusFromText_statusAsText, serde.parse_print]
  rfl

theorem rowsAt_append (table added : List AnnotationRow) (hash : UInt64) (key : Text) :
    rowsAt (table ++ added) hash key = rowsAt table hash key ++ rowsAt added hash key :=
  List.filter_append ..

theorem toInt64_inj {hash hash' : UInt64} : hash.toInt64 = hash'.toInt64 ↔ hash = hash' := by
  constructor
  · intro h
    rw [← UInt64.toUInt64_toInt64 hash, h, UInt64.toUInt64_toInt64]
  · exact congrArg _

theorem rowsAt_row (hash hash' : UInt64) (claimId : ℤ) (claim : AnnotationClaim V) (status : ClaimStatus) (key : Text) :
    rowsAt [rowOf serde hash claimId claim status] hash' key =
      if hash = hash' ∧ claim.claimKey = key then [rowOf serde hash claimId claim status] else [] := by
  simp only [rowsAt, List.filter_cons, List.filter_nil, rowOf, toInt64_inj, decide_eq_true_eq]

theorem confirmed_row (hash : UInt64) (claimId : ℤ) (claim : AnnotationClaim V) (status : ClaimStatus) :
    [rowOf serde hash claimId claim status].filter (·.status = statusAsText .confirmed) =
      if status = .confirmed then [rowOf serde hash claimId claim status] else [] := by
  simp only [List.filter_cons, List.filter_nil, rowOf, statusAsText_injective.eq_iff, decide_eq_true_eq]

def RowKept (old new : AnnotationRow) : Prop :=
  new = old ∨ old.status = statusAsText .confirmed ∧ new = { old with status := statusAsText .superseded }

def Kept (old new : List AnnotationRow) : Prop :=
  ∀ (i : ℕ) (row : AnnotationRow), old[i]? = some row → ∃ row', new[i]? = some row' ∧ RowKept row row'

theorem RowKept.trans {a b c : AnnotationRow} (hab : RowKept a b) (hbc : RowKept b c) : RowKept a c := by
  rcases hab with rfl | ⟨hconf, rfl⟩
  · exact hbc
  · rcases hbc with rfl | ⟨hstatus, -⟩
    · exact .inr ⟨hconf, rfl⟩
    · have habsurd : ClaimStatus.superseded = .confirmed := statusAsText_injective hstatus
      cases habsurd

theorem Kept.refl (table : List AnnotationRow) : Kept table table :=
  fun _ row h => ⟨row, h, .inl rfl⟩

theorem Kept.trans {a b c : List AnnotationRow} (hab : Kept a b) (hbc : Kept b c) : Kept a c := by
  intro i row hrow
  obtain ⟨row', hrow', hkept⟩ := hab i row hrow
  obtain ⟨row'', hrow'', hkept'⟩ := hbc i row' hrow'
  exact ⟨row'', hrow'', hkept.trans hkept'⟩

theorem Kept.append {old new : List AnnotationRow} (h : Kept old new) (added : List AnnotationRow) :
    Kept old (new ++ added) := by
  intro i row hrow
  obtain ⟨row', hrow', hkept⟩ := h i row hrow
  refine ⟨row', ?_, hkept⟩
  rw [List.getElem?_append_left (List.getElem?_eq_some_iff.mp hrow').1]
  exact hrow'

theorem kept_map {table : List AnnotationRow} {f : AnnotationRow → AnnotationRow}
    (h : ∀ row ∈ table, RowKept row (f row)) : Kept table (table.map f) := by
  intro i row hrow
  refine ⟨f row, ?_, h row (List.mem_of_getElem? hrow)⟩
  rw [List.getElem?_map, hrow, Option.map_some]

theorem supersedeRow_key (hash : Int64) (key : Text) (claimId : ℤ) (row : AnnotationRow) :
    (supersedeRow hash key claimId row).contentHash = row.contentHash ∧
      (supersedeRow hash key claimId row).claimKey = row.claimKey ∧
      (supersedeRow hash key claimId row).claimId = row.claimId := by
  unfold supersedeRow
  split_ifs <;> exact ⟨rfl, rfl, rfl⟩

theorem rowsAt_supersede (table : List AnnotationRow) (bound : Int64) (key : Text) (claimId : ℤ) (hash : UInt64)
    (key' : Text) : rowsAt (table.map (supersedeRow bound key claimId)) hash key' =
      (rowsAt table hash key').map (supersedeRow bound key claimId) := by
  unfold rowsAt
  rw [List.filter_map]
  congr 1
  refine List.filter_congr fun row _ => ?_
  obtain ⟨hhash, hkey, -⟩ := supersedeRow_key bound key claimId row
  simp only [Function.comp, hhash, hkey]

theorem supersede_eq {hash : UInt64} (hb : hash.toNat < 2 ^ 63) (table : List AnnotationRow) (key : Text) (claimId : ℤ) :
    supersede table hash key claimId = .ok (table.map (supersedeRow hash.toInt64 key claimId)) := by
  unfold supersede bindHash
  rw [if_pos hb]
  rfl

theorem lt_nextClaimId {table : List AnnotationRow} {hash : UInt64} {key : Text} {row : AnnotationRow}
    (h : row ∈ rowsAt table hash key) : row.claimId < nextClaimId table hash key := by
  have hmem := List.mem_map_of_mem (f := AnnotationRow.claimId) h
  unfold nextClaimId
  cases hmax : ((rowsAt table hash key).map AnnotationRow.claimId).max? with
  | none =>
    rw [List.max?_eq_none_iff] at hmax
    rw [hmax] at hmem
    cases hmem
  | some m =>
    have hle := (List.max?_eq_some_iff.mp hmax).2 _ hmem
    simp only [Option.getD_some]
    omega

theorem insertRow_eq (table : List AnnotationRow) (hash : UInt64) (claim : AnnotationClaim V) (status : ClaimStatus) :
    insertRow serde table hash (nextClaimId table hash claim.claimKey) claim status =
      .ok (table ++ [rowOf serde hash (nextClaimId table hash claim.claimKey) claim status]) := by
  unfold insertRow
  rw [if_neg]
  rw [List.any_eq_true]
  rintro ⟨row, hrow, hid⟩
  have hlt := lt_nextClaimId hrow
  rw [of_decide_eq_true hid] at hlt
  exact absurd hlt (lt_irrefl _)

def Leads (claims : List (AnnotationClaim V)) (first : AnnotationClaim V) : Prop :=
  claims.find? (·.tier = first.tier) = some first ∧ ∀ claim ∈ claims, claim.tier ≤ first.tier

theorem leads_singleton (claim : AnnotationClaim V) : Leads [claim] claim :=
  ⟨by rw [List.find?_cons, decide_eq_true rfl], fun c hc => (List.mem_singleton.mp hc).symm ▸ le_refl _⟩

theorem Leads.stays {claims : List (AnnotationClaim V)} {first claim : AnnotationClaim V} (h : Leads claims first)
    (hle : claim.tier ≤ first.tier) : Leads (claims ++ [claim]) first := by
  refine ⟨?_, fun c hc => ?_⟩
  · rw [List.find?_append, h.1, Option.some_or]
  · rcases List.mem_append.mp hc with hc | hc
    · exact h.2 c hc
    · rw [List.mem_singleton.mp hc]
      exact hle

theorem Leads.replaced {claims : List (AnnotationClaim V)} {first claim : AnnotationClaim V} (h : Leads claims first)
    (hlt : first.tier < claim.tier) : Leads (claims ++ [claim]) claim := by
  have hnone : claims.find? (·.tier = claim.tier) = none := by
    rw [List.find?_eq_none]
    intro c hc heq
    exact absurd (of_decide_eq_true heq) ((h.2 c hc).trans_lt hlt).ne
  refine ⟨?_, fun c hc => ?_⟩
  · rw [List.find?_append, hnone, Option.none_or, (leads_singleton claim).1]
  · rcases List.mem_append.mp hc with hc | hc
    · exact (h.2 c hc).trans hlt.le
    · rw [List.mem_singleton.mp hc]

structure Slot (serde : Serde V) (hash : UInt64) (rows : List AnnotationRow) (claims : List (AnnotationClaim V)) :
    Prop where
  ascending : rows.Pairwise (·.claimId < ·.claimId)
  settled : claims = [] ∧ rows = [] ∨ ∃ first claimId, Leads claims first ∧
    rows.filter (·.status = statusAsText .confirmed) = [rowOf serde hash claimId first .confirmed]

theorem statusPriority_eq_zero {status : Text} : statusPriority status = 0 ↔ status = statusAsText .confirmed := by
  unfold statusPriority
  split_ifs with h₁ h₂ <;> simp [h₁]

theorem firstLive_eq {rows : List AnnotationRow} {row : AnnotationRow}
    (h : rows.filter (·.status = statusAsText .confirmed) = [row]) : firstLive rows = some row := by
  have hrow : row ∈ rows ∧ row.status = statusAsText .confirmed := by
    have hmem : row ∈ rows.filter (·.status = statusAsText .confirmed) := h ▸ List.mem_singleton_self row
    simpa using hmem
  have hlive : row ∈ rows.filter fun row => row.status ≠ statusAsText .superseded := by
    refine List.mem_filter.mpr ⟨hrow.1, decide_eq_true ?_⟩
    rw [hrow.2]
    exact fun heq => ClaimStatus.noConfusion (statusAsText_injective heq)
  cases hmin : firstLive rows with
  | none =>
    rw [firstLive, List.argmin_eq_none] at hmin
    rw [hmin] at hlive
    cases hlive
  | some best =>
    have hbest := (List.mem_filter.mp (List.argmin_mem hmin)).1
    have hle := List.le_of_mem_argmin hlive hmin
    have hzero : statusPriority best.status = 0 := by
      rcases Prod.Lex.le_iff.mp hle with hlt | heq
      · exact absurd hlt (by simp [statusPriority_eq_zero.mpr hrow.2])
      · exact heq.1.trans (statusPriority_eq_zero.mpr hrow.2)
    have hmem : best ∈ rows.filter (·.status = statusAsText .confirmed) :=
      List.mem_filter.mpr ⟨hbest, decide_eq_true (statusPriority_eq_zero.mp hzero)⟩
    rw [h, List.mem_singleton] at hmem
    rw [hmem]

theorem currentRow_eq {table : List AnnotationRow} {hash : UInt64} {key : Text} {claimId : ℤ}
    {claim : AnnotationClaim V} {status : ClaimStatus}
    (h : (rowsAt table hash key).filter (·.status = statusAsText .confirmed) = [rowOf serde hash claimId claim status]) :
    currentRow table hash key = .ok (some ⟨claimId, claim.tier, status⟩) := by
  rw [currentRow, firstLive_eq h]
  simp only [rowToRow_rowOf]
  rfl

section Outcomes

variable {table : List AnnotationRow} {hash : UInt64} {claim : AnnotationClaim V}

def withClaim (serde : Serde V) (table : List AnnotationRow) (hash : UInt64) (claim : AnnotationClaim V)
    (status : ClaimStatus) : List AnnotationRow :=
  table ++ [rowOf serde hash (nextClaimId table hash claim.claimKey) claim status]

theorem write_none (hcur : currentRow table hash claim.claimKey = .ok none) :
    write serde table hash claim = .ok (.confirmed, withClaim serde table hash claim .confirmed) := by
  rw [write, hcur]
  simp only [bind, Except.bind, insertRow_eq, pure, Except.pure, withClaim]

variable {cur : Row} (hcur : currentRow table hash claim.claimKey = .ok (some cur))

include hcur

theorem write_higher (hb : hash.toNat < 2 ^ 63) (hlt : cur.tier < claim.tier) :
    write serde table hash claim = .ok (.confirmed, withClaim serde
      (table.map (supersedeRow hash.toInt64 claim.claimKey cur.claimId)) hash claim .confirmed) := by
  rw [write, hcur]
  simp only [bind, Except.bind, if_pos hlt, supersede_eq hb, insertRow_eq, pure, Except.pure, withClaim]

theorem write_equal (heq : claim.tier = cur.tier) (hstatus : cur.status = .confirmed) :
    write serde table hash claim = .ok (.confirmed, table) := by
  rw [write, hcur]
  simp only [bind, Except.bind, if_neg (heq ▸ lt_irrefl cur.tier : ¬ cur.tier < claim.tier),
    if_pos (And.intro heq hstatus), pure, Except.pure]

theorem write_lower (hlt : claim.tier < cur.tier) :
    write serde table hash claim = .ok (.provisional, withClaim serde table hash claim .provisional) := by
  rw [write, hcur]
  simp only [bind, Except.bind, if_neg hlt.not_gt, hlt.ne, false_and, if_false, insertRow_eq, pure, Except.pure,
    withClaim]

end Outcomes

theorem rowsAt_withClaim (table : List AnnotationRow) (hash : UInt64) (claim : AnnotationClaim V)
    (status : ClaimStatus) : rowsAt (withClaim serde table hash claim status) hash claim.claimKey =
      rowsAt table hash claim.claimKey ++ [rowOf serde hash (nextClaimId table hash claim.claimKey) claim status] := by
  rw [withClaim, rowsAt_append, rowsAt_row, if_pos ⟨rfl, rfl⟩]

theorem confirmed_withClaim {table : List AnnotationRow} {hash : UInt64} {claim : AnnotationClaim V}
    (hnone : (rowsAt table hash claim.claimKey).filter (·.status = statusAsText .confirmed) = []) :
    (rowsAt (withClaim serde table hash claim .confirmed) hash claim.claimKey).filter
      (·.status = statusAsText .confirmed) =
      [rowOf serde hash (nextClaimId table hash claim.claimKey) claim .confirmed] := by
  rw [rowsAt_withClaim, List.filter_append, hnone, confirmed_row, if_pos rfl, List.nil_append]

theorem rowsAt_withClaim_of_ne {table : List AnnotationRow} {hash hash' : UInt64} {claim : AnnotationClaim V}
    {status : ClaimStatus} {key : Text} (hne : (hash', key) ≠ (hash, claim.claimKey)) :
    rowsAt (withClaim serde table hash claim status) hash' key = rowsAt table hash' key := by
  rw [withClaim, rowsAt_append, rowsAt_row, if_neg, List.append_nil]
  rintro ⟨rfl, rfl⟩
  exact hne rfl

theorem ascending_withClaim {table : List AnnotationRow} {hash : UInt64} {claim : AnnotationClaim V}
    {status : ClaimStatus} (h : (rowsAt table hash claim.claimKey).Pairwise (·.claimId < ·.claimId)) :
    (rowsAt (withClaim serde table hash claim status) hash claim.claimKey).Pairwise (·.claimId < ·.claimId) := by
  rw [rowsAt_withClaim]
  refine List.pairwise_append.mpr ⟨h, List.pairwise_singleton .., fun row hrow new hnew => ?_⟩
  rw [List.mem_singleton.mp hnew]
  exact lt_nextClaimId hrow

theorem map_supersedeRow_of_ne {hash hash' : UInt64} {key key' : Text} {claimId : ℤ} {table : List AnnotationRow}
    (hne : (hash', key') ≠ (hash, key)) :
    (rowsAt table hash' key').map (supersedeRow hash.toInt64 key claimId) = rowsAt table hash' key' := by
  rw [List.map_congr_left, List.map_id]
  intro row hrow
  have hat : row.contentHash = hash'.toInt64 ∧ row.claimKey = key' := of_decide_eq_true (List.mem_filter.mp hrow).2
  unfold supersedeRow
  rw [if_neg]
  · rfl
  · rintro ⟨hhash, hkey, -⟩
    rw [hat.1, toInt64_inj] at hhash
    exact hne (Prod.ext hhash (hat.2.symm.trans hkey))

theorem ascending_supersede {rows : List AnnotationRow} (h : rows.Pairwise (·.claimId < ·.claimId)) (hash : Int64)
    (key : Text) (claimId : ℤ) : (rows.map (supersedeRow hash key claimId)).Pairwise (·.claimId < ·.claimId) := by
  rw [List.pairwise_map]
  refine h.imp fun {a b} hab => ?_
  rw [(supersedeRow_key hash key claimId a).2.2, (supersedeRow_key hash key claimId b).2.2]
  exact hab

section Supersede

variable {table : List AnnotationRow} {hash : UInt64} {key : Text} {row : AnnotationRow}
  (hasc : (rowsAt table hash key).Pairwise (·.claimId < ·.claimId))
  (hconf : (rowsAt table hash key).filter (·.status = statusAsText .confirmed) = [row])

include hconf in
theorem confirmed_supersede : ((rowsAt table hash key).map (supersedeRow hash.toInt64 key row.claimId)).filter
    (·.status = statusAsText .confirmed) = [] := by
  rw [List.filter_eq_nil_iff]
  intro new hnew hstatus
  obtain ⟨old, hold, rfl⟩ := List.mem_map.mp hnew
  have hat : old.contentHash = hash.toInt64 ∧ old.claimKey = key := of_decide_eq_true (List.mem_filter.mp hold).2
  have hstatus := of_decide_eq_true hstatus
  unfold supersedeRow at hstatus
  split_ifs at hstatus with hid
  · have habsurd : ClaimStatus.superseded = .confirmed := statusAsText_injective hstatus
    cases habsurd
  · have hmem : old ∈ [row] := hconf ▸ List.mem_filter.mpr ⟨hold, decide_eq_true hstatus⟩
    exact hid ⟨hat.1, hat.2, congrArg _ (List.mem_singleton.mp hmem)⟩

include hasc hconf in
theorem kept_supersede : Kept table (table.map (supersedeRow hash.toInt64 key row.claimId)) := by
  have hrow : row ∈ rowsAt table hash key ∧ row.status = statusAsText .confirmed := by
    have hmem : row ∈ (rowsAt table hash key).filter (·.status = statusAsText .confirmed) :=
      hconf ▸ List.mem_singleton_self row
    exact ⟨(List.mem_filter.mp hmem).1, of_decide_eq_true (List.mem_filter.mp hmem).2⟩
  have hnodup : ((rowsAt table hash key).map AnnotationRow.claimId).Nodup := by
    rw [List.Nodup, List.pairwise_map]
    exact hasc.imp fun hab => hab.ne
  refine kept_map fun old hold => ?_
  unfold supersedeRow
  split_ifs with hid
  · have hat : old ∈ rowsAt table hash key := List.mem_filter.mpr ⟨hold, decide_eq_true ⟨hid.1, hid.2.1⟩⟩
    rw [List.inj_on_of_nodup_map hnodup hat hrow.1 hid.2.2]
    exact .inr ⟨hrow.2, rfl⟩
  · exact .inl rfl

end Supersede

theorem write_slot {table : List AnnotationRow} {hash : UInt64} (hb : hash.toNat < 2 ^ 63)
    {claims : List (AnnotationClaim V)} {claim : AnnotationClaim V}
    (h : Slot serde hash (rowsAt table hash claim.claimKey) claims) :
    ∃ status table', write serde table hash claim = .ok (status, table') ∧ Kept table table' ∧
      Slot serde hash (rowsAt table' hash claim.claimKey) (claims ++ [claim]) ∧
      ∀ hash' key, (hash', key) ≠ (hash, claim.claimKey) → rowsAt table' hash' key = rowsAt table hash' key := by
  rcases h.settled with ⟨rfl, hempty⟩ | ⟨first, claimId, hleads, hconf⟩
  · have hcur : currentRow table hash claim.claimKey = .ok none := by
      rw [currentRow, hempty]
      rfl
    have hnone : (rowsAt table hash claim.claimKey).filter (·.status = statusAsText .confirmed) = [] := by
      rw [hempty, List.filter_nil]
    exact ⟨_, _, write_none hcur, (Kept.refl table).append _, ⟨ascending_withClaim h.ascending, .inr
      ⟨claim, _, leads_singleton claim, confirmed_withClaim hnone⟩⟩, fun _ _ => rowsAt_withClaim_of_ne⟩
  have hcur := currentRow_eq hconf
  rcases lt_trichotomy claim.tier first.tier with hlt | heq | hgt
  · refine ⟨_, _, write_lower hcur hlt, (Kept.refl table).append _, ⟨ascending_withClaim h.ascending, .inr
      ⟨first, claimId, hleads.stays hlt.le, ?_⟩⟩, fun _ _ => rowsAt_withClaim_of_ne⟩
    rw [rowsAt_withClaim, List.filter_append, hconf, confirmed_row, if_neg ClaimStatus.noConfusion, List.append_nil]
  · exact ⟨_, _, write_equal hcur heq rfl, Kept.refl table,
      ⟨h.ascending, .inr ⟨first, claimId, hleads.stays heq.le, hconf⟩⟩, fun _ _ _ => rfl⟩
  · have hkept := kept_supersede h.ascending hconf
    have hnone := confirmed_supersede hconf
    rw [← rowsAt_supersede] at hnone
    refine ⟨_, _, write_higher hcur hb hgt, hkept.append _, ⟨ascending_withClaim ?_, .inr
      ⟨claim, _, hleads.replaced hgt, confirmed_withClaim hnone⟩⟩, fun hash' key hne => ?_⟩
    · rw [rowsAt_supersede]
      exact ascending_supersede h.ascending ..
    · rw [rowsAt_withClaim_of_ne hne, rowsAt_supersede, map_supersedeRow_of_ne hne]

def claimsTo (hash : UInt64) (key : Text) (writes : List (UInt64 × AnnotationClaim V)) : List (AnnotationClaim V) :=
  (writes.filter fun w => w.1 = hash ∧ w.2.claimKey = key).map Prod.snd

theorem claimsTo_append (hash : UInt64) (key : Text) (writes : List (UInt64 × AnnotationClaim V))
    (w : UInt64 × AnnotationClaim V) : claimsTo hash key (writes ++ [w]) =
      claimsTo hash key writes ++ if (hash, key) = (w.1, w.2.claimKey) then [w.2] else [] := by
  unfold claimsTo
  rw [List.filter_append, List.map_append]
  congr 1
  by_cases h : (hash, key) = (w.1, w.2.claimKey)
  · obtain ⟨hhash, hkey⟩ := Prod.mk.inj h
    rw [if_pos h, List.filter_cons, if_pos (decide_eq_true ⟨hhash.symm, hkey.symm⟩)]
    rfl
  · rw [if_neg h, List.filter_cons, if_neg]
    · rfl
    · exact fun hw => h (Prod.ext (of_decide_eq_true hw).1.symm (of_decide_eq_true hw).2.symm)

theorem run_append (table : List AnnotationRow) (before after : List (UInt64 × AnnotationClaim V)) :
    run serde table (before ++ after) = run serde table before >>= fun t => run serde t after :=
  List.foldlM_append

theorem run_slots {writes : List (UInt64 × AnnotationClaim V)} (hb : ∀ w ∈ writes, w.1.toNat < 2 ^ 63) :
    ∀ {table : List AnnotationRow} {earlier : List (UInt64 × AnnotationClaim V)},
      (∀ hash key, Slot serde hash (rowsAt table hash key) (claimsTo hash key earlier)) →
      ∃ table', run serde table writes = .ok table' ∧ Kept table table' ∧
        ∀ hash key, Slot serde hash (rowsAt table' hash key) (claimsTo hash key (earlier ++ writes)) := by
  induction writes with
  | nil =>
    intro table earlier h
    refine ⟨table, rfl, Kept.refl table, ?_⟩
    rwa [List.append_nil]
  | cons w writes ih =>
    intro table earlier h
    obtain ⟨status, next, hwrite, hkept, hown, hother⟩ :=
      write_slot (hb w (List.mem_cons_self ..)) (h w.1 w.2.claimKey)
    have hnext : ∀ hash key, Slot serde hash (rowsAt next hash key) (claimsTo hash key (earlier ++ [w])) := by
      intro hash key
      rw [claimsTo_append]
      by_cases hat : (hash, key) = (w.1, w.2.claimKey)
      · obtain ⟨rfl, rfl⟩ := Prod.mk.inj hat
        rw [if_pos rfl]
        exact hown
      · rw [if_neg hat, List.append_nil, hother hash key hat]
        exact h hash key
    obtain ⟨table', hrun, hkept', hslots⟩ := ih (fun v hv => hb v (List.mem_cons_of_mem _ hv)) hnext
    refine ⟨table', ?_, hkept.trans hkept', ?_⟩
    · rw [run, List.foldlM_cons, hwrite]
      exact hrun
    · rwa [List.append_assoc] at hslots

theorem empty_slots (serde : Serde V) (hash : UInt64) (key : Text) : Slot serde hash (rowsAt [] hash key) (claimsTo hash key []) :=
  ⟨List.Pairwise.nil, .inl ⟨rfl, rfl⟩⟩

def boolSerde : Serde Bool where
  print b := if b then "true".toList else "false".toList
  parse s := if s = "true".toList then some true else if s = "false".toList then some false else none
  parse_print v := by cases v <;> decide +kernel

def tierWrites : List (UInt64 × AnnotationClaim Bool) :=
  [(7, ⟨"frame".toList, .localModel, .confirmed, true, "onnx".toList, 1⟩),
    (7, ⟨"frame".toList, .deterministic, .confirmed, false, "rules".toList, 2⟩),
    (7, ⟨"frame".toList, .humanReview, .confirmed, false, "review".toList, 3⟩)]

theorem confirmed_is_highest_first (writes : List (UInt64 × AnnotationClaim V))
    (hb : ∀ w ∈ writes, w.1.toNat < 2 ^ 63) :
    ∃ table, run serde [] writes = .ok table ∧
      (∀ before after, writes = before ++ after → ∃ earlier, run serde [] before = .ok earlier ∧ Kept earlier table) ∧
      ∀ hash key, claimsTo hash key writes ≠ [] → ∃ first row, Leads (claimsTo hash key writes) first ∧
        (rowsAt table hash key).filter (·.status = statusAsText .confirmed) = [row] ∧
        row.tier = tierAsText first.tier ∧ row.payload = serde.print first.payload ∧
        read serde table hash key = .ok (some { first with status := .confirmed }) := by
  obtain ⟨table, hrun, -, hslots⟩ := run_slots hb (empty_slots serde)
  refine ⟨table, hrun, fun before after hsplit => ?_, fun hash key hwritten => ?_⟩
  · subst hsplit
    obtain ⟨earlier, hearlier, -, hmid⟩ :=
      run_slots (fun w hw => hb w (List.mem_append_left _ hw)) (empty_slots serde)
    obtain ⟨last, hlast, hkept, -⟩ := run_slots (fun w hw => hb w (List.mem_append_right _ hw)) hmid
    rw [run_append, hearlier] at hrun
    rw [← Except.ok.inj (hlast.symm.trans hrun)]
    exact ⟨earlier, hearlier, hkept⟩
  · rcases (hslots hash key).settled with ⟨hempty, -⟩ | ⟨first, claimId, hleads, hconf⟩
    · exact absurd hempty hwritten
    · refine ⟨first, _, hleads, hconf, rfl, rfl, ?_⟩
      rw [read, firstLive_eq hconf]
      simp only [rowToClaim_rowOf]
      rfl

theorem third_write_wins : ∃ table, run boolSerde [] tierWrites = .ok table ∧
      (∀ before after, tierWrites = before ++ after →
        ∃ earlier, run boolSerde [] before = .ok earlier ∧ Kept earlier table) ∧
      ∀ hash key, claimsTo hash key tierWrites ≠ [] → ∃ first row, Leads (claimsTo hash key tierWrites) first ∧
        (rowsAt table hash key).filter (·.status = statusAsText .confirmed) = [row] ∧
        row.tier = tierAsText first.tier ∧ row.payload = boolSerde.print first.payload ∧
        read boolSerde table hash key = .ok (some { first with status := .confirmed }) :=
  confirmed_is_highest_first tierWrites (by decide)

end AnnotationStore

end Fluent.Router.Ledger
