import Mathlib.Data.UInt
import Fluent.Library.Runs
import Fluent.Router.Ledger.Annotations

namespace Fluent.Router.Ledger.AnnotationStore

open Fluent.Library
open Fluent.Spacy (Text)

variable {V : Type} (serde : Serde V)

def activeOrder (a b : AnnotationRow) : Bool :=
  a.claimKey < b.claimKey ∨ a.claimKey = b.claimKey ∧ a.claimId ≤ b.claimId

def readActive (table : List AnnotationRow) (hash : UInt64) : Except DbError (List (AnnotationClaim V)) :=
  ((table.filter fun row => row.contentHash = hash.toInt64 ∧ row.status = statusAsText .confirmed).mergeSort
    activeOrder).mapM (rowToClaim serde)

def history (table : List AnnotationRow) (hash : UInt64) (key : Text) : Except DbError (List (AnnotationClaim V)) :=
  ((rowsAt table hash key).mergeSort fun a b => a.claimId ≤ b.claimId).mapM (rowToClaim serde)

inductive Call (V : Type)
  | write (claim : AnnotationClaim V)
  | read (key : Text)
  | readActive
  | history (key : Text)

deriving instance DecidableEq for AnnotationClaim

inductive Outcome (V : Type)
  | status (result : Except DbError ClaimStatus)
  | claim (result : Except DbError (Option (AnnotationClaim V)))
  | claims (result : Except DbError (List (AnnotationClaim V)))
deriving DecidableEq

def exec (hash : UInt64) (table : List AnnotationRow) : Call V → Outcome V × List AnnotationRow
  | .write claim =>
    match write serde table hash claim with
    | .ok (status, table') => (.status (.ok status), table')
    | .error e => (.status (.error e), table)
  | .read key => (.claim (read serde table hash key), table)
  | .readActive => (.claims (readActive serde table hash), table)
  | .history key => (.claims (history serde table hash key), table)

def outcomes (hash : UInt64) : List AnnotationRow → List (Call V) → List (Outcome V)
  | _, [] => []
  | table, call :: calls => (exec serde hash table call).1 :: outcomes hash (exec serde hash table call).2 calls

def Binds (hash : UInt64) : Prop := hash.toNat < 2 ^ 63

instance : DecidablePred Binds := fun hash => inferInstanceAs (Decidable (hash.toNat < 2 ^ 63))

def Supersedes (hash : UInt64) (table : List AnnotationRow) (call : Call V) : Prop :=
  ∃ claim cur, call = .write claim ∧ currentRow table hash claim.claimKey = .ok (some cur) ∧ cur.tier < claim.tier

def rehash (hash : UInt64) (row : AnnotationRow) : AnnotationRow := { row with contentHash := hash.toInt64 }

def moved (table : List AnnotationRow) (hash hash' : UInt64) : List AnnotationRow :=
  (table.filter (·.contentHash = hash.toInt64)).map (rehash hash')

variable {serde} {table : List AnnotationRow} {hash hash' : UInt64} {key : Text}

theorem argmin_map {α β γ : Type} [LinearOrder γ] (f : α → β) (g : β → γ) (l : List α) :
    (l.map f).argmin g = (l.argmin (g ∘ f)).map f := by
  induction l with
  | nil => rfl
  | cons a l ih =>
    rw [List.map_cons, List.argmin_cons, List.argmin_cons, ih]
    cases l.argmin (g ∘ f) with
    | none => rfl
    | some c =>
      change (if g (f c) < g (f a) then some (f c) else some (f a)) =
        (if g (f c) < g (f a) then some c else some a).map f
      split_ifs <;> rfl

theorem firstLive_rehash (rows : List AnnotationRow) :
    firstLive (rows.map (rehash hash')) = (firstLive rows).map (rehash hash') := by
  unfold firstLive
  rw [List.filter_map, argmin_map]
  rfl

theorem rowsAt_moved : rowsAt (moved table hash hash') hash' key = (rowsAt table hash key).map (rehash hash') := by
  unfold rowsAt moved
  rw [List.filter_map, List.filter_filter]
  congr 1
  refine List.filter_congr fun row _ => ?_
  change (decide (hash'.toInt64 = hash'.toInt64 ∧ row.claimKey = key) && decide (row.contentHash = hash.toInt64)) = _
  rw [Bool.eq_iff_iff]
  simp [and_comm]

theorem currentRow_moved : currentRow (moved table hash hash') hash' key = currentRow table hash key := by
  unfold currentRow
  rw [rowsAt_moved, firstLive_rehash]
  cases firstLive (rowsAt table hash key) <;> rfl

theorem read_moved : read serde (moved table hash hash') hash' key = read serde table hash key := by
  unfold read
  rw [rowsAt_moved, firstLive_rehash]
  cases firstLive (rowsAt table hash key) <;> rfl

theorem nextClaimId_moved : nextClaimId (moved table hash hash') hash' key = nextClaimId table hash key := by
  unfold nextClaimId
  rw [rowsAt_moved, List.map_map]
  rfl

theorem mapM_sorted_rehash (order : AnnotationRow → AnnotationRow → Bool)
    (horder : ∀ a b, order a b = order (rehash hash' a) (rehash hash' b)) (rows : List AnnotationRow) :
    ((rows.map (rehash hash')).mergeSort order).mapM (rowToClaim serde) =
      (rows.mergeSort order).mapM (rowToClaim serde) := by
  rw [← List.map_mergeSort fun a _ b _ => horder a b, List.mapM_map]
  rfl

theorem history_moved : history serde (moved table hash hash') hash' key = history serde table hash key := by
  unfold history
  rw [rowsAt_moved]
  exact mapM_sorted_rehash _ (fun _ _ => rfl) _

theorem readActive_moved : readActive serde (moved table hash hash') hash' = readActive serde table hash := by
  unfold readActive moved
  rw [List.filter_map, List.filter_filter, mapM_sorted_rehash activeOrder fun _ _ => rfl]
  congr 3
  funext row
  change (decide (hash'.toInt64 = hash'.toInt64 ∧ row.status = statusAsText .confirmed) &&
    decide (row.contentHash = hash.toInt64)) = _
  rw [Bool.eq_iff_iff]
  simp [and_comm]

theorem moved_withClaim (claim : AnnotationClaim V) (status : ClaimStatus) :
    moved (withClaim serde table hash claim status) hash hash' =
      withClaim serde (moved table hash hash') hash' claim status := by
  unfold withClaim
  rw [nextClaimId_moved, moved, List.filter_append, List.map_append]
  simp [rowOf, rehash, moved]

theorem moved_supersede (claimId : ℤ) :
    moved (table.map (supersedeRow hash.toInt64 key claimId)) hash hash' =
      (moved table hash hash').map (supersedeRow hash'.toInt64 key claimId) := by
  unfold moved
  rw [List.filter_map, List.map_map, List.map_map]
  have hkeep : (table.filter ((fun row => decide (row.contentHash = hash.toInt64)) ∘
      supersedeRow hash.toInt64 key claimId)) = table.filter (·.contentHash = hash.toInt64) :=
    List.filter_congr fun row _ => by simp only [Function.comp, (supersedeRow_key ..).1]
  rw [hkeep]
  refine List.map_congr_left fun row hrow => ?_
  have hhash : row.contentHash = hash.toInt64 := of_decide_eq_true (List.mem_filter.mp hrow).2
  by_cases hsame : row.claimKey = key ∧ row.claimId = claimId
  · simp [supersedeRow, rehash, hhash, hsame]
  · simp [supersedeRow, rehash, hhash, hsame]

theorem supersede_eq_error (hb : ¬ Binds hash) (claimId : ℤ) : supersede table hash key claimId = .error .sqlite := by
  have hbind : bindHash hash = .error .sqlite := if_neg hb
  unfold supersede
  rw [hbind]
  rfl

theorem supersedes_moved {call : Call V} :
    Supersedes hash' (moved table hash hash') call ↔ Supersedes hash table call := by
  unfold Supersedes
  simp only [currentRow_moved]

theorem write_moved {claim : AnnotationClaim V}
    (h : (Binds hash ↔ Binds hash') ∨ ¬ Supersedes hash table (.write claim)) :
    write serde (moved table hash hash') hash' claim =
      (write serde table hash claim).map fun out => (out.1, moved out.2 hash hash') := by
  have hinsert : ∀ (t : List AnnotationRow) (status : ClaimStatus),
      insertRow serde (moved t hash hash') hash' (nextClaimId (moved t hash hash') hash' claim.claimKey) claim status =
        (insertRow serde t hash (nextClaimId t hash claim.claimKey) claim status).map (moved · hash hash') := by
    intro t status
    rw [insertRow_eq, insertRow_eq]
    exact congrArg Except.ok (moved_withClaim claim status).symm
  unfold write
  rw [currentRow_moved]
  cases hcur : currentRow table hash claim.claimKey with
  | error e => rfl
  | ok cur =>
    cases cur with
    | none =>
      simp only [bind, Except.bind, hinsert, insertRow_eq, Except.map, pure, Except.pure]
    | some cur =>
      simp only [bind, Except.bind]
      split_ifs with hlt heq
      · have hsame : Binds hash ↔ Binds hash' := h.resolve_right fun hn => hn ⟨claim, cur, rfl, hcur, hlt⟩
        by_cases hb : Binds hash
        · simp only [supersede_eq hb, supersede_eq (hsame.mp hb), ← moved_supersede, hinsert, insertRow_eq, Except.map,
            pure, Except.pure]
        · simp only [supersede_eq_error hb, supersede_eq_error (mt hsame.mpr hb), Except.map]
      · rfl
      · simp only [hinsert, insertRow_eq, Except.map, pure, Except.pure]

theorem exec_moved {call : Call V} (h : (Binds hash ↔ Binds hash') ∨ ¬ Supersedes hash table call) :
    exec serde hash' (moved table hash hash') call =
      ((exec serde hash table call).1, moved (exec serde hash table call).2 hash hash') := by
  cases call with
  | write claim =>
    simp only [exec]
    rw [write_moved h]
    cases write serde table hash claim <;> rfl
  | read key => simp only [exec, read_moved]
  | readActive => simp only [exec, readActive_moved]
  | history key => simp only [exec, history_moved]

def NoneSupersedes (serde : Serde V) (hash : UInt64) (table : List AnnotationRow) (calls : List (Call V)) : Prop :=
  Respects (fun table call => (exec serde hash table call).2) (fun table call => ¬ Supersedes hash table call) table calls

theorem noneSupersedes_moved (hash' : UInt64) (calls : List (Call V)) :
    NoneSupersedes serde hash' (moved table hash hash') calls ↔ NoneSupersedes serde hash table calls := by
  induction calls generalizing table with
  | nil => exact Iff.rfl
  | cons call calls ih =>
    simp only [NoneSupersedes, Respects, supersedes_moved]
    refine and_congr_right fun hnone => ?_
    rw [exec_moved (.inr hnone)]
    exact ih

theorem outcomes_moved (h : Binds hash ↔ Binds hash') (calls : List (Call V)) :
    outcomes serde hash' (moved table hash hash') calls = outcomes serde hash table calls := by
  induction calls generalizing table with
  | nil => rfl
  | cons call calls ih =>
    simp only [outcomes, exec_moved (.inl h), ih]

theorem exec_supersedes {call : Call V} (hsup : Supersedes hash table call) :
    (exec serde hash table call).1 = .status (if Binds hash then .ok .confirmed else .error .sqlite) := by
  obtain ⟨claim, cur, rfl, hcur, hlt⟩ := hsup
  simp only [exec]
  split_ifs with hb
  · rw [write_higher hcur hb hlt]
  · have hwrite : write serde table hash claim = .error .sqlite := by
      rw [write, hcur]
      simp only [bind, Except.bind, if_pos hlt, supersede_eq_error hb]
    rw [hwrite]

theorem outcomes_moved_iff (serde : Serde V) (table : List AnnotationRow) (hb : Binds hash) (hb' : ¬ Binds hash') (calls : List (Call V)) :
    outcomes serde hash' (moved table hash hash') calls = outcomes serde hash table calls ↔
      NoneSupersedes serde hash table calls := by
  induction calls generalizing table with
  | nil => exact iff_of_true rfl trivial
  | cons call calls ih =>
    simp only [outcomes, NoneSupersedes, Respects]
    by_cases hsup : Supersedes hash table call
    · refine iff_of_false (fun heq => ?_) fun hr => hr.1 hsup
      have hhead := (List.cons.inj heq).1
      rw [exec_supersedes (supersedes_moved.mpr hsup), exec_supersedes hsup, if_pos hb, if_neg hb'] at hhead
      cases hhead
    · rw [exec_moved (.inr hsup), and_iff_right hsup, List.cons.injEq, and_iff_right rfl]
      exact ih _

theorem moved_eq_nil (h : ∀ row ∈ table, row.contentHash ≠ hash.toInt64) : moved table hash hash' = [] := by
  rw [moved, List.map_eq_nil_iff, List.filter_eq_nil_iff]
  exact fun row hrow => by simpa using h row hrow

theorem outcomes_eq_iff (serde : Serde V) (table : List AnnotationRow) (hash hash' : UInt64)
    (hfresh : ∀ row ∈ table, row.contentHash ≠ hash.toInt64 ∧ row.contentHash ≠ hash'.toInt64)
    (calls : List (Call V)) :
    outcomes serde hash table calls = outcomes serde hash' table calls ↔
      (Binds hash ↔ Binds hash') ∨ NoneSupersedes serde hash table calls := by
  have hnil : ∀ k, moved table hash k = [] := fun k => moved_eq_nil fun row hrow => (hfresh row hrow).1
  have hnil' : ∀ k, moved table hash' k = [] := fun k => moved_eq_nil fun row hrow => (hfresh row hrow).2
  have hout : outcomes serde hash table calls = outcomes serde hash [] calls :=
    (hnil hash ▸ outcomes_moved Iff.rfl calls).symm
  have hout' : outcomes serde hash' table calls = outcomes serde hash' [] calls :=
    (hnil' hash' ▸ outcomes_moved Iff.rfl calls).symm
  have hsup : NoneSupersedes serde hash table calls ↔ NoneSupersedes serde hash [] calls :=
    (hnil hash ▸ noneSupersedes_moved hash calls).symm
  have hempty : ∀ k k', moved [] k k' = [] := fun _ _ => rfl
  rw [hout, hout', hsup]
  by_cases hb : Binds hash <;> by_cases hb' : Binds hash'
  · exact iff_of_true (hempty hash hash' ▸ outcomes_moved (iff_of_true hb hb') calls).symm (.inl (iff_of_true hb hb'))
  · rw [eq_comm, or_iff_right fun h => hb' (h.mp hb)]
    have hiff := outcomes_moved_iff serde [] hb hb' calls
    rwa [hempty] at hiff
  · rw [or_iff_right fun h => hb (h.mpr hb')]
    have hiff := outcomes_moved_iff serde [] hb' hb calls
    rw [hempty] at hiff
    rw [hiff, ← noneSupersedes_moved hash, hempty]
  · exact iff_of_true (hempty hash hash' ▸ outcomes_moved (iff_of_false hb hb') calls).symm
      (.inl (iff_of_false hb hb'))

def boolClaim (tier : ProvenanceTier) : AnnotationClaim Bool := ⟨['k'], tier, .provisional, true, [], 0⟩

theorem outcomes_eq_low_hashes :
    outcomes boolSerde 1 [] [.write (boolClaim .deterministic), .write (boolClaim .frontier)] =
      outcomes boolSerde 2 [] [.write (boolClaim .deterministic), .write (boolClaim .frontier)] :=
  (outcomes_eq_iff boolSerde [] 1 2 (fun _ h => nomatch h) _).mpr (.inl (by decide))

theorem high_hash_refuses_supersede :
    outcomes boolSerde 1 [] [.write (boolClaim .deterministic), .write (boolClaim .frontier)] =
        [.status (.ok .confirmed), .status (.ok .confirmed)] ∧
      outcomes boolSerde (2 ^ 63) [] [.write (boolClaim .deterministic), .write (boolClaim .frontier)] =
        [.status (.ok .confirmed), .status (.error .sqlite)] := by
  decide +kernel

end Fluent.Router.Ledger.AnnotationStore
