import Fluent.CommonCore.LoadCache
import Fluent.Library.HashContainers
import Fluent.Spacy.Hash

namespace Fluent.Router

open Fluent.Spacy (Text)
open Fluent.Library (HashMap)
open Fluent.CommonCore (LoadCache)

abbrev SnapshotKey := Text × Option Text × Text

inductive KvCacheError where
  | notFound (message : Text)
deriving DecidableEq

def modelKey (model : Text) : Text := model.map fun c => if c = '/' ∨ c = ':' then '_' else c

def joinPath (base path : Text) : Text :=
  if path.head? = some '/' then path
  else if base = [] ∨ base.getLast? = some '/' then base ++ path
  else base ++ '/' :: path

def kvSnapshotPath (slotSavePath model : Text) (instanceName : Option Text) (snapshotName : Text) : Text :=
  let dir := joinPath slotSavePath (modelKey model)
  match instanceName with
  | some instanceName => joinPath (joinPath dir instanceName) (snapshotName ++ ".bin".toList)
  | none => joinPath dir (snapshotName ++ ".bin".toList)

structure KvSnapshot where
  model : Text
  adapter : Option Text
  sessionId : Text
  snapshotName : Text
  instanceName : Option Text
  filePath : Text
  tokenCount : Option ℕ
  createdAt : ℕ
  lastUsedAt : ℕ
  llamaCppVersion : Option Text
  modelQuant : Option Text
  baseModelHash : Option Text
  turnSeq : Option ℕ
deriving DecidableEq

def KvSnapshot.key (snapshot : KvSnapshot) : SnapshotKey := (snapshot.model, snapshot.adapter, snapshot.sessionId)

structure ColdSnapshotIndex where
  slotSavePath : Option Text
  entries : HashMap SnapshotKey KvSnapshot
  ttlSecs : ℕ

namespace ColdSnapshotIndex

variable (cold : ColdSnapshotIndex)

def new (slotSavePath : Option Text) (ttlSecs : ℕ) : ColdSnapshotIndex := ⟨slotSavePath, ∅, ttlSecs⟩

def derivePath (snapshot : KvSnapshot) : Text :=
  match cold.slotSavePath with
  | some base => kvSnapshotPath base snapshot.model snapshot.instanceName snapshot.snapshotName
  | none => []

def stored (snapshot : KvSnapshot) : KvSnapshot := { snapshot with filePath := cold.derivePath snapshot }

def save (snapshot : KvSnapshot) : ColdSnapshotIndex :=
  { cold with entries := cold.entries.insert snapshot.key (cold.stored snapshot) }

def load (key : SnapshotKey) : Except KvCacheError KvSnapshot :=
  match cold.entries.lookup key with
  | some snapshot => .ok snapshot
  | none => .error (.notFound ("no snapshot for session '".toList ++ key.2.2 ++ "'".toList))

def live (ttlSecs now : ℕ) (snapshot : KvSnapshot) : Bool := now - snapshot.lastUsedAt < ttlSecs

def evict (now : ℕ) : ℕ × ColdSnapshotIndex :=
  let entries := HashMap.retain (fun _ snapshot => live cold.ttlSecs now snapshot) cold.entries
  (cold.entries.keys.card - entries.keys.card, { cold with entries := entries })

end ColdSnapshotIndex

structure SnapshotStore where
  hot : LoadCache SnapshotKey KvSnapshot
  cold : ColdSnapshotIndex

namespace SnapshotStore

variable (st : SnapshotStore)

def new (capacity : ℕ) (slotSavePath : Option Text) (ttlSecs : ℕ) : SnapshotStore :=
  ⟨.new (max capacity 1) (Nat.lt_of_lt_of_le Nat.one_pos (le_max_right _ _)), .new slotSavePath ttlSecs⟩

-- the cold tier has the derived path, the hot one the snapshot as it came
def store (snapshot : KvSnapshot) : SnapshotStore := ⟨st.hot.insert snapshot.key snapshot, st.cold.save snapshot⟩

def retrieve (key : SnapshotKey) : Except KvCacheError KvSnapshot × SnapshotStore :=
  match st.hot.get key with
  | (some snapshot, hot) => (.ok snapshot, ⟨hot, st.cold⟩)
  | (none, hot) =>
    match st.cold.load key with
    | .ok snapshot => (.ok snapshot, ⟨hot.insert key snapshot, st.cold⟩)
    | .error e => (.error e, ⟨hot, st.cold⟩)

def evict (now : ℕ) : ℕ × SnapshotStore :=
  let (evicted, cold) := st.cold.evict now
  (evicted, ⟨st.hot, cold⟩)

end SnapshotStore

inductive SnapshotCall where
  | store (snapshot : KvSnapshot)
  | retrieve (key : SnapshotKey)
  | evict (now : ℕ)

def SnapshotStore.answers (st : SnapshotStore) : List SnapshotCall → List (Except KvCacheError KvSnapshot)
  | [] => []
  | .store snapshot :: calls => (st.store snapshot).answers calls
  | .retrieve key :: calls => (st.retrieve key).1 :: (st.retrieve key).2.answers calls
  | .evict now :: calls => (st.evict now).2.answers calls

def ColdSnapshotIndex.answers (cold : ColdSnapshotIndex) : List SnapshotCall → List (Except KvCacheError KvSnapshot)
  | [] => []
  | .store snapshot :: calls => (cold.save snapshot).answers calls
  | .retrieve key :: calls => cold.load key :: cold.answers calls
  | .evict now :: calls => (cold.evict now).2.answers calls

abbrev LastStored := SnapshotKey → Option (KvSnapshot × List ℕ)

def LastStored.next (last : LastStored) : SnapshotCall → LastStored
  | .store snapshot => Function.update last snapshot.key (some (snapshot, []))
  | .retrieve _ => last
  | .evict now => fun key => (last key).map fun (snapshot, sweeps) => (snapshot, now :: sweeps)

def lastStored (calls : List SnapshotCall) : LastStored := calls.foldl LastStored.next fun _ => none

def InBothTiers (slotSavePath : Option Text) (ttlSecs : ℕ) (snapshot : KvSnapshot) (sweeps : List ℕ) : Prop :=
  snapshot.filePath = (ColdSnapshotIndex.new slotSavePath ttlSecs).derivePath snapshot ∧
    ∀ now ∈ sweeps, ColdSnapshotIndex.live ttlSecs now snapshot

section Transparent

variable {slotSavePath : Option Text} {ttlSecs : ℕ}

def ColdSnapshotIndex.expected (slotSavePath : Option Text) (ttlSecs : ℕ) (last : Option (KvSnapshot × List ℕ)) :
    Option KvSnapshot :=
  last.bind fun (snapshot, sweeps) =>
    if sweeps.all (ColdSnapshotIndex.live ttlSecs · snapshot) then
      some ((ColdSnapshotIndex.new slotSavePath ttlSecs).stored snapshot)
    else none

theorem expected_some (snapshot : KvSnapshot) (sweeps : List ℕ) :
    ColdSnapshotIndex.expected slotSavePath ttlSecs (some (snapshot, sweeps)) =
      if sweeps.all (ColdSnapshotIndex.live ttlSecs · snapshot) then
        some ((ColdSnapshotIndex.new slotSavePath ttlSecs).stored snapshot)
      else none := rfl

structure ColdHolds (slotSavePath : Option Text) (ttlSecs : ℕ) (last : LastStored) (cold : ColdSnapshotIndex) :
    Prop where
  path : cold.slotSavePath = slotSavePath
  ttl : cold.ttlSecs = ttlSecs
  entries : ∀ key, cold.entries.lookup key = ColdSnapshotIndex.expected slotSavePath ttlSecs (last key)

theorem ColdHolds.new : ColdHolds slotSavePath ttlSecs (fun _ => none) (.new slotSavePath ttlSecs) :=
  ⟨rfl, rfl, fun key => Finmap.lookup_empty key⟩

variable {last : LastStored} {cold : ColdSnapshotIndex} {hot : LoadCache SnapshotKey KvSnapshot}

theorem ColdHolds.save (h : ColdHolds slotSavePath ttlSecs last cold) (snapshot : KvSnapshot) :
    ColdHolds slotSavePath ttlSecs (last.next (.store snapshot)) (cold.save snapshot) := by
  obtain ⟨rfl, rfl, hentries⟩ := h
  refine ⟨rfl, rfl, fun key => ?_⟩
  rw [ColdSnapshotIndex.save, HashMap.lookup_insert_ite, LastStored.next, Function.update_apply]
  split
  · rfl
  · exact hentries key

theorem expected_sweep (now : ℕ) (entry : Option (KvSnapshot × List ℕ)) :
    ColdSnapshotIndex.expected slotSavePath ttlSecs (entry.map fun (snapshot, sweeps) => (snapshot, now :: sweeps)) =
      (ColdSnapshotIndex.expected slotSavePath ttlSecs entry).filter (ColdSnapshotIndex.live ttlSecs now) := by
  rcases entry with - | ⟨snapshot, sweeps⟩
  · rfl
  · have hstored : ColdSnapshotIndex.live ttlSecs now ((ColdSnapshotIndex.new slotSavePath ttlSecs).stored snapshot) =
        ColdSnapshotIndex.live ttlSecs now snapshot := rfl
    simp only [Option.map_some, expected_some, List.all_cons, Bool.and_eq_true]
    by_cases hsweeps : sweeps.all (ColdSnapshotIndex.live ttlSecs · snapshot)
    · rw [if_pos hsweeps, Option.filter_some, hstored]
      simp only [hsweeps, and_true]
    · rw [if_neg hsweeps, if_neg fun h => hsweeps h.2, Option.filter_none]

theorem ColdHolds.evict (h : ColdHolds slotSavePath ttlSecs last cold) (now : ℕ) :
    ColdHolds slotSavePath ttlSecs (last.next (.evict now)) (cold.evict now).2 := by
  obtain ⟨rfl, rfl, hentries⟩ := h
  refine ⟨rfl, rfl, fun key => ?_⟩
  change (HashMap.retain _ cold.entries).lookup key = _
  rw [HashMap.lookup_retain, hentries]
  exact (expected_sweep now (last key)).symm

def HotSound (slotSavePath : Option Text) (ttlSecs : ℕ) (last : LastStored)
    (hot : LoadCache SnapshotKey KvSnapshot) : Prop :=
  ∀ key found, hot.lookup key = some found → ∃ snapshot sweeps, last key = some (snapshot, sweeps) ∧
    (found = snapshot ∨ found = (ColdSnapshotIndex.new slotSavePath ttlSecs).stored snapshot)

theorem HotSound.insert (h : HotSound slotSavePath ttlSecs last hot) {key : SnapshotKey} {snapshot : KvSnapshot}
    {sweeps : List ℕ} {found : KvSnapshot} (hlast : last key = some (snapshot, sweeps))
    (hfound : found = snapshot ∨ found = (ColdSnapshotIndex.new slotSavePath ttlSecs).stored snapshot) :
    HotSound slotSavePath ttlSecs last (hot.insert key found) := by
  intro key' found' hlookup
  by_cases hkey : key' = key
  · subst hkey
    rw [LoadCache.lookup_insert_self] at hlookup
    obtain rfl := Option.some.inj hlookup
    exact ⟨snapshot, sweeps, hlast, hfound⟩
  · exact h key' found' (LoadCache.lookup_of_lookup_insert hkey hlookup)

theorem HotSound.store (h : HotSound slotSavePath ttlSecs last hot) (snapshot : KvSnapshot) :
    HotSound slotSavePath ttlSecs (last.next (.store snapshot)) (hot.insert snapshot.key snapshot) := by
  intro key found hlookup
  by_cases hkey : key = snapshot.key
  · subst hkey
    rw [LoadCache.lookup_insert_self] at hlookup
    exact ⟨snapshot, [], Function.update_self .., .inl (Option.some.inj hlookup).symm⟩
  · obtain ⟨snapshot', sweeps, hlast, hfound⟩ := h key found (LoadCache.lookup_of_lookup_insert hkey hlookup)
    exact ⟨snapshot', sweeps, (Function.update_of_ne hkey _ _).trans hlast, hfound⟩

theorem HotSound.evict (h : HotSound slotSavePath ttlSecs last hot) (now : ℕ) :
    HotSound slotSavePath ttlSecs (last.next (.evict now)) hot := by
  intro key found hlookup
  obtain ⟨snapshot, sweeps, hlast, hfound⟩ := h key found hlookup
  have hnext : last.next (.evict now) key = some (snapshot, now :: sweeps) := by
    change (last key).map _ = _
    rw [hlast, Option.map_some]
  exact ⟨snapshot, now :: sweeps, hnext, hfound⟩

def AsksBothTiers (slotSavePath : Option Text) (ttlSecs : ℕ) (last : LastStored) (calls : List SnapshotCall) : Prop :=
  ∀ before key after, calls = before ++ .retrieve key :: after → ∀ snapshot sweeps,
    before.foldl LastStored.next last key = some (snapshot, sweeps) → InBothTiers slotSavePath ttlSecs snapshot sweeps

theorem asksBothTiers_cons {call : SnapshotCall} {calls : List SnapshotCall} :
    AsksBothTiers slotSavePath ttlSecs last (call :: calls) ↔
      (∀ key, call = .retrieve key → ∀ snapshot sweeps, last key = some (snapshot, sweeps) →
        InBothTiers slotSavePath ttlSecs snapshot sweeps) ∧
      AsksBothTiers slotSavePath ttlSecs (last.next call) calls := by
  constructor
  · intro h
    refine ⟨fun key hcall => h [] key calls (by rw [hcall]; rfl), fun before key after hcalls => ?_⟩
    exact h (call :: before) key after (by rw [hcalls]; rfl)
  · rintro ⟨hhead, htail⟩ before key after hcalls
    cases before with
    | nil => exact hhead key (List.cons.inj hcalls).1
    | cons call' before =>
      obtain ⟨rfl, hrest⟩ := List.cons.inj hcalls
      exact htail before key after hrest

theorem stored_eq_self {snapshot : KvSnapshot} {sweeps : List ℕ}
    (h : InBothTiers slotSavePath ttlSecs snapshot sweeps) :
    (ColdSnapshotIndex.new slotSavePath ttlSecs).stored snapshot = snapshot := by
  rw [ColdSnapshotIndex.stored, ← h.1]

theorem ColdHolds.load_ok (h : ColdHolds slotSavePath ttlSecs last cold) {key : SnapshotKey} {snapshot : KvSnapshot}
    {sweeps : List ℕ} (hlast : last key = some (snapshot, sweeps))
    (hboth : InBothTiers slotSavePath ttlSecs snapshot sweeps) : cold.load key = .ok snapshot := by
  have hexpected : ColdSnapshotIndex.expected slotSavePath ttlSecs (last key) = some snapshot := by
    rw [hlast, expected_some, if_pos (List.all_eq_true.mpr hboth.2), stored_eq_self hboth]
  rw [ColdSnapshotIndex.load, h.entries, hexpected]

theorem ColdHolds.of_load_ok (h : ColdHolds slotSavePath ttlSecs last cold) {key : SnapshotKey} {found : KvSnapshot}
    (hload : cold.load key = .ok found) : ∃ snapshot sweeps, last key = some (snapshot, sweeps) ∧
      found = (ColdSnapshotIndex.new slotSavePath ttlSecs).stored snapshot ∧
      ∀ now ∈ sweeps, ColdSnapshotIndex.live ttlSecs now snapshot := by
  unfold ColdSnapshotIndex.load at hload
  rw [h.entries] at hload
  cases hlast : last key with
  | none =>
    rw [hlast] at hload
    cases hload
  | some entry =>
    obtain ⟨snapshot, sweeps⟩ := entry
    rw [hlast, expected_some] at hload
    by_cases hlive : sweeps.all (ColdSnapshotIndex.live ttlSecs · snapshot)
    · rw [if_pos hlive] at hload
      exact ⟨snapshot, sweeps, rfl, (Except.ok.inj hload).symm, List.all_eq_true.mp hlive⟩
    · rw [if_neg hlive] at hload
      cases hload

theorem answers_eq_of_asksBothTiers {calls : List SnapshotCall} (hcold : ColdHolds slotSavePath ttlSecs last cold)
    (hhot : HotSound slotSavePath ttlSecs last hot) (hasks : AsksBothTiers slotSavePath ttlSecs last calls) :
    (SnapshotStore.mk hot cold).answers calls = cold.answers calls := by
  induction calls generalizing last cold hot with
  | nil => rfl
  | cons call calls ih =>
    obtain ⟨hhead, htail⟩ := asksBothTiers_cons.mp hasks
    cases call with
    | store snapshot => exact ih (hcold.save snapshot) (hhot.store snapshot) htail
    | evict now => exact ih (hcold.evict now) (hhot.evict now) htail
    | retrieve key =>
      rw [SnapshotStore.answers, ColdSnapshotIndex.answers, SnapshotStore.retrieve, LoadCache.get]
      cases hlookup : hot.lookup key with
      | some found =>
        obtain ⟨snapshot, sweeps, hlast, hfound⟩ := hhot key found hlookup
        have hboth := hhead key rfl snapshot sweeps hlast
        rw [stored_eq_self hboth, or_self] at hfound
        subst hfound
        exact congrArg₂ _ (hcold.load_ok hlast hboth).symm (ih hcold (hhot.insert hlast (.inl rfl)) htail)
      | none =>
        cases hload : cold.load key with
        | error e => exact congrArg _ (ih hcold hhot htail)
        | ok found =>
          obtain ⟨snapshot, sweeps, hlast, hfound, -⟩ := hcold.of_load_ok hload
          exact congrArg _ (ih hcold (hhot.insert hlast (.inr hfound)) htail)

def HotFull (last : LastStored) (hot : LoadCache SnapshotKey KvSnapshot) : Prop :=
  ∀ key, hot.lookup key = (last key).map Prod.fst

theorem HotFull.store (h : HotFull last hot) (hroom : hot.entries.entries.length < hot.capacity)
    (snapshot : KvSnapshot) : HotFull (last.next (.store snapshot)) (hot.insert snapshot.key snapshot) := by
  intro key
  rw [LoadCache.lookup_insert_of_room hroom, LastStored.next, Function.update_apply]
  split
  · rfl
  · exact h key

theorem HotFull.evict (h : HotFull last hot) (now : ℕ) : HotFull (last.next (.evict now)) hot := by
  intro key
  rw [h, LastStored.next, Option.map_map]
  rfl

theorem asksBothTiers_of_answers_eq {calls : List SnapshotCall} (hcold : ColdHolds slotSavePath ttlSecs last cold)
    (hhot : HotFull last hot) (hroom : hot.entries.entries.length + calls.length ≤ hot.capacity)
    (h : (SnapshotStore.mk hot cold).answers calls = cold.answers calls) :
    AsksBothTiers slotSavePath ttlSecs last calls := by
  induction calls generalizing last cold hot with
  | nil =>
    intro before key after hcalls
    simp at hcalls
  | cons call calls ih =>
    rw [List.length_cons] at hroom
    rw [asksBothTiers_cons]
    cases call with
    | store snapshot =>
      refine ⟨(fun key hcall => nomatch hcall), ih (hcold.save snapshot) (hhot.store (by omega) snapshot) ?_ h⟩
      have hlength := hot.length_insert_le snapshot.key snapshot
      change _ ≤ hot.capacity
      omega
    | evict now =>
      exact ⟨(fun key hcall => nomatch hcall), ih (hcold.evict now) (hhot.evict now) (by omega) h⟩
    | retrieve key =>
      rw [SnapshotStore.answers, ColdSnapshotIndex.answers, SnapshotStore.retrieve, LoadCache.get, hhot key] at h
      cases hlast : last key with
      | none =>
        have hload : ∃ e, cold.load key = .error e := by
          rw [ColdSnapshotIndex.load, hcold.entries, hlast]
          exact ⟨_, rfl⟩
        obtain ⟨e, hload⟩ := hload
        rw [hlast, hload] at h
        refine ⟨fun key' hkey => ?_, ih hcold hhot (by omega) (List.cons.inj h).2⟩
        obtain rfl := SnapshotCall.retrieve.inj hkey
        rw [hlast]
        exact fun _ _ hsome => nomatch hsome
      | some entry =>
        obtain ⟨snapshot, sweeps⟩ := entry
        rw [hlast] at h
        obtain ⟨hload, hrest⟩ := List.cons.inj h
        have hfull : HotFull last (hot.insert key snapshot) := by
          intro key'
          rw [LoadCache.lookup_insert_of_room (by omega)]
          split
          · next hkey => rw [hkey, hlast, Option.map_some]
          · exact hhot key'
        refine ⟨fun key' hkey => ?_, ih hcold hfull ?_ hrest⟩
        · obtain rfl := SnapshotCall.retrieve.inj hkey
          intro snapshot' sweeps' hlast'
          obtain ⟨rfl, rfl⟩ := Prod.mk.inj (Option.some.inj (hlast.symm.trans hlast'))
          obtain ⟨_, _, hlast'', hfound, hlive⟩ := hcold.of_load_ok hload.symm
          obtain ⟨rfl, rfl⟩ := Prod.mk.inj (Option.some.inj (hlast.symm.trans hlast''))
          exact ⟨congrArg KvSnapshot.filePath hfound, hlive⟩
        · have hlength := hot.length_insert_le key snapshot
          change _ ≤ hot.capacity
          omega

theorem hot_tier_transparent_iff (slotSavePath : Option Text) (ttlSecs : ℕ) (calls : List SnapshotCall) :
    (∀ capacity, (SnapshotStore.new capacity slotSavePath ttlSecs).answers calls =
      (ColdSnapshotIndex.new slotSavePath ttlSecs).answers calls) ↔
    ∀ before key after, calls = before ++ .retrieve key :: after →
      ∀ snapshot sweeps, lastStored before key = some (snapshot, sweeps) →
        InBothTiers slotSavePath ttlSecs snapshot sweeps := by
  constructor
  · intro h
    refine asksBothTiers_of_answers_eq .new (fun key => LoadCache.lookup_new _ _ key) ?_ (h calls.length)
    change 0 + calls.length ≤ max calls.length 1
    omega
  · intro hasks capacity
    refine answers_eq_of_asksBothTiers .new (fun key found hlookup => ?_) hasks
    rw [LoadCache.lookup_new] at hlookup
    cases hlookup

def SnapshotStore.next (st : SnapshotStore) : SnapshotCall → SnapshotStore
  | .store snapshot => st.store snapshot
  | .retrieve key => (st.retrieve key).2
  | .evict now => (st.evict now).2

def Latest (slotSavePath : Option Text) (ttlSecs : ℕ) (last : Option (KvSnapshot × List ℕ)) :
    Except KvCacheError KvSnapshot → Prop
  | .ok found => ∃ snapshot sweeps, last = some (snapshot, sweeps) ∧
      (found = snapshot ∨ found = (ColdSnapshotIndex.new slotSavePath ttlSecs).stored snapshot)
  | .error _ => ∀ snapshot sweeps, last = some (snapshot, sweeps) →
      ∃ now ∈ sweeps, ColdSnapshotIndex.live ttlSecs now snapshot = false

theorem ColdHolds.of_load_error (h : ColdHolds slotSavePath ttlSecs last cold) {key : SnapshotKey} {e : KvCacheError}
    (hload : cold.load key = .error e) : Latest slotSavePath ttlSecs (last key) (.error e) := by
  intro snapshot sweeps hlast
  unfold ColdSnapshotIndex.load at hload
  rw [h.entries, hlast, expected_some] at hload
  by_contra hlive
  push Not at hlive
  have hall : sweeps.all (ColdSnapshotIndex.live ttlSecs · snapshot) = true :=
    List.all_eq_true.mpr fun now hnow => Bool.not_eq_false _ ▸ hlive now hnow
  rw [if_pos hall] at hload
  cases hload

theorem retrieve_tiers (hcold : ColdHolds slotSavePath ttlSecs last cold)
    (hhot : HotSound slotSavePath ttlSecs last hot) (key : SnapshotKey) :
    Latest slotSavePath ttlSecs (last key) ((SnapshotStore.mk hot cold).retrieve key).1 ∧
      ((SnapshotStore.mk hot cold).retrieve key).2.cold = cold ∧
      HotSound slotSavePath ttlSecs last ((SnapshotStore.mk hot cold).retrieve key).2.hot := by
  rw [SnapshotStore.retrieve, LoadCache.get]
  cases hlookup : hot.lookup key with
  | some found =>
    obtain ⟨snapshot, sweeps, hlast, hfound⟩ := hhot key found hlookup
    exact ⟨⟨snapshot, sweeps, hlast, hfound⟩, rfl, hhot.insert hlast hfound⟩
  | none =>
    dsimp only
    cases hload : cold.load key with
    | error e => exact ⟨hcold.of_load_error hload, rfl, hhot⟩
    | ok found =>
      obtain ⟨snapshot, sweeps, hlast, hfound, -⟩ := hcold.of_load_ok hload
      exact ⟨⟨snapshot, sweeps, hlast, .inr hfound⟩, rfl, hhot.insert hlast (.inr hfound)⟩

theorem tiers_run (calls : List SnapshotCall) {st : SnapshotStore} (hcold : ColdHolds slotSavePath ttlSecs last st.cold)
    (hhot : HotSound slotSavePath ttlSecs last st.hot) :
    ColdHolds slotSavePath ttlSecs (calls.foldl LastStored.next last) (calls.foldl SnapshotStore.next st).cold ∧
      HotSound slotSavePath ttlSecs (calls.foldl LastStored.next last) (calls.foldl SnapshotStore.next st).hot := by
  induction calls generalizing last st with
  | nil => exact ⟨hcold, hhot⟩
  | cons call calls ih =>
    cases call with
    | store snapshot => exact ih (hcold.save snapshot) (hhot.store snapshot)
    | evict now => exact ih (hcold.evict now) (hhot.evict now)
    | retrieve key =>
      obtain ⟨-, hsame, hhot'⟩ := retrieve_tiers hcold hhot key
      exact ih (hsame.symm ▸ hcold) hhot'

theorem retrieve_latest (capacity : ℕ) (slotSavePath : Option Text) (ttlSecs : ℕ) (calls : List SnapshotCall)
    (key : SnapshotKey) : Latest slotSavePath ttlSecs (lastStored calls key)
      ((calls.foldl SnapshotStore.next (.new capacity slotSavePath ttlSecs)).retrieve key).1 := by
  have hempty : HotSound slotSavePath ttlSecs (fun _ => none) (SnapshotStore.new capacity slotSavePath ttlSecs).hot :=
    fun key found hfound => nomatch (LoadCache.lookup_new _ _ key).symm.trans hfound
  obtain ⟨hcold, hhot⟩ := tiers_run calls ColdHolds.new hempty
  exact (retrieve_tiers hcold hhot key).1

end Transparent

def sessionSnapshot (sessionId : Text) : KvSnapshot :=
  ⟨['m'], none, sessionId, ['s'], none, [], none, 0, 0, none, none, none, none⟩

theorem capacity_decides_answer :
    let calls : List SnapshotCall := [.store (sessionSnapshot ['a']), .store (sessionSnapshot ['b']), .evict 60,
      .retrieve (sessionSnapshot ['a']).key]
    (SnapshotStore.new 1 (some ['k', 'v']) 60).answers calls =
        [.error (.notFound "no snapshot for session 'a'".toList)] ∧
      (SnapshotStore.new 2 (some ['k', 'v']) 60).answers calls = [.ok (sessionSnapshot ['a'])] := by
  decide +kernel

end Fluent.Router
