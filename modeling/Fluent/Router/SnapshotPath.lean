import Fluent.Library.Substring
import Fluent.Router.KvCache
import Mathlib.Data.List.Basic

namespace Fluent.Router

open Fluent.Library
open Fluent.Spacy (Text)

def IsComponent (segment : Text) : Prop := segment ≠ [] ∧ segment ≠ ['.']

instance (segment : Text) : Decidable (IsComponent segment) := inferInstanceAs (Decidable (_ ∧ _))

def components (path : Text) : Bool × List Text :=
  let segments := path.splitOnP (· == '/')
  (path.head? == some '/', (if segments.head? = some ['.'] then [['.']] else []) ++ segments.filter IsComponent)

/-- A snapshot by names: a model `base:variant`, and an instance and a snapshot without separators. -/
structure SnapshotName where
  model : Text
  instanceName : Option Text
  snapshotName : Text
  variant : ':' ∈ model
  instance_separator : ∀ name ∈ instanceName, '/' ∉ name
  snapshot_separator : '/' ∉ snapshotName

namespace SnapshotName

def path (slotSavePath : Text) (a : SnapshotName) : Text :=
  kvSnapshotPath slotSavePath a.model a.instanceName a.snapshotName

def owner (a : SnapshotName) : List Text := a.instanceName.toList.filter IsComponent

def Alike (c d : Char) : Prop := c = d ∨ c ∈ ['/', ':', '_'] ∧ d ∈ ['/', ':', '_']

def Flat (instanceName : Option Text) : Prop := instanceName = none ∨ instanceName = some [] ∨ instanceName = some ['.']

structure Interchangeable (a b : SnapshotName) : Prop where
  model : List.Forall₂ Alike a.model b.model
  instanceName : a.instanceName = b.instanceName ∨ Flat a.instanceName ∧ Flat b.instanceName
  snapshotName : a.snapshotName = b.snapshotName

end SnapshotName

theorem components_append (base name : Text) (h : '/' ∉ name) :
    components (base ++ '/' :: name) =
      ((base ++ ['/']).head? == some '/', (components base).2 ++ [name].filter IsComponent) := by
  have hsplit : (base ++ '/' :: name).splitOnP (· == '/') = base.splitOnP (· == '/') ++ [name] := by
    rw [List.splitOnP_append_cons _ _ (by simp), splitOnP_of_notMem h]
  have hne : base.splitOnP (· == '/') ≠ [] := List.splitOnP_ne_nil _ _
  simp only [components, hsplit, List.filter_append, List.append_assoc, List.head?_append_of_ne_nil _ hne]
  cases base <;> rfl

theorem components_joinPath {base name : Text} (h : '/' ∉ name) (hbase : base ≠ [] ∨ IsComponent name) :
    components (joinPath base name) = ((components base).1, (components base).2 ++ [name].filter IsComponent) := by
  have hhead : name.head? ≠ some '/' := fun hc => h (List.mem_of_head? hc)
  rw [joinPath, if_neg hhead]
  split
  · rename_i hor
    obtain rfl | hlast := hor
    · have hname : IsComponent name := hbase.resolve_left fun hne => hne rfl
      simp [components, splitOnP_of_notMem h, hname.2, hhead, IsComponent]
    · obtain ⟨b, rfl⟩ : ∃ b, base = b ++ ['/'] := by
        obtain ⟨hne, hget⟩ := List.getLast?_eq_some_iff.mp hlast
        exact ⟨_, hget⟩
      have hnil : components (b ++ ['/']) = _ := components_append b [] (by simp)
      rw [List.append_assoc, List.singleton_append, components_append b name h, hnil]
      simp [IsComponent]
  · rename_i hor
    rw [not_or] at hor
    rw [components_append base name h]
    obtain ⟨c, base, rfl⟩ := List.exists_cons_of_ne_nil hor.1
    rfl

theorem separator_notMem_modelKey (model : Text) : '/' ∉ modelKey model := by
  intro h
  obtain ⟨c, -, hc⟩ := List.mem_map.mp h
  split at hc
  · cases hc
  · rename_i hno
    exact hno (Or.inl hc)

theorem isComponent_modelKey {model : Text} (h : ':' ∈ model) : IsComponent (modelKey model) := by
  have hmem : '_' ∈ modelKey model := List.mem_map.mpr ⟨':', h, rfl⟩
  constructor <;> intro hkey <;> rw [hkey] at hmem <;> simp at hmem

theorem isComponent_bin (snapshotName : Text) : IsComponent (snapshotName ++ ".bin".toList) := by
  constructor <;> intro h <;> have hlength := congrArg List.length h <;> simp at hlength

theorem joinPath_ne_nil {base name : Text} (h : name ≠ []) : joinPath base name ≠ [] := by
  rw [joinPath]
  split
  · exact h
  · split <;> simp [h]

theorem modelKey_eq_iff (m n : Text) : modelKey m = modelKey n ↔ List.Forall₂ SnapshotName.Alike m n := by
  induction m generalizing n with
  | nil => cases n <;> simp [modelKey]
  | cons c m ih =>
    cases n with
    | nil => simp [modelKey]
    | cons d n =>
      have hchar : ((if c = '/' ∨ c = ':' then '_' else c) = if d = '/' ∨ d = ':' then '_' else d) ↔
          SnapshotName.Alike c d := by
        simp only [SnapshotName.Alike, List.mem_cons, List.not_mem_nil, or_false]
        split <;> split <;> grind
      rw [List.forall₂_cons, ← ih n, ← hchar]
      simp only [modelKey, List.map_cons, List.cons.injEq]

namespace SnapshotName

variable (slotSavePath : Text) (a b : SnapshotName)

theorem components_path :
    components (a.path slotSavePath) =
      ((components slotSavePath).1,
        (components slotSavePath).2 ++ (modelKey a.model :: (a.owner ++ [a.snapshotName ++ ".bin".toList]))) := by
  have hkey := isComponent_modelKey a.variant
  have hbin := isComponent_bin a.snapshotName
  have hsep : '/' ∉ a.snapshotName ++ ".bin".toList := by simp [a.snapshot_separator]
  have hdir : joinPath slotSavePath (modelKey a.model) ≠ [] := joinPath_ne_nil hkey.1
  have hcomponents : components (joinPath slotSavePath (modelKey a.model)) = _ :=
    components_joinPath (separator_notMem_modelKey a.model) (Or.inr hkey)
  simp only [path, owner, kvSnapshotPath]
  generalize a.snapshotName ++ ".bin".toList = file at *
  cases hinstance : a.instanceName with
  | none =>
    simp only [components_joinPath hsep (Or.inl hdir), hcomponents]
    simp [hkey, hbin]
  | some name =>
    have hname := a.instance_separator name hinstance
    simp only [components_joinPath hsep (Or.inr hbin), components_joinPath hname (Or.inl hdir), hcomponents]
    by_cases hcomponent : IsComponent name <;> simp [hkey, hbin, hcomponent]

theorem flat_iff (instanceName : Option Text) : Flat instanceName ↔ instanceName.toList.filter IsComponent = [] := by
  cases instanceName with
  | none => simp [Flat]
  | some name =>
    by_cases hname : IsComponent name
    · simp [Flat, hname, hname.1, hname.2]
    · simpa [Flat, hname] using or_iff_not_and_not.mpr hname

theorem owner_eq_iff :
    a.owner = b.owner ↔ a.instanceName = b.instanceName ∨ Flat a.instanceName ∧ Flat b.instanceName := by
  simp only [flat_iff, owner]
  cases ha : a.instanceName with
  | none => cases hb : b.instanceName <;> simp [eq_comm (a := ([] : List Text))]
  | some name =>
    cases hb : b.instanceName with
    | none => simp
    | some name' =>
      by_cases hname : IsComponent name <;> by_cases hname' : IsComponent name' <;> simp [hname, hname']
      · rintro rfl
        exact hname' hname
      · rintro rfl
        exact hname hname'

theorem path_eq_iff :
    components (a.path slotSavePath) = components (b.path slotSavePath) ↔ Interchangeable a b := by
  have hrest : modelKey a.model :: (a.owner ++ [a.snapshotName ++ ".bin".toList]) =
      modelKey b.model :: (b.owner ++ [b.snapshotName ++ ".bin".toList]) ↔
      modelKey a.model = modelKey b.model ∧ a.owner = b.owner ∧ a.snapshotName = b.snapshotName := by
    rw [List.cons.injEq]
    refine and_congr_right fun _ => ⟨fun h => ?_, fun h => by rw [h.1, h.2]⟩
    obtain ⟨howner, hfile⟩ := List.append_inj' h rfl
    exact ⟨howner, List.append_cancel_right (List.singleton_inj.mp hfile)⟩
  rw [components_path, components_path, Prod.mk.injEq, List.append_cancel_left_eq, hrest, modelKey_eq_iff,
    owner_eq_iff]
  constructor
  · rintro ⟨-, hmodel, hinstance, hsnapshot⟩
    exact ⟨hmodel, hinstance, hsnapshot⟩
  · rintro ⟨hmodel, hinstance, hsnapshot⟩
    exact ⟨rfl, hmodel, hinstance, hsnapshot⟩

theorem kv_snapshot_path_distinct_iff :
    (a ≠ b → components (a.path slotSavePath) ≠ components (b.path slotSavePath)) ↔
      (a ≠ b → ¬ Interchangeable a b) := by
  rw [Ne, Ne, path_eq_iff]

def qwen8b : SnapshotName := ⟨"qwen_8b:q4".toList, none, "base".toList, by decide, by simp, by decide⟩

def qwen8bQ4 : SnapshotName := ⟨"qwen:8b_q4".toList, none, "base".toList, by decide, by simp, by decide⟩

theorem qwen_snapshots_collide :
    qwen8b.model ≠ qwen8bQ4.model ∧ qwen8b.path "kv".toList = "kv/qwen_8b_q4/base.bin".toList ∧
      qwen8bQ4.path "kv".toList = "kv/qwen_8b_q4/base.bin".toList := by
  decide

end SnapshotName

end Fluent.Router
