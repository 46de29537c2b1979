import CraftPanel.Model
import Mathlib.Data.Char
import Mathlib.Data.List.Lex
import Mathlib.Data.List.Sort
import Mathlib.Data.List.DropRight

/-!
# Content items

`content/store.rs`: the rows of `content_items`, the two paths one of them can have, and the
statements on the table. The table has two unique keys, the id and the path on one server, and
`upsert` knows of the first one only.
-/

namespace CraftPanel.Content

abbrev Text := List Char

inductive ContentProjectType
  | mod | plugin | datapack | resourcepack | shader
  deriving DecidableEq

inductive ContentSourceKind
  | local | modrinthModpack | serverProject
  deriving DecidableEq

structure ItemRow where
  id : Id
  serverId : Id
  fileName : Text
  filePath : Text
  sizeBytes : Nat := 0
  enabled : Bool := true
  locked : Bool := false
  projectType : ContentProjectType := .mod
  sourceKind : ContentSourceKind := .local
  environment : Option String := none
  packClientDepends : Bool := false
  external : Bool := false
  externalUrl : Option String := none
  sha512 : Option String := none
  projectId : Option String := none
  versionId : Option String := none
  hasUpdate : Bool := false
  updateVersionId : Option String := none
  dateAdded : Timestamp := 0
  deriving DecidableEq

def rsplitOnce (separator : Char) : Text → Option (Text × Text)
  | [] => none
  | letter :: text =>
    match rsplitOnce separator text with
    | some (before, after) => some (letter :: before, after)
    | none => if letter = separator then some ([], text) else none

def disabled : Text := ".disabled".toList

def fileNameOf (path : Text) : Text :=
  match rsplitOnce '/' path with
  | some (_, name) => name
  | none => path

def basePath (path : Text) : Text :=
  if disabled.isSuffixOf path then path.take (path.length - disabled.length) else path

def toggled (path : Text) (enabled : Bool) : Text :=
  let base := basePath path
  if enabled then base else base ++ disabled

section Paths

variable {separator : Char} {path text before after : Text}

theorem rsplitOnce_none : rsplitOnce separator text = none ↔ separator ∉ text := by
  induction text with
  | nil => simp [rsplitOnce]
  | cons letter text ih =>
    rw [rsplitOnce]
    cases hrest : rsplitOnce separator text with
    | some found =>
      have hmem : separator ∈ text := by
        by_contra hnot
        rw [ih.mpr hnot] at hrest
        cases hrest
      simp [hmem]
    | none =>
      have hnot := ih.mp hrest
      by_cases hletter : letter = separator
      · simp [hletter]
      · simp [hletter, hnot, Ne.symm hletter]

theorem rsplitOnce_append (h : separator ∉ after) :
    rsplitOnce separator (before ++ separator :: after) = some (before, after) := by
  induction before with
  | nil => simp [rsplitOnce, rsplitOnce_none.mpr h]
  | cons letter before ih => rw [List.cons_append, rsplitOnce, ih]

@[simp] theorem basePath_append : basePath (path ++ disabled) = path := by
  have hsuffix : disabled.isSuffixOf (path ++ disabled) = true := by
    simp
  rw [basePath, if_pos hsuffix, List.length_append, Nat.add_sub_cancel]
  exact List.take_left

theorem basePath_of_not_suffix (h : ¬ disabled <:+ path) : basePath path = path := by
  rw [basePath, if_neg (by simpa using h)]

theorem eq_basePath_or (path : Text) : path = basePath path ∨ path = basePath path ++ disabled := by
  by_cases hsuffix : disabled <:+ path
  · obtain ⟨base, rfl⟩ := hsuffix
    rw [basePath_append]
    exact .inr rfl
  · exact .inl (basePath_of_not_suffix hsuffix).symm

theorem le_append : path ≤ path ++ text := by
  induction path with
  | nil => exact le_of_not_gt (List.not_lt_nil text)
  | cons letter path ih => exact List.cons_le_cons letter ih

theorem lt_disabled (path : Text) : path < path ++ disabled := by
  apply lt_of_le_of_ne le_append
  intro he
  have hlength := congrArg List.length he
  rw [List.length_append] at hlength
  have hpos : disabled.length = 9 := rfl
  omega

end Paths

inductive SqlFault
  | unique
  deriving DecidableEq

/-- `content_items`. -/
structure Items where
  rows : List ItemRow := []
  /-- The identifiers from here on were never given. -/
  nextId : Id := 0
  ids : (rows.map ItemRow.id).Nodup := by decide
  paths : (rows.map fun row => (row.serverId, row.filePath)).Nodup := by decide
  drawn : ∀ row ∈ rows, row.id < nextId := by decide

/-- `ItemRow::fresh`; the row is dated by its caller. -/
def ItemRow.fresh (id server : Id) (path : Text) (projectType : ContentProjectType)
    (now : Timestamp) : ItemRow where
  id := id
  serverId := server
  fileName := fileNameOf path
  filePath := path
  enabled := !disabled.isSuffixOf path
  projectType := projectType
  dateAdded := now

def ItemRow.movedTo (row : ItemRow) (path : Text) (enabled : Bool) : ItemRow :=
  { row with filePath := path, fileName := fileNameOf path, enabled }

namespace Items

def list (items : Items) (server : Id) : List ItemRow :=
  (items.rows.filter fun row => row.serverId = server).insertionSort
    fun a b => a.filePath ≤ b.filePath

def one (items : Items) (server id : Id) : Option ItemRow :=
  items.rows.find? fun row => row.serverId = server ∧ row.id = id

/-- What `DO UPDATE` leaves of the row that has the id. -/
def written (items : Items) (row : ItemRow) : ItemRow :=
  match items.rows.find? fun old => old.id = row.id with
  | some old => { row with serverId := old.serverId, dateAdded := old.dateAdded }
  | none => row

def put (rows : List ItemRow) (row : ItemRow) : List ItemRow :=
  if row.id ∈ rows.map ItemRow.id then rows.map fun old => if old.id = row.id then row else old
  else rows ++ [row]

/-- Another row has the path that this one is to have. -/
def Clashes (rows : List ItemRow) (row : ItemRow) : Prop :=
  ∃ other ∈ rows, other.id ≠ row.id ∧ other.serverId = row.serverId ∧
    other.filePath = row.filePath

instance (rows : List ItemRow) (row : ItemRow) : Decidable (Clashes rows row) :=
  inferInstanceAs (Decidable (∃ other ∈ rows, other.id ≠ row.id ∧
    other.serverId = row.serverId ∧ other.filePath = row.filePath))

section Putting

variable {rows : List ItemRow} {row other : ItemRow}

theorem mem_put : other ∈ put rows row ↔ other = row ∨ other ∈ rows ∧ other.id ≠ row.id := by
  unfold put
  split
  next hknown =>
    obtain ⟨old, hold, hid⟩ := List.mem_map.mp hknown
    constructor
    · intro hmem
      obtain ⟨before, hbefore, rfl⟩ := List.mem_map.mp hmem
      by_cases hsame : before.id = row.id
      · exact .inl (if_pos hsame)
      · rw [if_neg hsame]
        exact .inr ⟨hbefore, hsame⟩
    · rintro (rfl | ⟨hmem, hne⟩)
      · exact List.mem_map.mpr ⟨old, hold, if_pos hid⟩
      · exact List.mem_map.mpr ⟨other, hmem, if_neg hne⟩
  next hnew =>
    rw [List.mem_append, List.mem_singleton, or_comm]
    apply or_congr_right
    have hne : other ∈ rows → other.id ≠ row.id :=
      fun hmem he => hnew (he ▸ List.mem_map_of_mem hmem)
    exact ⟨fun hmem => ⟨hmem, hne hmem⟩, And.left⟩

theorem ids_put (h : (rows.map ItemRow.id).Nodup) : ((put rows row).map ItemRow.id).Nodup := by
  unfold put
  split
  · have hsame : (fun old : ItemRow => (if old.id = row.id then row else old).id) = ItemRow.id := by
      funext old
      split
      next he => exact he.symm
      next => rfl
    rwa [List.map_map, Function.comp_def, hsame]
  · next hnew =>
    rw [List.map_append]
    exact h.append (List.nodup_singleton _) (by simpa using hnew)

theorem paths_put (hids : (rows.map ItemRow.id).Nodup)
    (hpaths : (rows.map fun row => (row.serverId, row.filePath)).Nodup)
    (h : ¬ Clashes rows row) :
    ((put rows row).map fun row => (row.serverId, row.filePath)).Nodup := by
  apply List.Nodup.map_on ?_ (ids_put hids).of_map
  intro a ha b hb hsame
  obtain ⟨hserver, hpath⟩ := Prod.mk.inj hsame
  rcases mem_put.mp ha with rfl | ⟨haold, hane⟩
  · rcases mem_put.mp hb with rfl | ⟨hbold, hbne⟩
    · rfl
    · exact absurd ⟨b, hbold, hbne, hserver.symm, hpath.symm⟩ h
  · rcases mem_put.mp hb with rfl | ⟨hbold, -⟩
    · exact absurd ⟨a, haold, hane, hserver, hpath⟩ h
    · exact List.inj_on_of_nodup_map hpaths haold hbold hsame

end Putting

def enter (items : Items) (row : ItemRow) (h : ¬ Clashes items.rows row) : Items where
  rows := put items.rows row
  nextId := max items.nextId (row.id + 1)
  ids := ids_put items.ids
  paths := paths_put items.ids items.paths h
  drawn := by
    intro other hother
    rcases mem_put.mp hother with rfl | ⟨hmem, -⟩
    · exact Nat.lt_of_lt_of_le (Nat.lt_succ_self _) (le_max_right _ _)
    · exact Nat.lt_of_lt_of_le (items.drawn other hmem) (le_max_left _ _)

def upsert (items : Items) (row : ItemRow) : Except SqlFault Items :=
  if h : Clashes items.rows (items.written row) then .error .unique
  else .ok (items.enter (items.written row) h)

def remove (items : Items) (id : Id) : Items where
  rows := items.rows.filter fun row => row.id ≠ id
  nextId := items.nextId
  ids := items.ids.sublist (List.filter_sublist.map _)
  paths := items.paths.sublist (List.filter_sublist.map _)
  drawn := fun row hrow => items.drawn row (List.mem_of_mem_filter hrow)

section Statements

variable {items after : Items} {server : Id} {row other : ItemRow} {id : Id}

theorem same_id (ha : row ∈ items.rows) (hb : other ∈ items.rows) (h : row.id = other.id) :
    row = other :=
  List.inj_on_of_nodup_map items.ids ha hb h

theorem same_path (ha : row ∈ items.rows) (hb : other ∈ items.rows)
    (hserver : row.serverId = other.serverId) (h : row.filePath = other.filePath) :
    row = other := by
  apply List.inj_on_of_nodup_map items.paths ha hb
  rw [hserver, h]

theorem one_eq_some :
    items.one server id = some row ↔ row ∈ items.rows ∧ row.serverId = server ∧ row.id = id := by
  constructor
  · intro h
    exact ⟨List.mem_of_find?_eq_some h, by simpa [one] using List.find?_some h⟩
  · rintro ⟨hmem, hserver, hid⟩
    cases hone : items.one server id with
    | none =>
      have hnone := List.find?_eq_none.mp hone row hmem
      simp [hserver, hid] at hnone
    | some found =>
      have hfound : found ∈ items.rows := List.mem_of_find?_eq_some hone
      have hsame : found.serverId = server ∧ found.id = id := by
        simpa [one] using List.find?_some hone
      rw [same_id hfound hmem (hsame.2.trans hid.symm)]

@[simp] theorem mem_list : row ∈ items.list server ↔ row ∈ items.rows ∧ row.serverId = server := by
  simp [list]

theorem nodup_list : (items.list server).Nodup :=
  ((List.perm_insertionSort _ _).nodup_iff).mpr (items.ids.of_map.filter _)

theorem list_sorted :
    (items.list server).Pairwise fun a b => a.filePath < b.filePath := by
  have htotal : Std.Total fun a b : ItemRow => a.filePath ≤ b.filePath :=
    ⟨fun a b => le_total a.filePath b.filePath⟩
  have htrans : IsTrans ItemRow fun a b => a.filePath ≤ b.filePath := ⟨fun _ _ _ => le_trans⟩
  have hsorted : (items.list server).Pairwise fun a b => a.filePath ≤ b.filePath :=
    List.pairwise_insertionSort _ _
  have hdistinct : (items.list server).Pairwise fun a b => a ≠ b := nodup_list
  apply (hsorted.and hdistinct).imp_of_mem
  intro a b ha hb hab
  apply lt_of_le_of_ne hab.1
  intro he
  obtain ⟨ha, hserver⟩ := mem_list.mp ha
  obtain ⟨hb, hserver'⟩ := mem_list.mp hb
  exact hab.2 (same_path ha hb (hserver.trans hserver'.symm) he)

@[simp] theorem written_id : (items.written row).id = row.id := by
  unfold written
  split <;> rfl

theorem written_serverId (h : ∀ old ∈ items.rows, old.id = row.id → old.serverId = row.serverId) :
    (items.written row).serverId = row.serverId := by
  unfold written
  split
  next old hold => exact h old (List.mem_of_find?_eq_some hold) (by simpa using List.find?_some hold)
  next => rfl

@[simp] theorem written_filePath : (items.written row).filePath = row.filePath := by
  unfold written
  split <;> rfl

@[simp] theorem written_enabled : (items.written row).enabled = row.enabled := by
  unfold written
  split <;> rfl

@[simp] theorem written_projectId : (items.written row).projectId = row.projectId := by
  unfold written
  split <;> rfl

@[simp] theorem written_versionId : (items.written row).versionId = row.versionId := by
  unfold written
  split <;> rfl

theorem mem_upsert (h : items.upsert row = .ok after) :
    other ∈ after.rows ↔ other = items.written row ∨ other ∈ items.rows ∧ other.id ≠ row.id := by
  unfold upsert at h
  split at h
  · cases h
  · cases h
    rw [enter, mem_put, written_id]

theorem upsert_nextId (h : items.upsert row = .ok after) :
    after.nextId = max items.nextId (row.id + 1) := by
  unfold upsert at h
  split at h
  · cases h
  · cases h
    exact congrArg (fun id => max items.nextId (id + 1)) written_id

theorem upsert_ok (h : ¬ Clashes items.rows (items.written row)) :
    ∃ after, items.upsert row = .ok after := by
  unfold upsert
  rw [dif_neg h]
  exact ⟨_, rfl⟩

@[simp] theorem mem_remove : row ∈ (items.remove id).rows ↔ row ∈ items.rows ∧ row.id ≠ id := by
  simp [remove]

end Statements

end Items

end CraftPanel.Content
