import CraftPanel.Framework.Machine
import CraftPanel.Settings.Failure
import CraftPanel.Settings.Properties

/-!
# Who writes server.properties

`write_properties` and `make_primary` of `api/settings.rs` with `replay` and `queue` of
`settings/store.rs`, `write_config` of `settings/install.rs`, and the file itself: `into_place` of
`settings/disk.rs` makes a scratch file, fills it and renames it, all writers under one name. A
writer is the list of the statements it still has to execute. The running game reads the file when
it starts and may write it again from what it read; and a restore is the moment at which its
directory takes the place of the old one.

The queue holds what a patch of a running server wants, to be replayed by a later patch. A request
asks whether the server runs and whether an operation holds it only before its first statement, so
the others may come between any two statements of it.
-/

namespace CraftPanel.Settings.Overrides

open Framework

def PANEL_OWNED : List Text := ["server-port".toList, "query.port".toList]

/-- `port_overrides`, and what `set_ports` sets. -/
def portOverrides (port : Nat) : List Override :=
  PANEL_OWNED.map fun key => (key, some (Nat.toDigits 10 port))

/-- The check that `plan` makes of every key; the other ones turn a patch away before it begins. -/
def plan (wanted : List Override) : Except Failure (List Override) :=
  match wanted.find? fun row => row.1 ∈ PANEL_OWNED with
  | some (key, _) => .error (.conflict "property_is_panel_owned"
      (String.ofList key ++ " is written by the panel; change the port instead"))
  | none => .ok wanted

structure Directory where
  main : Option Nat := none
  scratch : Option Nat := none

/-- The directories that the server has had, and what the files in them hold by their inodes; one
that was not written to is empty. -/
structure Disk where
  dirs : Nat → Directory := fun _ => {}
  here : Nat := 0
  nodes : Nat → Properties := fun _ => {}
  next : Nat := 0

namespace Disk

variable (d : Disk)

/-- `store::read`. -/
def file : Properties := match (d.dirs d.here).main with
  | none => {}
  | some node => d.nodes node

def unlink (dir : Nat) : Disk :=
  { d with dirs := Function.update d.dirs dir { d.dirs dir with scratch := none } }

/-- `O_EXCL`: only where there is none. -/
def create (dir : Nat) : Option Disk :=
  match (d.dirs dir).scratch with
  | some _ => none
  | none => some { d with
      dirs := Function.update d.dirs dir { d.dirs dir with scratch := some d.next }
      next := d.next + 1 }

def fill (node : Nat) (p : Properties) : Disk :=
  { d with nodes := Function.update d.nodes node p }

/-- The scratch file takes the place of the main one, whoever has made it. -/
def rename (dir : Nat) : Option Disk :=
  match (d.dirs dir).scratch with
  | none => none
  | some node => some { d with dirs := Function.update d.dirs dir ⟨some node, none⟩ }

def overwrite (p : Properties) : Disk :=
  { d with
    dirs := Function.update d.dirs d.here { d.dirs d.here with main := some d.next }
    nodes := Function.update d.nodes d.next p
    next := d.next + 1 }

def replaceDir (p : Properties) : Disk :=
  { dirs := Function.update d.dirs (d.here + 1) ⟨some d.next, none⟩
    here := d.here + 1
    nodes := Function.update d.nodes d.next p
    next := d.next + 1 }

def clear : Disk := { d with dirs := Function.update d.dirs d.here {} }

end Disk

inductive Statement
  | asksRunning (wanted : List Override)
  | readsQueue
  /-- With `orDefault` a file that cannot be read is taken for an empty one. -/
  | readsFile (orDefault : Bool)
  | unlinks
  | creates
  | fills (wanted : List Override)
  /-- `edits` says whether the rows are an edit, or carry one out that was made before. -/
  | renames (wanted : List Override) (edits : Bool)
  | discards
  | deletesQueue
  | queues (row : Override)
  | swaps (port : Nat)
  | asksToQueue (wanted : List Override)
  | readsPrimary
  | clears

/-- `into_place`, with the rows in the file that was read. -/
def intoPlace (wanted : List Override) (edits : Bool) : List Statement :=
  [.unlinks, .creates, .fills wanted, .renames wanted edits]

/-- `write_properties`, once it has asked whether the server runs. -/
def writeProperties (wanted : List Override) (running : Bool) : List Statement :=
  if running then .readsFile false :: intoPlace wanted true ++ wanted.map .queues
  else .readsQueue :: .readsFile false :: intoPlace wanted true

/-- `replay`, once it has read the queue, of which no two rows have one key. -/
def replay (queued : List Override) : List Statement :=
  if queued = [] then [] else .readsFile false :: intoPlace queued false ++ [.deletesQueue]

/-- `make_primary` after its transaction. -/
def makePrimary (port : Nat) : List Statement :=
  .readsFile false :: intoPlace (portOverrides port) false ++ [.asksToQueue (portOverrides port)]

/-- `write_config`, once it has asked for the primary port. -/
def writeConfig (port : Option Nat) : List Statement :=
  .readsFile true :: intoPlace ((port.map portOverrides).getD []) false

structure Task where
  read : Properties := {}
  dir : Nat := 0
  node : Nat := 0
  rest : List Statement

structure System where
  disk : Disk := {}
  queue : List Override := []
  /-- What the game has read at its start, while it runs. -/
  game : Option Properties := none
  attached : Bool := false
  primary : Nat
  /-- What the last edit of a key has made it. -/
  asked : Text → Option Text
  tasks : List Task := []

inductive Event
  | patches (wanted : List Override)
  | makesPrimary (port : Nat)
  | installs (wipeEverything : Bool)
  | runs (k : Nat)
  | fails (k : Nat)
  | starts
  | attaches
  | detaches
  | rewrites
  | stops
  | edits (row : Override)
  | restores (content : Properties)

/-- `INSERT … ON CONFLICT DO UPDATE`. -/
def upsert (queue : List Override) (row : Override) : List Override :=
  queue.filter (·.1 ≠ row.1) ++ [row]

def askedBy (wanted : List Override) (asked : Text → Option Text) (key : Text) : Option Text :=
  (named wanted key).getD (asked key)

namespace System

variable (s : System)

def put (k : Nat) (task : Task) : System := { s with tasks := s.tasks.set k task }

def execute (k : Nat) (task : Task) (tail : List Statement) : Statement → System
  | .asksRunning wanted => s.put k { task with rest := writeProperties wanted s.attached ++ tail }
  | .readsQueue => s.put k { task with rest := replay s.queue ++ tail }
  | .readsFile _ => s.put k { task with read := s.disk.file, rest := tail }
  | .unlinks =>
    { s with disk := s.disk.unlink s.disk.here }.put k
      { task with dir := s.disk.here, rest := tail }
  | .creates => match s.disk.create task.dir with
    | none => s.put k { task with rest := [] }
    | some disk => { s with disk }.put k { task with node := s.disk.next, rest := tail }
  | .fills wanted =>
    { s with disk := s.disk.fill task.node (task.read.apply wanted) }.put k
      { task with rest := tail }
  | .renames wanted edits => match s.disk.rename task.dir with
    | none => s.put k { task with rest := [.discards] }
    | some disk =>
      { s with disk, asked := if edits then askedBy wanted s.asked else s.asked }.put k
        { task with rest := tail }
  | .discards => { s with disk := s.disk.unlink task.dir }.put k { task with rest := tail }
  | .deletesQueue => { s with queue := [] }.put k { task with rest := tail }
  | .queues row => { s with queue := upsert s.queue row }.put k { task with rest := tail }
  | .swaps port =>
    { s with primary := port, asked := askedBy (portOverrides port) s.asked }.put k
      { task with rest := makePrimary port ++ tail }
  | .asksToQueue wanted =>
    s.put k { task with rest := (if s.attached then wanted.map .queues else []) ++ tail }
  | .readsPrimary =>
    { s with asked := askedBy (portOverrides s.primary) s.asked }.put k
      { task with rest := writeConfig (some s.primary) ++ tail }
  | .clears =>
    { s with disk := s.disk.clear, asked := fun _ => none }.put k
      { task with rest := .readsPrimary :: tail }

def runs (k : Nat) : Option System :=
  match s.tasks[k]? with
  | some task => match task.rest with
    | statement :: tail => some (s.execute k task tail statement)
    | [] => none
  | none => none

/-- What is left of a request that fails at a statement. `write_config` does without what it cannot
read, and `into_place` takes its scratch file away. -/
def afterFailure : List Statement → List Statement
  | .readsPrimary :: tail => writeConfig none ++ tail
  | .readsFile true :: tail => tail
  | .fills _ :: _ => [.discards]
  | .renames _ _ :: _ => [.discards]
  | _ => []

def fails (k : Nat) : Option System :=
  match s.tasks[k]? with
  | some task => some (s.put k { task with read := {}, rest := afterFailure task.rest })
  | none => none

def begins (statement : Statement) : System :=
  { s with tasks := s.tasks ++ [{ rest := [statement] }] }

def step : Event → Option System
  | .patches wanted => match plan wanted with
    | .ok wanted => some (s.begins (.asksRunning wanted))
    | .error _ => some s
  | .makesPrimary port => some (s.begins (.swaps port))
  | .installs wipeEverything =>
    some (s.begins (if wipeEverything then .clears else .readsPrimary))
  | .runs k => s.runs k
  | .fails k => s.fails k
  | .starts => if s.game.isSome then none else some { s with game := some s.disk.file }
  | .attaches => if s.game.isSome then some { s with attached := true } else none
  | .detaches => some { s with attached := false }
  | .rewrites => s.game.map fun held => { s with disk := s.disk.overwrite held }
  | .stops => some { s with game := none }
  | .edits row => if s.game.isSome then none else some { s with
      disk := s.disk.overwrite (s.disk.file.applyOne row), asked := askedBy [row] s.asked }
  | .restores content => some { s with disk := s.disk.replaceDir content, asked := content.get }

end System

def machine : Framework.Machine System Event := ⟨System.step⟩

def start (disk : Disk) (primary : Nat) : System :=
  { disk, primary, asked := disk.file.get }

/-! Runs are put together of these. -/

def comesUp : List Event := [.starts, .attaches]

def goesDown : List Event := [.rewrites, .stops, .detaches]

def turns (k n : Nat) : List Event := List.replicate n (.runs k)

section Steps

variable {s t : System} {k : Nat}

theorem runs_cases (h : s.runs k = some t) : ∃ task statement tail,
    s.tasks[k]? = some task ∧ task.rest = statement :: tail ∧ t = s.execute k task tail statement := by
  unfold System.runs at h
  split at h
  · next task hk =>
    split at h
    · next statement tail hrest =>
      cases h
      exact ⟨task, statement, tail, hk, hrest, rfl⟩
    · cases h
  · cases h

theorem fails_cases (h : s.fails k = some t) : ∃ task, s.tasks[k]? = some task ∧
    t = s.put k { task with read := {}, rest := System.afterFailure task.rest } := by
  unfold System.fails at h
  split at h
  · next task hk =>
    cases h
    exact ⟨task, hk, rfl⟩
  · cases h

end Steps

namespace Disk

variable {d e : Disk} {dir node : Nat} {p : Properties}

@[simp] theorem file_unlink : (d.unlink dir).file = d.file := by
  by_cases hdir : dir = d.here
  · subst hdir
    simp [file, unlink]
  · have hnot : d.here ≠ dir := fun h => hdir h.symm
    simp [file, unlink, hnot]

theorem file_create (h : d.create dir = some e) : e.file = d.file := by
  unfold create at h
  split at h
  · cases h
  cases h
  by_cases hdir : dir = d.here
  · subst hdir
    simp [file]
  · have hnot : d.here ≠ dir := fun h => hdir h.symm
    simp [file, hnot]

theorem file_fill (h : (d.dirs d.here).main ≠ some node) : (d.fill node p).file = d.file := by
  unfold file fill
  cases hmain : (d.dirs d.here).main with
  | none => simp
  | some main =>
    have hnot : main ≠ node := by
      intro hsame
      exact h (hmain.trans (congrArg some hsame))
    simp [hnot]

theorem rename_eq_none_iff : d.rename dir = none ↔ (d.dirs dir).scratch = none := by
  unfold rename
  split
  · next hnone => exact iff_of_true rfl hnone
  · next node hnode => simp [hnode]

theorem scratch_ne_none (h : d.rename dir = some e) : (d.dirs dir).scratch ≠ none := by
  rw [ne_eq, ← rename_eq_none_iff, h]
  exact nofun

theorem file_rename (h : d.rename d.here = some e)
    (hscratch : (d.dirs d.here).scratch.map d.nodes = some p) : e.file = p := by
  obtain ⟨node, hnode, rfl⟩ := Option.map_eq_some_iff.mp hscratch
  simp only [rename, hnode, Option.some.injEq] at h
  subst h
  simp [file]

theorem file_rename_ne (h : d.rename dir = some e) (hdir : dir ≠ d.here) : e.file = d.file := by
  have hnot : d.here ≠ dir := fun h => hdir h.symm
  unfold rename at h
  split at h
  · cases h
  · cases h
    simp [file, hnot]

@[simp] theorem file_overwrite : (d.overwrite p).file = p := by
  simp [file, overwrite]

@[simp] theorem file_replaceDir : (d.replaceDir p).file = p := by
  simp [file, replaceDir]

@[simp] theorem file_clear : d.clear.file = {} := by
  simp [file, clear]

end Disk

section Owes

variable {rows : Statement → List Override} {statement : Statement} {rest more : List Statement}
  {tasks : List Task} {key : Text} {value : Option Text} {k : Nat} {task next : Task}

/-- One of the statements has a row of the key with the value. -/
def Owes (rows : Statement → List Override) (rest : List Statement) (key : Text)
    (value : Option Text) : Prop :=
  ∃ statement ∈ rest, named (rows statement) key = some value

instance : Decidable (Owes rows rest key value) :=
  inferInstanceAs (Decidable (∃ statement ∈ rest, _))

def Owed (rows : Statement → List Override) (tasks : List Task) (key : Text)
    (value : Option Text) : Prop :=
  ∃ task ∈ tasks, Owes rows task.rest key value

instance : Decidable (Owed rows tasks key value) :=
  inferInstanceAs (Decidable (∃ task ∈ tasks, _))

theorem owes_cons : Owes rows (statement :: rest) key value ↔
    named (rows statement) key = some value ∨ Owes rows rest key value :=
  List.exists_mem_cons_iff ..

theorem owes_append :
    Owes rows (rest ++ more) key value ↔ Owes rows rest key value ∨ Owes rows more key value := by
  unfold Owes
  simp only [List.mem_append, or_and_right, exists_or]

theorem owes_tail (h : Owes rows (statement :: rest) key value)
    (hnot : named (rows statement) key ≠ some value) : Owes rows rest key value :=
  (owes_cons.mp h).resolve_left hnot

theorem Owed.set (h : Owed rows tasks key value) (hk : tasks[k]? = some task)
    (hrest : Owes rows task.rest key value → Owes rows next.rest key value) :
    Owed rows (tasks.set k next) key value :=
  exists_mem_set hk hrest h

theorem Owed.of_set (hk : tasks[k]? = some task) (h : Owes rows next.rest key value) :
    Owed rows (tasks.set k next) key value :=
  ⟨next, mem_set_self hk next, h⟩

theorem Owed.begin (h : Owed rows tasks key value) : Owed rows (tasks ++ [next]) key value := by
  obtain ⟨task, htask, howes⟩ := h
  exact ⟨task, List.mem_append_left [next] htask, howes⟩

theorem not_owed (h : ∀ task ∈ tasks, task.rest = []) : ¬ Owed rows tasks key value := by
  intro ⟨task, htask, howes⟩
  rw [h task htask] at howes
  obtain ⟨_, hnil, -⟩ := howes
  cases hnil

theorem named_upsert (queue : List Override) (row : Override) :
    named (upsert queue row) key = if row.1 = key then some row.2 else named queue key := by
  unfold upsert
  rw [named_concat]
  split
  · rfl
  next hkey =>
  rw [Option.none_or]
  induction queue with
  | nil => rfl
  | cons found queue ih =>
    rw [List.filter_cons]
    split
    · rw [named_cons, named_cons, ih]
    · next hsame =>
      have hrow : found.1 = row.1 := by simpa using hsame
      rw [ih, named_cons, hrow, if_neg hkey, Option.or_none]

end Owes

end CraftPanel.Settings.Overrides
