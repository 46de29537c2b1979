import CraftPanel.Ops.Transactions
import CraftPanel.Backups.Copied

/-!
# The entry points of the backups

`request`, `restore`, `retry` and `run_scheduled` of `backups/mod.rs` and `backups/schedule.rs` up
to the operation they make, and `delete`, `delete_many` and `prune` to their end, for one server.
Each is a task that makes one statement at a time: what it reads first it does not read again when
it writes. What a check finds outside the database (a link, the Drive, the space of the disk, the
survey of the tree) is the event's to say.
-/

namespace CraftPanel.Backups.Entries

open Framework Restore

inductive Purpose
  | request
  | restore (backup : Id)
  | retryCreate (backup : Id)
  | retryRestore (backup : Id)
  | scheduled
  deriving DecidableEq

inductive Check
  | guardWrite
  | drive
  | mine
  | stopped
  | status
  | source
  | lastRun (kind : OperationKind)
  | copy
  | quota
  | count (quota : Nat)
  | atLimit
  | limit (count : Nat)
  | changed
  | space

namespace Purpose

/-- What an entry looks at, in the order of the source. `retry` asks for the space only where the
archive of the upload cannot be carried on. -/
def checks : Purpose → List Check
  | request => [.guardWrite, .drive, .quota, .space]
  | restore _ => [.mine, .stopped, .status, .source, .guardWrite, .quota, .space]
  | retryCreate _ => [.mine, .lastRun .backupCreate, .guardWrite, .space]
  | retryRestore _ => [.mine, .lastRun .backupRestore, .guardWrite, .stopped, .copy]
  | scheduled => [.atLimit, .changed]

def backup : Purpose → Option Id
  | restore backup | retryCreate backup | retryRestore backup => some backup
  | request | scheduled => none

def adds : Purpose → Bool
  | retryCreate _ => false
  | _ => true

end Purpose

inductive Phase
  | checks (todo : List Check)
  | adds (restore : Id)
  | creates (backup : Id) (restore : Option Id)
  | takesBack (backup : Id) (restore : Option Id)
  | cancels (restore : Id)
  | hides (operation : Id)

structure Entry where
  purpose : Purpose
  startedBy : Option Id := none
  adds : Bool
  /-- The quota let the row through that is still to be made. -/
  counted : Bool := false
  phase : Phase

inductive RemovalPhase
  | next
  | asks (backup : Id)
  | finds (backup : Id)
  | removes (backup : Id) (known : Option BackupRow)
  | clears (backup : Id) (known : Option BackupRow)

/-- `delete` and `delete_many`, or `prune`, which does not ask whose the backup is. -/
structure Removal where
  prunes : Bool
  todo : List Id
  phase : RemovalPhase := .next

structure System where
  id : Id
  ops : Ops.System
  entries : List Entry := []
  removals : List Removal := []
  /-- The archives under the server's directory, and those in the Drive. -/
  archives : List Id := []
  stored : List String := []
  /-- The backup a run was made for, unless that went with the run's own end. -/
  uses : Id → Option Id := fun _ => none

/-- What a step of an entry finds: whether a check outside the database passes, and the id, the
place and the time of what it writes. -/
structure Found where
  ok : Bool := true
  fresh : Id := 0
  location : BackupLocation := .local
  now : Timestamp := 0

inductive Event
  | ops (e : Ops.Event)
  | enters (purpose : Purpose) (startedBy : Option Id)
  | moves (i : Nat) (found : Found)
  | deletes (backups : List Id)
  | prunes (keep : Nat)
  | removes (i : Nat)
  | forgets (backup : Id)
  | packs (backup : Id) (size : Nat)
  | stores (backup : Id) (stored : Drive.Stored) (size : Nat)
  | marks (backup : Id) (state : DriveFileState) (changedAt : Option Timestamp)
  | setsQuota (quota : Nat)

def quota (db : Database) : Nat := min db.settings.maxBackupsPerServer maxQuota

def count (db : Database) (server : Id) : Nat := db.backups.count (·.serverId = server)

def isBusy (db : Database) (backup : Id) : Bool :=
  0 < db.operations.count fun row => row.targetId = some backup && row.state.isOpen

/-- `automatic_over`: all but the newest that are kept. -/
def automaticOver (db : Database) (server : Id) (keep : Nat) : List Id :=
  (((db.backups.select fun row => row.serverId = server && row.automated).mergeSort fun a b =>
    b.createdAt < a.createdAt || (a.createdAt = b.createdAt && b.id ≤ a.id)).drop keep).map (·.id)

/-- `insert` under the foreign key of `target_id`. -/
def createRun (db : Database) (new : Ops.NewOperation) (id : Id) (now : Timestamp) :
    Except Ops.Fault (Database × OperationRow) :=
  if new.targetId.all fun backup => (db.backups.find? backup).isSome then Ops.insert new id now db
  else .error ⟨500, "internal", "FOREIGN KEY constraint failed"⟩

namespace System

variable (s : System)

def db : Database := s.ops.db

def setDb (db : Database) : System := { s with ops := { s.ops with db } }

/-- Only the entries here make runs of backups; `recover` is done before they can be reached. -/
def admits : Ops.Event → Bool
  | .recoveryReads | .recoveryMoves _ => false
  | e => (s.ops.inserts e).all fun new => !SafetyCopies.isBackup new.kind && new.targetId.isNone

def lets (backup : Id) : System :=
  { s.setDb (Ops.deleteBackup s.db backup) with
    uses := fun j => if s.uses j = some backup then none else s.uses j }

def check (ok : Bool) (entry : Entry) (todo : List Check) : Check → Option Entry
  | .guardWrite => if refuses s.db s.id then none else some { entry with phase := .checks todo }
  | .drive | .stopped | .changed | .space =>
    if ok then some { entry with phase := .checks todo } else none
  | .mine =>
    if (entry.purpose.backup.bind s.db.backups.find?).any (·.serverId = s.id) then
      some { entry with phase := .checks todo }
    else none
  | .status =>
    if (entry.purpose.backup.bind s.db.backups.find?).any (isDone s.db) then
      some { entry with phase := .checks todo }
    else none
  | .source =>
    if (entry.purpose.backup.bind s.db.backups.find?).any fun row =>
        row.serverId = s.id && row.driveState ≠ some .missing && row.driveState ≠ some .trashed &&
          row.driveContentChangedAt.isNone then
      some { entry with phase := .checks todo }
    else none
  | .lastRun kind =>
    if (entry.purpose.backup.bind (newestRun s.db)).any fun run =>
        run.state = .failed && run.kind = kind then
      some { entry with phase := .checks todo }
    else none
  | .copy =>
    match (entry.purpose.backup.bind (safetyCopyFor s.db)) with
    | some copy => (s.db.backups.find? copy).map fun row =>
        if isDone s.db row then { entry with adds := false, phase := .checks todo }
        else { entry with phase := .checks (.quota :: .space :: todo) }
    | none => some { entry with phase := .checks (.quota :: .space :: todo) }
  | .quota => some { entry with phase := .checks (.count (quota s.db) :: todo) }
  | .count quota =>
    if count s.db s.id + 1 ≤ quota then some { entry with counted := true, phase := .checks todo }
    else none
  | .atLimit => some { entry with phase := .checks (.limit (count s.db s.id) :: todo) }
  | .limit count =>
    if count < quota s.db then some { entry with counted := true, phase := .checks todo } else none

/-- `create_for` puts the row of the backup into the table. -/
def addsRow (entry : Entry) (restore : Option Id) (found : Found) : System × Option Entry :=
  let row : BackupRow := {
    id := found.fresh
    serverId := s.id
    automated := entry.purpose = .scheduled
    createdAt := found.now
    location := found.location }
  match s.db.backups.insert row with
  | some backups => (s.setDb { s.db with backups },
      some { entry with counted := false, phase := .creates found.fresh restore })
  | none => (s, restore.map fun restore => { entry with counted := false, phase := .cancels restore })

def newRun (entry : Entry) (kind : OperationKind) (backup : Id) (parent : Option Id) :
    Ops.NewOperation where
  serverId := s.id
  kind := kind
  startedBy := entry.startedBy
  targetId := some backup
  parentOperationId := parent

def aims (db : Database) (run backup : Id) : System :=
  { s.setDb db with uses := Function.update s.uses run (some backup) }

def next (entry : Entry) (found : Found) : System × Option Entry :=
  match entry.phase with
  | .checks (check :: todo) => (s, s.check found.ok entry todo check)
  | .checks [] => match entry.purpose with
    | .request | .scheduled => s.addsRow entry none found
    | .retryCreate backup =>
      match createRun s.db (s.newRun entry .backupCreate backup none) found.fresh found.now with
      | .ok (db, row) => (s.aims db row.id backup, none)
      | .error _ => (s, none)
    | .restore backup | .retryRestore backup =>
      match createRun s.db (s.newRun entry .backupRestore backup none) found.fresh found.now with
      | .ok (db, row) => (s.aims db row.id backup,
          if entry.adds then some { entry with phase := .adds row.id } else none)
      | .error _ => (s, none)
  | .adds restore => s.addsRow entry (some restore) found
  | .creates backup restore =>
    match createRun s.db (s.newRun entry .backupCreate backup restore) found.fresh found.now with
    | .ok (db, row) => (s.aims db row.id backup,
        restore.map fun _ => { entry with phase := .hides row.id })
    | .error _ => (s, some { entry with phase := .takesBack backup restore })
  | .takesBack backup restore =>
    (s.lets backup, restore.map fun restore => { entry with phase := .cancels restore })
  | .cancels restore => (s.setDb (Ops.after s.db (Ops.cancelled restore found.now)), none)
  | .hides operation => (s.setDb (Ops.after s.db (Ops.dismiss operation found.now)), none)

def moves (i : Nat) (found : Found) : Option System :=
  (s.entries[i]?).map fun entry => match s.next entry found with
    | (t, some entry) => { t with entries := s.entries.set i entry }
    | (t, none) => { t with entries := s.entries.eraseIdx i }

def removesNext (removal : Removal) : System × Option Removal :=
  match removal.phase with
  | .next => match removal.todo with
    | [] => (s, none)
    | backup :: todo => (s, some { removal with
        todo
        phase := if removal.prunes || (s.db.backups.find? backup).any (·.serverId = s.id)
          then .asks backup else .next })
  | .asks backup => (s, some { removal with
      phase := if isBusy s.db backup then .next else .finds backup })
  | .finds backup => (s, some { removal with
      phase := .removes backup (s.db.backups.find? backup) })
  | .removes backup known => (s.setDb (Ops.deleteBackup s.db backup),
      some { removal with phase := .clears backup known })
  | .clears backup known => ({ s with
      archives := s.archives.filter (· ≠ backup)
      stored := s.stored.filter fun file => known.all fun row =>
        row.location ≠ .drive || row.driveFileId ≠ some file },
      some { removal with phase := .next })

def removes (i : Nat) : Option System :=
  (s.removals[i]?).map fun removal => match s.removesNext removal with
    | (t, some removal) => { t with removals := s.removals.set i removal }
    | (t, none) => { t with removals := s.removals.eraseIdx i }

def enters (purpose : Purpose) (startedBy : Option Id) : System := { s with
  entries := s.entries ++
    [{ purpose, startedBy, adds := purpose.adds, phase := .checks purpose.checks }] }

def step : Event → Option System
  | .ops e => if s.admits e then (s.ops.step e).map fun ops => { s with ops } else none
  | .enters purpose startedBy => some (s.enters purpose startedBy)
  | .moves i found => s.moves i found
  | .deletes backups => some { s with
      removals := s.removals ++ [{ prunes := false, todo := backups }] }
  | .prunes keep => some { s with
      removals := s.removals ++ [{ prunes := true, todo := automaticOver s.db s.id keep }] }
  | .removes i => s.removes i
  | .forgets backup => some (s.lets backup)
  | .packs backup size => some { s.setDb (s.db.updateBackup backup
      (fun row => { row with sizeBytes := size }) fun _ => rfl) with
        archives := backup :: s.archives }
  | .stores backup stored size => some { s.setDb (Drive.finishUpload s.db backup stored size) with
      archives := s.archives.filter (· ≠ backup), stored := stored.fileId :: s.stored }
  | .marks backup state changedAt => some (s.setDb
      (Drive.setContentChanged (Drive.setFileState s.db backup state) backup changedAt))
  | .setsQuota quota => some (s.setDb
      { s.db with settings := { s.db.settings with maxBackupsPerServer := quota } })

end System

def machine : Machine System Event := ⟨System.step⟩

/-- A server whose panel has come up; what the last one left is in the database. -/
def booted (id : Id) (db : Database) (archives : List Id) (stored : List String) : System where
  id := id
  ops := { db }
  archives := archives
  stored := stored

theorem createRun_ok {db db' : Database} {new : Ops.NewOperation} {id : Id} {now : Timestamp} {row : OperationRow}
    (h : createRun db new id now = .ok (db', row)) :
    (∀ backup, new.targetId = some backup → (db.backups.find? backup).isSome) ∧
      Ops.insert new id now db = .ok (db', row) := by
  unfold createRun at h
  split at h
  · next hfound =>
    refine ⟨fun backup htarget => ?_, h⟩
    simpa [htarget] using hfound
  · cases h

end CraftPanel.Backups.Entries
