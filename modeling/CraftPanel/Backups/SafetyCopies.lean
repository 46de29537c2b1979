import CraftPanel.Backups.Restore
import CraftPanel.Drive.Stock
import CraftPanel.Ops.Lineage

/-!
# Safety copies

The restores of one server beside the runs that make its backups, `run_create`, and beside
everything that changes the server's directory. The directory is known by its version, the number
of times it was changed or exchanged; an archive by the version that was packed into it. What
becomes of an archive after it was made is not followed: it may be deleted at any time.
-/

namespace CraftPanel.Backups.SafetyCopies

open Framework Restore

def isBackup (kind : OperationKind) : Bool := kind = .backupCreate || kind = .backupRestore

/-- `run_create`, from `wait_for_a_turn` to the end of its operation. -/
inductive CreatePhase
  | waits
  | looks
  | forgets
  | chooses
  | packs
  | packing (version : Nat)
  | delivers
  | drops (outcome : Outcome)
  | ends (outcome : Outcome)

structure Create where
  id : Id
  backup : Id
  phase : CreatePhase := .waits

/-- What a step of `run_create` finds: how it ends, whether `resumable` finds an archive whose
upload can be carried on, and what is written down of the archive. -/
structure Found where
  outcome : Outcome := .done
  carried : Bool := false
  size : Nat := 1
  stored : Drive.Stored := ⟨"", none⟩
  now : Timestamp := 0

/-- The version of the directory when a backup was begun, and the restore it is the copy of. -/
structure Born where
  version : Nat
  restore : Option Id := none

/-- The version of the directory when a restore was asked for, and whether it makes a copy. -/
structure Asked where
  version : Nat
  copies : Bool

/-- The version of the directory, and which versions the restores and the backups have seen. -/
structure Books where
  directory : Nat := 0
  asked : Id → Option Asked := fun _ => none
  /-- The backup that a run was made for, whatever became of the backup since. -/
  targets : Id → Option Id := fun _ => none
  born : Id → Option Born := fun _ => none
  archives : Id → Option Nat := fun _ => none
  /-- The version in the archive that was last packed and delivered. -/
  made : Id → Option Nat := fun _ => none

structure System where
  base : Restore.System
  creates : Table Create.id := Table.empty
  books : Books := {}

inductive Event
  | base (e : Restore.Event)
  | changes
  | makesRow (backup : Id) (location : BackupLocation) (now : Timestamp)
  | makesRun (backup id caller : Id) (now : Timestamp)
  | starts (id : Id)
  | creates (id : Id) (found : Found)
  | deletes (backup : Id)
  | opensSession (row : UploadRow)
  | forgetsSession (backup : Id)
  | marks (backup : Id) (state : DriveFileState) (changedAt : Option Timestamp)
  | restarts

def gone : OperationError := ⟨"internal", "the row is gone", .internal⟩

namespace Books

variable (books : Books)

def changes : Books := { books with directory := books.directory + 1 }

def asks (restore backup : Id) (copies : Bool) : Books := { books with
  asked := Function.update books.asked restore (some ⟨books.directory, copies⟩)
  targets := Function.update books.targets restore (some backup) }

def begins (backup : Id) (restore : Option Id) : Books :=
  { books with born := Function.update books.born backup (some ⟨books.directory, restore⟩) }

def aims (run backup : Id) : Books :=
  { books with targets := Function.update books.targets run (some backup) }

def packs (backup : Id) (version : Nat) : Books :=
  { books with archives := Function.update books.archives backup (some version) }

def delivers (backup : Id) : Books :=
  { books with made := Function.update books.made backup (books.archives backup) }

end Books

namespace System

variable (s : System)

def db : Database := s.base.ops.db

def setDb (db : Database) : System := { s with base := { s.base with ops := { s.base.ops with db } } }

/-- `restore`, `retry` and `create_for` are the only ones that make backup runs, and these settle
themselves as done; an id that was drawn once is not drawn again. -/
def admits : Restore.Event → Bool
  | .ops e => (s.base.ops.inserts e).all (fun new => !isBackup new.kind) &&
      (e.finishes.bind s.db.operations.find?).all fun row => !isBackup row.kind
  | .creates _ id _ => (s.books.targets id).isNone
  | .moves id choice => match (s.base.runs.find? id).map Run.phase with
    | some .copies => (s.books.born choice.fresh).isNone
    | some (.copying _) => (s.books.targets choice.fresh).isNone
    | _ => true
  | _ => true

def notes : Restore.Event → Books
  | .creates i id _ => match s.base.requests[i]? with
    | some request => s.books.asks id request.backup request.copies
    | none => s.books
  | .moves id choice => match (s.base.runs.find? id).map Run.phase with
    | some .copies => s.books.begins choice.fresh (some id)
    | some (.copying backup) => s.books.aims choice.fresh backup
    | some (.movesIn _) => match choice.outcome with
      | .failed _ => s.books
      | _ => s.books.changes
    | _ => s.books
  | _ => s.books

def isBusy (backup : Id) : Bool :=
  0 < s.db.operations.count fun row => row.targetId = some backup && row.state.isOpen

/-- `create_for` puts the row of a backup into the table. -/
def makesRow (backup : Id) (location : BackupLocation) (now : Timestamp) : Option System :=
  if (s.books.born backup).isNone then
    (s.db.backups.insert { id := backup, serverId := s.base.id, createdAt := now, location }).map
      fun backups =>
        { s.setDb { s.db with backups } with books := s.books.begins backup none }
  else none

/-- `create_for` without a parent and `retry` of a create make a run for a row that is there. -/
def makesRun (backup id caller : Id) (now : Timestamp) : Option System :=
  if (s.db.backups.find? backup).isSome && (s.books.targets id).isNone then
    let new : Ops.NewOperation := {
      serverId := s.base.id
      kind := .backupCreate
      startedBy := some caller
      targetId := some backup }
    match Ops.insert new id now s.db with
    | .ok (db, _) => some { s.setDb db with books := s.books.aims id backup }
    | .error _ => some s
  else none

/-- `run_create` reads the run it is to make. -/
def starts (id : Id) : Option System :=
  match s.db.operations.find? id with
  | some row =>
    if row.kind = .backupCreate then
      row.targetId.bind fun backup => (s.creates.insert { id, backup }).map fun creates =>
        { s with creates }
    else none
  | none => none

/-- What `deliver` writes down of an archive that is kept here or stored in the Drive. -/
def delivered (found : Found) (row : BackupRow) : Database :=
  match row.location with
  | .local => s.db.updateBackup row.id (fun row => { row with sizeBytes := found.size }) fun _ => rfl
  | .drive => Drive.finishUpload s.db row.id found.stored found.size

/-- The end of a run that made nothing: `forget_session`, and `forget` when it was called off. -/
def dropped (run : Create) : Outcome → Database
  | .calledOff => Ops.deleteBackup s.db run.backup
  | _ => Drive.forgetUpload s.db run.backup

/-- One step of `run_create`. -/
def next (run : Create) (found : Found) : Option (System × Option CreatePhase) :=
  match run.phase with
  | .waits => match Ops.begin run.id found.now s.db with
    | .ok (_, some _) => (s.base.ops.step (.begin run.id found.now)).map fun ops =>
        ({ s with base := { s.base with ops } }, some .chooses)
    | .ok (_, none) => some (s, some .looks)
    | .error _ => some (s, none)
  | .looks => some (s, match (s.db.operations.find? run.id).map OperationRow.state with
    | some .queued => some .waits
    | some .cancelled => some .forgets
    | _ => none)
  | .forgets => some (s.setDb (Ops.deleteBackup s.db run.backup), none)
  | .chooses => some (s, some (
      if found.carried && (s.books.archives run.backup).isSome then .delivers else .packs))
  | .packs => some (s, some (.packing s.books.directory))
  | .packing version => match found.outcome with
    | .done => some ({ s with books := s.books.packs run.backup version }, some .delivers)
    | outcome => some (s, some (.drops outcome))
  | .delivers => match found.outcome, s.db.backups.find? run.backup with
    | .done, some row => some ({ s.setDb (s.delivered found row) with
        books := s.books.delivers run.backup }, some (.ends .done))
    | .done, none => some (s, some (.drops (.failed gone)))
    | outcome, _ => some (s, some (.drops outcome))
  | .drops outcome => some (s.setDb (s.dropped run outcome), some (.ends outcome))
  | .ends outcome => (s.base.ops.step (outcome.settling run.id found.now)).map fun ops =>
      ({ s with base := { s.base with ops } }, none)

def creating (id : Id) (found : Found) : Option System :=
  match s.creates.find? id with
  | some run => match s.next run found with
    | some (t, some phase) =>
      some { t with creates := t.creates.modify id (fun run => { run with phase }) fun _ => rfl }
    | some (t, none) => some { t with creates := t.creates.erase id }
    | none => none
  | none => none

/-- The panel stops and comes up again: its tasks are gone, the processes are not. -/
def restarts : System :=
  let processes := s.base.server.processes.map fun process =>
    { process with link := none, greeted := false }
  { s with
    base := Restore.booted s.base.id s.base.server.row processes s.db
    creates := Table.empty }

def step : Event → Option System
  | .base e =>
    if s.admits e then (s.base.step e).map fun base => { s with base, books := s.notes e } else none
  | .changes => some { s with books := s.books.changes }
  | .makesRow backup location now => s.makesRow backup location now
  | .makesRun backup id caller now => s.makesRun backup id caller now
  | .starts id => s.starts id
  | .creates id found => s.creating id found
  | .deletes backup =>
    if s.isBusy backup then none else some (s.setDb (Ops.deleteBackup s.db backup))
  | .opensSession row => some (s.setDb (Drive.openUpload s.db row))
  | .forgetsSession backup => some (s.setDb (Drive.forgetUpload s.db backup))
  | .marks backup state changedAt => some (s.setDb
      (Drive.setContentChanged (Drive.setFileState s.db backup state) backup changedAt))
  | .restarts => some s.restarts

end System

def machine : Machine System Event := ⟨System.step⟩

def fresh (id : Id) (row : ServerRow) (processes : List Servers.Process) (db : Database) : System where
  base := Restore.booted id row processes
    { db with operations := Table.empty, backups := Table.empty }

/-- Whatever restore is about to exchange the directory, a finished backup holds it as it is. -/
def Current (s : System) : Prop :=
  ∀ run ∈ s.base.runs.rows, run.phase = .movesAway →
    ∃ row ∈ s.db.backups.rows, row.serverId = s.base.id ∧ isDone s.db row = true ∧
      s.books.made row.id = some s.books.directory

instance : DecidablePred Current := fun s => by
  unfold Current
  infer_instance

/-- The newest run of a backup is a create run that was called off, which `status_of` takes for
one that is done. -/
def calledOff (db : Database) (row : BackupRow) : Bool :=
  (newest (db.operations.select fun run =>
    run.serverId = row.serverId && isRunOf row.id run)).any fun run =>
      run.kind = .backupCreate && run.state = .cancelled

/-- A check that asks whether a backup is done asks it of none that was called off. -/
def System.trusts (s : System) : Event → Bool
  | .base (.checks i _) => match (s.base.requests[i]?).bind (·.todo.head?) with
    | some .status => ((s.base.requests[i]?).bind (s.db.backups.find? ·.backup)).all
        fun row => !calledOff s.db row
    | some .copy => ((s.base.requests[i]?).bind fun request =>
        (safetyCopyFor s.db request.backup).bind s.db.backups.find?).all
          fun row => !calledOff s.db row
    | _ => true
  | _ => true

/-- The restore has a safety copy, its own or that of another attempt at the same backup, which was
packed after that attempt was asked for. -/
def HasCopy (books : Books) (restore : Id) : Prop :=
  ∃ own copy version attempt past, books.asked restore = some own ∧
    books.made copy = some version ∧ (books.born copy).bind Born.restore = some attempt ∧
    books.asked attempt = some past ∧ books.targets attempt = books.targets restore ∧
    past.version ≤ version ∧ version ≤ books.directory ∧ (own.copies = true → attempt = restore)

end CraftPanel.Backups.SafetyCopies
