import CraftPanel.Framework.Table
import CraftPanel.Model

/-!
# The database

The columns of `servers`, `operations`, `backups` and `drive_uploads` that the modelled
functions read or write, and the foreign keys between them. Every statement is one pure function
on `Database`, so whatever interleaves, interleaves between statements.
-/

namespace CraftPanel

open Framework

structure ServerRow where
  id : Id
  ownerId : Id
  status : ServerStatus := .available
  flowsIntro : Bool := false
  powerState : PowerState := .stopped
  runningSince : Option Timestamp := none
  exitCode : Option Int := none
  oomKilled : Bool := false
  supervisorToken : Option String := none
  operationsRevision : Nat := 0
  updatedAt : Timestamp := 0
  deriving DecidableEq

inductive Payload
  | none | expected | delivered
  deriving DecidableEq

/-- A row of `operations`. The three error columns are written together and read together. -/
structure OperationRow where
  id : Id
  serverId : Id
  kind : OperationKind
  state : OperationState := .queued
  phase : Option OperationPhase := none
  progress : Rat := 0
  message : Option String := none
  src : Option String := none
  bytesProcessed : Option Nat := none
  filesProcessed : Option Nat := none
  currentFile : Option String := none
  error : Option OperationError := none
  cancellable : Bool := false
  cancelRequested : Bool := false
  targetId : Option Id := none
  parentOperationId : Option Id := none
  startedBy : Option Id := none
  input : Option String := none
  payload : Payload := .none
  createdAt : Timestamp := 0
  startedAt : Option Timestamp := none
  progressedAt : Option Timestamp := none
  appliedAt : Option Timestamp := none
  finishedAt : Option Timestamp := none
  dismissedAt : Option Timestamp := none
  deriving DecidableEq

inductive BackupLocation
  | local | drive
  deriving DecidableEq

inductive DriveFileState
  | present | missing | trashed | unreachable
  deriving DecidableEq

structure BackupRow where
  id : Id
  serverId : Id
  name : String := ""
  automated : Bool := false
  sizeBytes : Nat := 0
  createdAt : Timestamp := 0
  location : BackupLocation := .local
  driveFileId : Option String := none
  driveState : Option DriveFileState := none
  driveMd5 : Option String := none
  driveContentChangedAt : Option Timestamp := none
  deriving DecidableEq

/-- A row of `drive_uploads`: the upload session one backup has open. -/
structure UploadRow where
  backupId : Id
  userId : Id
  totalBytes : Nat
  archiveMtimeNs : Int := 0
  archiveInode : Nat := 0
  offeredBytes : Nat := 0
  offeredSha256 : Option String := none
  openedAt : Timestamp := 0
  deriving DecidableEq

structure PanelSettings where
  maxConcurrentOperations : Nat := 2
  stopGraceSeconds : Nat := 60
  maxBackupsPerServer : Nat := 10

structure Database where
  servers : Table ServerRow.id := Table.empty
  operations : Table OperationRow.id := Table.empty
  backups : Table BackupRow.id := Table.empty
  uploads : Table UploadRow.backupId := Table.empty
  settings : PanelSettings := {}

namespace Database

/-- `UPDATE servers SET … WHERE id = ?`. -/
def updateServer (db : Database) (id : Id) (f : ServerRow → ServerRow)
    (hf : ∀ r, (f r).id = r.id) : Database :=
  { db with servers := db.servers.modify id f hf }

/-- `UPDATE operations SET … WHERE id = ?`. -/
def updateOperation (db : Database) (id : Id) (f : OperationRow → OperationRow)
    (hf : ∀ r, (f r).id = r.id) : Database :=
  { db with operations := db.operations.modify id f hf }

/-- `UPDATE backups SET … WHERE id = ?`. -/
def updateBackup (db : Database) (id : Id) (f : BackupRow → BackupRow)
    (hf : ∀ r, (f r).id = r.id) : Database :=
  { db with backups := db.backups.modify id f hf }

end Database

end CraftPanel
