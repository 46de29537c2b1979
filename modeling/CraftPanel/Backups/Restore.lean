import CraftPanel.Ops.Interleaving
import CraftPanel.Servers.Power

/-!
# Restores

`restore`, `retry` and `run_restore` of `backups/mod.rs` on one server, beside its power and
everything that writes operations. A request reads what it checks, statement by statement, and
then creates its operation; from there on the handler and the task it spawns are one run, since
the handler has only to announce after it has spawned. `guard_write` of the power routines reads
the operations of this module.
-/

namespace CraftPanel.Backups.Restore

open Framework

def maxQuota : Nat := 50

/-- `ORDER BY created_at DESC, id DESC`. -/
def isNewer (a b : OperationRow) : Bool :=
  b.createdAt < a.createdAt || (a.createdAt = b.createdAt && b.id < a.id)

def newest : List OperationRow → Option OperationRow
  | [] => none
  | row :: rows => match newest rows with
    | some best => some (if isNewer row best then row else best)
    | none => some row

def isRunOf (backup : Id) (row : OperationRow) : Bool :=
  row.targetId = some backup && (row.kind = .backupCreate || row.kind = .backupRestore)

def newestRun (db : Database) (backup : Id) : Option OperationRow :=
  newest (db.operations.select (isRunOf backup))

/-- `status_of` is `Done`. -/
def isDone (db : Database) (row : BackupRow) : Bool :=
  match newest (db.operations.select fun run => run.serverId = row.serverId && isRunOf row.id run) with
  | some run => run.state = .done || run.state = .cancelled
  | none => 0 < row.sizeBytes

def safetyCopyFor (db : Database) (backup : Id) : Option Id :=
  (newest (db.operations.select fun copy =>
    copy.kind = .backupCreate && copy.targetId.isSome &&
      (copy.parentOperationId.bind db.operations.find?).any fun restore =>
        restore.kind = .backupRestore && restore.targetId = some backup)).bind (·.targetId)

def safetyRunOf (db : Database) (restore : Id) : Option Id :=
  (newest (db.operations.select fun row =>
    row.parentOperationId = some restore && row.kind = .backupCreate)).map (·.id)

def refuses (db : Database) (server : Id) : Bool :=
  match Ops.guardWrite db server with
  | .ok () => false
  | .error _ => true

inductive Check
  | mine
  | runningLink
  | linkState (link : Nat)
  | status
  | source
  | lastRun
  | guardWrite
  | copy
  | quota
  | space
  deriving DecidableEq

/-- `restore` up to `create`. -/
def restoreChecks : List Check :=
  [.mine, .runningLink, .status, .source, .guardWrite, .quota, .space]

/-- `retry` of a restore up to `create`. -/
def retryChecks : List Check := [.mine, .lastRun, .guardWrite, .runningLink, .copy]

structure Request where
  backup : Id
  startedBy : Id
  /-- A safety copy is still to be made. -/
  copies : Bool := true
  todo : List Check

/-- `Ended`, and the run that went well. -/
inductive Outcome
  | done
  | calledOff
  | failed (error : OperationError)
  deriving DecidableEq

/-- Where a run is: `create_for` with the safety copy, `run_restore`, and `unroll` from
`prepares` to `clears`. -/
inductive Phase
  | copies
  | copying (backup : Id)
  | gaveUp
  | copied (copy : Id)
  | opened
  | seeks
  | saving (safety : Id)
  | blames (error : OperationError)
  | waits
  | looks
  | prepares
  | movesAway
  | movesIn (away : Bool)
  | movesBack (error : OperationError)
  | clears
  | ends (outcome : Outcome)
  deriving DecidableEq

structure Run where
  id : Id
  startedBy : Id
  phase : Phase

structure System where
  id : Id
  server : Servers.System
  ops : Ops.System
  requests : List Request := []
  runs : Table Run.id := Table.empty

/-- What a step of a run finds: how a fallible step of it ends, whether the server's directory
stands, and the id, the place and the time of what it writes. -/
structure Choice where
  outcome : Outcome := .done
  stands : Bool := true
  fresh : Id := 0
  location : BackupLocation := .local
  now : Timestamp := 0

inductive Event
  | server (e : Servers.Event)
  | ops (e : Ops.Event)
  | asksRestore (backup caller : Id)
  | asksRetry (backup caller : Id)
  | checks (i : Nat) (ok : Bool)
  | creates (i : Nat) (id : Id) (now : Timestamp)
  | moves (id : Id) (choice : Choice)

def withoutBackup : OperationError :=
  ⟨"internal", "a restore run without a backup", .filesystem⟩

def safetyFailed : OperationError :=
  ⟨"safety_backup_failed", "the safety copy could not be made", .filesystem⟩

def Outcome.settling (id : Id) (now : Timestamp) : Outcome → Ops.Event
  | done => .finish id now
  | calledOff => .cancelled id now
  | failed error => .fail id error now

namespace System

variable (s : System)

def check (ok : Bool) (request : Request) : Check → Option Request
  | .mine =>
    if (s.ops.db.backups.find? request.backup).any (·.serverId = s.id) then some request else none
  | .runningLink => match s.server.hub with
    | some k => some { request with todo := .linkState k :: request.todo }
    | none => some request
  | .linkState k => if (s.server.linkState k).isLive then none else some request
  | .status =>
    if (s.ops.db.backups.find? request.backup).any (isDone s.ops.db) then some request else none
  | .source => match s.ops.db.backups.find? request.backup with
    | some row =>
      if row.serverId = s.id && row.driveState ≠ some .missing && row.driveState ≠ some .trashed &&
        row.driveContentChangedAt.isNone then some request else none
    | none => none
  | .lastRun =>
    if (newestRun s.ops.db request.backup).any fun run =>
      run.state = .failed && run.kind = .backupRestore then some request else none
  | .guardWrite => if refuses s.ops.db s.id then none else some request
  | .copy => match safetyCopyFor s.ops.db request.backup with
    | some copy => (s.ops.db.backups.find? copy).map fun row =>
        if isDone s.ops.db row then { request with copies := false }
        else { request with todo := .quota :: .space :: request.todo }
    | none => some { request with todo := .quota :: .space :: request.todo }
  | .quota =>
    if s.ops.db.backups.count (·.serverId = s.id) + 1 ≤
      min s.ops.db.settings.maxBackupsPerServer maxQuota then some request else none
  | .space => if ok then some request else none

def checks (i : Nat) (ok : Bool) : Option System :=
  match s.requests[i]? with
  | some request => match request.todo with
    | check :: todo => match s.check ok { request with todo } check with
      | some request => some { s with requests := s.requests.set i request }
      | none => some { s with requests := s.requests.eraseIdx i }
    | [] => none
  | none => none

def newRestore (request : Request) : Ops.NewOperation where
  serverId := s.id
  kind := .backupRestore
  startedBy := some request.startedBy
  targetId := some request.backup

def newSafety (run : Run) (backup : Id) : Ops.NewOperation where
  serverId := s.id
  kind := .backupCreate
  startedBy := some run.startedBy
  targetId := some backup
  parentOperationId := some run.id

/-- A request that has passed its checks creates the operation, and becomes its run. -/
def creates (i : Nat) (id : Id) (now : Timestamp) : Option System :=
  match s.requests[i]? with
  | some request =>
    if request.todo = [] then match Ops.insert (s.newRestore request) id now s.ops.db with
      | .ok (db, _) =>
        let phase := if request.copies then .copies else .opened
        (s.runs.insert { id, startedBy := request.startedBy, phase }).map fun runs =>
          { s with ops := { s.ops with db }, requests := s.requests.eraseIdx i, runs }
      | .error _ => some { s with requests := s.requests.eraseIdx i }
    else none
  | none => none

/-- One step of a run: the operations after it, and the phase that comes next if the run goes
on. -/
def next (run : Run) (choice : Choice) : Option (Ops.System × Option Phase) :=
  let db := s.ops.db
  match run.phase with
  | .copies =>
    let row : BackupRow := {
      id := choice.fresh
      serverId := s.id
      createdAt := choice.now
      location := choice.location }
    match db.backups.insert row with
    | some backups => some ({ s.ops with db := { db with backups } }, some (.copying choice.fresh))
    | none => some (s.ops, some .gaveUp)
  | .copying backup =>
    match Ops.insert (s.newSafety run backup) choice.fresh choice.now db with
    | .ok (db, row) => some ({ s.ops with db }, some (.copied row.id))
    | .error _ => some ({ s.ops with db := Ops.deleteBackup db backup }, some .gaveUp)
  | .gaveUp => (s.ops.step (.cancelled run.id choice.now)).map (·, none)
  | .copied copy =>
    some ({ s.ops with db := Ops.after db (Ops.dismiss copy choice.now) }, some .opened)
  | .opened => some (s.ops, (db.operations.find? run.id).map fun row =>
      if row.targetId.isSome then .seeks else .blames withoutBackup)
  | .seeks => some (s.ops, some (match safetyRunOf db run.id with
    | some safety => .saving safety
    | none => .waits))
  | .saving safety => some (s.ops, some (
      if (db.operations.find? safety).any (·.state = .done) then .waits else .blames safetyFailed))
  | .blames error => (s.ops.step (.fail run.id error choice.now)).map (·, none)
  | .waits => match Ops.begin run.id choice.now db with
    | .ok (_, some _) => (s.ops.step (.begin run.id choice.now)).map (·, some .prepares)
    | .ok (_, none) => some (s.ops, some .looks)
    | .error _ => some (s.ops, none)
  | .looks => some (s.ops,
      if (db.operations.find? run.id).any (·.state = .queued) then some .waits else none)
  | .prepares => some (s.ops, some (match choice.outcome with
    | .done => .movesAway
    | outcome => .ends outcome))
  | .movesAway => some (s.ops, some (if choice.stands then match choice.outcome with
      | .failed error => .ends (.failed error)
      | _ => .movesIn true
    else .movesIn false))
  | .movesIn away => some (s.ops, some (match choice.outcome with
    | .failed error => if away then .movesBack error else .ends (.failed error)
    | _ => .clears))
  | .movesBack error => some (s.ops, some (.ends (.failed error)))
  | .clears => some (s.ops, some (.ends .done))
  | .ends outcome => (s.ops.step (outcome.settling run.id choice.now)).map (·, none)

def moves (id : Id) (choice : Choice) : Option System :=
  match s.runs.find? id with
  | some run => match s.next run choice with
    | some (ops, some phase) =>
      some { s with ops, runs := s.runs.modify id (fun run => { run with phase }) fun _ => rfl }
    | some (ops, none) => some { s with ops, runs := s.runs.erase id }
    | none => none
  | none => none

/-- A step of the server, whose routines read the operations that are there now. -/
def serves (e : Servers.Event) : Option System :=
  match e with
  | .turnsBusy _ => none
  | e =>
    let now := { s.server with busy := refuses s.ops.db s.id }
    (now.step e).map fun server => { s with server := server }

def step : Event → Option System
  | .server e => s.serves e
  | .ops e => (s.ops.step e).map fun ops => { s with ops }
  | .asksRestore backup caller => some { s with
      requests := s.requests ++ [{ backup, startedBy := caller, todo := restoreChecks }] }
  | .asksRetry backup caller => some { s with
      requests := s.requests ++ [{ backup, startedBy := caller, todo := retryChecks }] }
  | .checks i ok => s.checks i ok
  | .creates i id now => s.creates i id now
  | .moves id choice => s.moves id choice

end System

def machine : Machine System Event := ⟨System.step⟩

def booted (id : Id) (row : ServerRow) (processes : List Servers.Process) (db : Database) :
    System where
  id := id
  server := Servers.booted row processes
  ops := { db }

end CraftPanel.Backups.Restore
