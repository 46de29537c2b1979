import Mathlib.Algebra.Order.Ring.Unbundled.Rat
import CraftPanel.Database

/-!
# The operation store

`ops/store.rs`: one pure function for each transaction over the table of operations. The five
writers that address a row by its id (`advance`, `settle`, `requestCancel`, `dismiss`,
`setPayload`) are one transaction with different columns, `rewrite`; none of them looks at the
state the row is in. `begin` is the only writer that does.
-/

namespace CraftPanel.Ops

open Framework

structure Fault where
  status : Nat
  code : String
  message : String

def Fault.notFound (code message : String) : Fault := ⟨404, code, message⟩

def Fault.conflict (code message : String) : Fault := ⟨409, code, message⟩

def operationNotFound : Fault := Fault.notFound "operation_not_found" "no such operation"

/-- What a caller hands to `create`; the row's id and time come from the clock. -/
structure NewOperation where
  serverId : Id
  kind : OperationKind
  startedBy : Option Id := none
  src : Option String := none
  targetId : Option Id := none
  parentOperationId : Option Id := none
  input : Option String := none
  expectsPayload : Bool := false
  message : Option String := none

structure Step where
  phase : Option OperationPhase := none
  progress : Option Rat := none
  message : Option String := none
  bytesProcessed : Option Nat := none
  filesProcessed : Option Nat := none
  currentFile : Option String := none
  cancellable : Option Bool := none

/-- Reads and writes of one transaction: the database after the commit, or a fault and nothing
written. -/
abbrev Transaction (α : Type) := Database → Except Fault (Database × α)

def bumpRevision (db : Database) (server : Id) : Database :=
  db.updateServer server
    (fun row => { row with operationsRevision := row.operationsRevision + 1 }) fun _ => rfl

/-- The two partial unique indexes: one open backup run of each kind for a server. -/
def collides (db : Database) (new : NewOperation) : Bool :=
  (new.kind = .backupCreate || new.kind = .backupRestore) &&
    db.operations.rows.any fun row =>
      row.serverId = new.serverId && row.kind = new.kind && row.state.isOpen

/-- The row `insert_in` writes. -/
def NewOperation.row (new : NewOperation) (id : Id) (now : Timestamp) : OperationRow where
  id := id
  serverId := new.serverId
  kind := new.kind
  message := new.message
  src := new.src
  cancellable := new.kind.isCancellable
  targetId := new.targetId
  parentOperationId := new.parentOperationId
  startedBy := new.startedBy
  input := new.input
  payload := if new.expectsPayload then .expected else .none
  createdAt := now

/-- `insert`. A taken id fails like the partial indexes do: both are `UNIQUE` constraints. -/
def insert (new : NewOperation) (id : Id) (now : Timestamp) : Transaction OperationRow := fun db =>
  let collided := Fault.conflict "server_busy" "a backup run is already open on this server"
  if collides db new then .error collided
  else match db.operations.insert (new.row id now) with
    | none => .error collided
    | some operations => .ok (bumpRevision { db with operations } new.serverId, new.row id now)

/-- `server_of`, one `UPDATE operations SET … WHERE id = ?`, `bump_revision`, `fetch_in`. -/
def rewrite (id : Id) (f : OperationRow → OperationRow) (hf : ∀ r, (f r).id = r.id) :
    Transaction OperationRow := fun db =>
  match db.operations.find? id with
  | none => .error operationNotFound
  | some row => .ok (bumpRevision (db.updateOperation id f hf) row.serverId, f row)

def Step.apply (step : Step) (now : Timestamp) (row : OperationRow) : OperationRow :=
  { row with
    phase := step.phase <|> row.phase
    progress := (step.progress.map fun value => max 0 (min 1 value)).getD row.progress
    message := step.message <|> row.message
    bytesProcessed := step.bytesProcessed <|> row.bytesProcessed
    filesProcessed := step.filesProcessed <|> row.filesProcessed
    currentFile := step.currentFile <|> row.currentFile
    cancellable := step.cancellable.getD row.cancellable
    progressedAt := some now }

def advance (id : Id) (step : Step) (now : Timestamp) : Transaction OperationRow :=
  rewrite id (step.apply now) fun _ => rfl

def settledRow (state : OperationState) (error : Option OperationError) (now : Timestamp)
    (row : OperationRow) : OperationRow :=
  { row with
    state := state
    finishedAt := some now
    cancellable := false
    progress := if state = .done then 1 else row.progress
    error := error }

def settle (id : Id) (state : OperationState) (error : Option OperationError)
    (now : Timestamp) : Transaction OperationRow :=
  rewrite id (settledRow state error now) fun _ => rfl

def requestCancel (id : Id) : Transaction OperationRow :=
  rewrite id (fun row => { row with cancelRequested := true }) fun _ => rfl

def dismiss (id : Id) (now : Timestamp) : Transaction OperationRow :=
  rewrite id (fun row => { row with dismissedAt := row.dismissedAt <|> some now }) fun _ => rfl

def setPayload (id : Id) (payload : Payload) : Transaction OperationRow :=
  rewrite id (fun row => { row with payload }) fun _ => rfl

/-- `Operations::finish`, `fail` and `cancelled`. -/
def finish (id : Id) (now : Timestamp) : Transaction OperationRow := settle id .done none now

def fail (id : Id) (error : OperationError) (now : Timestamp) : Transaction OperationRow :=
  settle id .failed (some error) now

def cancelledByUser : OperationError where
  code := "cancelled_by_user"
  message := "the run was called off"
  step := .internal

def cancelled (id : Id) (now : Timestamp) : Transaction OperationRow :=
  settle id .cancelled (some cancelledByUser) now

def isOngoing (row : OperationRow) : Bool := row.state = .ongoing

def begunRow (now : Timestamp) (row : OperationRow) : OperationRow :=
  if row.state = .queued then
    { row with state := .ongoing, startedAt := some now, progressedAt := some now }
  else row

/-- The guard of `begin`, on the row it finds. -/
def mayBegin (db : Database) (row : OperationRow) : Prop :=
  row.state = .queued ∧ row.payload ≠ .expected ∧
    db.operations.count (fun other => other.serverId = row.serverId && isOngoing other) = 0 ∧
    db.operations.count isOngoing < db.settings.maxConcurrentOperations

instance (db : Database) (row : OperationRow) : Decidable (mayBegin db row) :=
  inferInstanceAs (Decidable (_ ∧ _))

theorem begunRow_id (now : Timestamp) (row : OperationRow) : (begunRow now row).id = row.id := by
  unfold begunRow
  split <;> rfl

/-- A queued row starts when no row of its server is ongoing and the panel's width has room. -/
def begin (id : Id) (now : Timestamp) : Transaction (Option OperationRow) := fun db =>
  match db.operations.find? id with
  | none => .error operationNotFound
  | some row =>
    if row.state ≠ .queued ∨ row.payload = .expected then .ok (db, none)
    else
      let mine := db.operations.count fun other => other.serverId = row.serverId && isOngoing other
      let running := db.operations.count isOngoing
      if mine > 0 ∨ running ≥ db.settings.maxConcurrentOperations then .ok (db, none)
      else .ok (bumpRevision (db.updateOperation id (begunRow now) (begunRow_id now)) row.serverId,
        some (begunRow now row))

def openOn (server : Id) (row : OperationRow) : Bool := row.serverId = server && row.state.isOpen

/-- The reasons of `busy_reasons`, in the order the enumeration sorts them. -/
def busyReasons (db : Database) (server : Id) : List BusyReasonCode :=
  let held := (db.operations.select (openOn server)).filterMap (·.kind.busyReason)
  [.installing, .syncingContent, .backupCreating, .backupRestoring, .deleting].filter (· ∈ held)

def explain : BusyReasonCode → String
  | .installing => "an installation is running on this server"
  | .syncingContent => "content is being installed or updated"
  | .backupCreating => "a backup is being created"
  | .backupRestoring => "a backup is being restored"
  | .deleting => "this server is being deleted"

def guardWrite (db : Database) (server : Id) : Except Fault Unit :=
  match (busyReasons db server).head? with
  | none => .ok ()
  | some reason => .error (.conflict "server_busy" (explain reason))

/-- `coalesce(progressed_at, started_at, created_at)`. -/
def lastSign (row : OperationRow) : Timestamp :=
  (row.progressedAt <|> row.startedAt).getD row.createdAt

def stalled (db : Database) (stalledBefore : Timestamp) : List Id :=
  (db.operations.select fun row => isOngoing row && lastSign row < stalledBefore).map (·.id)

def unpaid (db : Database) (unpaidBefore : Timestamp) : List Id :=
  (db.operations.select fun row =>
    row.state = .queued && row.payload = .expected && row.createdAt < unpaidBefore).map (·.id)

def timeoutError : OperationError where
  code := "timeout"
  message := "no progress for ten minutes"
  step := .internal

def payloadTimeoutError : OperationError where
  code := "payload_timeout"
  message := "the upload never arrived"
  step := .internal

/-- The rows `recover` fails at a start, in the order of their ids. -/
def interrupted (db : Database) : List OperationRow :=
  (db.operations.select fun row => row.state.isOpen && row.kind ≠ .serverDelete).mergeSort
    fun a b => a.id ≤ b.id

def interruption (kind : OperationKind) (applied : Bool) : OperationError :=
  match kind, applied with
  | .backupRestore, _ =>
    ⟨"restore_interrupted", "the panel stopped while this backup was being restored", .filesystem⟩
  | .unarchive, true =>
    ⟨"interrupted_while_applying", "the panel stopped while entries were being moved into place",
      .filesystem⟩
  | _, _ => ⟨"panel_restarted", "the panel restarted while this was running", .internal⟩

/-- `ON DELETE SET NULL` of `operations.target_id`. -/
def dropTarget (backup : Id) (row : OperationRow) : OperationRow :=
  if row.targetId = some backup then { row with targetId := none } else row

theorem dropTarget_id (backup : Id) (row : OperationRow) : (dropTarget backup row).id = row.id := by
  unfold dropTarget
  split <;> rfl

/-- `DELETE FROM backups WHERE id = ?` with the schema's foreign keys: runs lose their target,
the upload session goes with the row. -/
def deleteBackup (db : Database) (backup : Id) : Database :=
  { db with
    backups := db.backups.erase backup
    uploads := db.uploads.erase backup
    operations := db.operations.map (dropTarget backup) (dropTarget_id backup) }

def cleanUpAfter (db : Database) (kind : OperationKind) (server : Id) (target : Option Id) :
    Database :=
  match kind with
  | .serverCreate =>
    db.updateServer server (fun row => { row with status := .broken, flowsIntro := true })
      fun _ => rfl
  | .installLoader | .repairContent | .resetServer | .installModpack | .changeGameVersion
  | .backupRestore => db.updateServer server (fun row => { row with status := .broken }) fun _ => rfl
  | .backupCreate => match target with
    | some backup => if (db.uploads.find? backup).isSome then db else deleteBackup db backup
    | none => db
  | .installContent | .updateContent | .installJava | .unarchive | .serverDelete => db

/-- `STANDING_FAILURE`: the reason why its server still stands at `deleting`. -/
def isStandingFailure (db : Database) (row : OperationRow) : Bool :=
  row.kind = .serverDelete && row.state = .failed &&
    (db.servers.find? row.serverId).any (·.status = .deleting)

/-- What `purge_finished` deletes. -/
def isOutdated (db : Database) (before : Timestamp) (row : OperationRow) : Bool :=
  row.state.isTerminal && row.finishedAt.any (· < before) && !isStandingFailure db row

/-- `ON DELETE SET NULL` of `operations.parent_operation_id`. -/
def dropParent (gone : List Id) (row : OperationRow) : OperationRow :=
  if row.parentOperationId.any (· ∈ gone) then { row with parentOperationId := none } else row

theorem dropParent_id (gone : List Id) (row : OperationRow) : (dropParent gone row).id = row.id := by
  unfold dropParent
  split <;> rfl

def purgeFinished (before : Timestamp) (db : Database) : Database :=
  let gone := (db.operations.select (isOutdated db before)).map (·.id)
  { db with
    operations := (db.operations.discard (isOutdated db before)).map (dropParent gone)
      (dropParent_id gone) }

section Effects

variable {db db' : Database} {id : Id} {row : OperationRow}

theorem rewrite_ok {f : OperationRow → OperationRow} {hf : ∀ r, (f r).id = r.id}
    (h : rewrite id f hf db = .ok (db', row)) :
    db'.operations = db.operations.modify id f hf ∧ db'.settings = db.settings ∧
      ∃ old, db.operations.find? id = some old ∧ row = f old := by
  unfold rewrite at h
  cases hfind : db.operations.find? id with
  | none => simp [hfind] at h
  | some old =>
    simp only [hfind, Except.ok.injEq, Prod.mk.injEq] at h
    obtain ⟨rfl, rfl⟩ := h
    exact ⟨rfl, rfl, old, rfl, rfl⟩

theorem insert_ok {new : NewOperation} {now : Timestamp}
    (h : insert new id now db = .ok (db', row)) :
    db.operations.insert (new.row id now) = some db'.operations ∧ db'.settings = db.settings ∧
      row = new.row id now := by
  unfold insert at h
  simp only at h
  split at h
  · simp at h
  split at h
  · simp at h
  rename_i operations hins
  simp only [Except.ok.injEq, Prod.mk.injEq] at h
  obtain ⟨rfl, rfl⟩ := h
  exact ⟨hins, rfl, rfl⟩

theorem begin_ok {now : Timestamp} {answer : Option OperationRow}
    (h : begin id now db = .ok (db', answer)) :
    (answer = none ∧ db' = db) ∨
    ∃ old, db.operations.find? id = some old ∧ mayBegin db old ∧
      answer = some (begunRow now old) ∧ db'.settings = db.settings ∧
      ∀ j, db'.operations.find? j =
        if j = id then (db.operations.find? j).map (begunRow now) else db.operations.find? j := by
  unfold begin at h
  cases hfind : db.operations.find? id with
  | none => simp [hfind] at h
  | some old =>
    simp only [hfind] at h
    split at h
    · simp only [Except.ok.injEq, Prod.mk.injEq] at h
      exact .inl ⟨h.2.symm, h.1.symm⟩
    rename_i hstate
    split at h
    · simp only [Except.ok.injEq, Prod.mk.injEq] at h
      exact .inl ⟨h.2.symm, h.1.symm⟩
    rename_i hroom
    simp only [Except.ok.injEq, Prod.mk.injEq] at h
    obtain ⟨rfl, rfl⟩ := h
    simp only [not_or, not_not, Nat.not_lt, Nat.le_zero, ge_iff_le, Nat.not_le] at hstate hroom
    exact .inr ⟨old, rfl, ⟨hstate.1, hstate.2, hroom⟩, rfl, rfl,
      fun j => Table.find?_modify _ _ _ _ (begunRow_id now)⟩

end Effects

end CraftPanel.Ops
