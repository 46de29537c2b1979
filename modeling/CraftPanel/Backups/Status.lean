import CraftPanel.Backups.Quota

/-!
# What the status of a backup says

`status_of` beside everything that makes a status. One backup is followed, from the moment its first
run is in the table: `run_create`, `restore` and `retry` of `backups/mod.rs`, the deletes, the purge
and whatever else writes operations come in any order. Of the archive it is known whether it lies
here as a whole, and which of its files are in the Drive. What the requests look at besides the runs
of the backup is the event's to say.
-/

namespace CraftPanel.Backups.Status

open Framework Restore SafetyCopies

inductive BackupOperationState
  | pending | ongoing | completed | cancelled | failed | timedOut
  deriving DecidableEq

def BackupOperationState.of (state : OperationState) (errorCode : Option String) :
    BackupOperationState :=
  match state with
  | .queued => .pending
  | .ongoing => .ongoing
  | .done => .completed
  | .cancelled => .cancelled
  | .failed => if errorCode = some "timeout" then .timedOut else .failed

inductive BackupStatus
  | pending | inProgress | timedOut | error | done
  deriving DecidableEq

def BackupStatus.of : BackupOperationState → BackupStatus
  | .pending => .pending
  | .ongoing => .inProgress
  | .completed => .done
  | .failed => .error
  | .timedOut => .timedOut
  | .cancelled => .done

/-- `RunRow::state`. -/
def stateOf (run : OperationRow) : BackupOperationState :=
  .of run.state (run.error.map OperationError.code)

/-- The newest of the runs that `runs_of` finds for a backup. -/
def newestOf (db : Database) (row : BackupRow) : Option OperationRow :=
  newest (db.operations.select fun run => run.serverId = row.serverId && isRunOf row.id run)

def statusOf (db : Database) (row : BackupRow) : BackupStatus :=
  match newestOf db row with
  | some run => .of (stateOf run)
  | none => if 0 < row.sizeBytes then .done else .error

def webLink (id : String) : String := "https://drive.google.com/file/d/" ++ id ++ "/view"

/-- `run_create`, from `wait_for_a_turn` to the end of its operation. -/
inductive Phase
  | waits
  | looks
  | forgets
  | chooses
  | packs
  | packing
  | delivers
  | drops (fault : Option OperationError)
  | ends (outcome : Outcome)

structure Task where
  run : Id
  phase : Phase := .waits

/-- Where a request stands: `restore` before its look at the status, `retry` before its look at the
newest run, `retry` of a create before and after it has cleared the archive away, and what is about
to make its restore. -/
inductive Stage
  | asks
  | recalls
  | clears
  | creates
  | restores
  deriving DecidableEq

structure Request where
  startedBy : Id
  stage : Stage

structure System where
  id : Id
  backup : Id
  ops : Ops.System
  requests : List Request := []
  tasks : List Task := []
  /-- The whole archive lies at `archive_of`. -/
  archive : Bool := false
  /-- The files of the backup in the Drive. -/
  stored : List String := []

/-- What a step finds: how it ends, whether the other checks of a request pass, whether `resumable`
finds an archive whose upload can be carried on, and what is drawn or written down. -/
structure Found where
  outcome : Outcome := .done
  ok : Bool := true
  carried : Bool := false
  size : Nat := 1
  stored : Drive.Stored := ⟨"", none⟩
  fresh : Id := 0
  now : Timestamp := 0

inductive Event
  | ops (e : Ops.Event)
  | asks (startedBy : Id)
  | retries (startedBy : Id)
  | answers (i : Nat) (found : Found)
  | starts (run : Id)
  | moves (i : Nat) (found : Found)
  | forgets
  | marks (state : DriveFileState) (changedAt : Option Timestamp)
  | purges (before : Timestamp)

namespace System

variable (s : System)

def db : Database := s.ops.db

def setDb (db : Database) : System := { s with ops := { s.ops with db } }

def row : Option BackupRow := s.db.backups.find? s.backup

def kept (row : BackupRow) : Bool :=
  match row.location with
  | .local => s.archive
  | .drive => row.driveFileId.any fun file => s.stored.contains file

def draws (id : Id) : Bool := s.tasks.all (·.run ≠ id)

/-- `run_create` alone finishes the creates of this backup, and only the requests here make runs of
it; `recover` is done before they can be reached. -/
def admits (e : Ops.Event) : Bool :=
  (s.ops.inserts e).all (fun new => !isBackup new.kind || new.targetId ≠ some s.backup) &&
    (e.finishes.bind s.db.operations.find?).all (fun row =>
      row.kind ≠ .backupCreate || row.targetId ≠ some s.backup) &&
    match e with
    | .create _ id _ => s.draws id
    | .handlerMoves _ fresh _ _ => s.draws fresh
    | .recoveryReads | .recoveryMoves _ => false
    | _ => true

def newRun (request : Request) (kind : OperationKind) : Ops.NewOperation where
  serverId := s.id
  kind := kind
  startedBy := some request.startedBy
  targetId := some s.backup

/-- The last statement of a request; a refused one leaves everything as it is. -/
def creates (request : Request) (kind : OperationKind) (found : Found) : System :=
  match Entries.createRun s.db (s.newRun request kind) found.fresh found.now with
  | .ok (db, _) => s.setDb db
  | .error _ => s

/-- `retry` of a create asks for the space, drops the upload and removes the archive, unless the
upload can be carried on. -/
def clears (carried : Bool) : System :=
  if carried then s else { s.setDb (Drive.forgetUpload s.db s.backup) with archive := false }

/-- The next statement of a request, and the request that is left after it. -/
def answer (request : Request) (found : Found) : System × Option Request :=
  match request.stage with
  | .asks => (s, if s.row.any (statusOf s.db · = .done) then
      some { request with stage := .restores } else none)
  | .recalls => (s, match newestRun s.db s.backup with
    | some run =>
      if stateOf run = .failed || stateOf run = .timedOut then
        some { request with
          stage := if run.kind = .backupCreate then .clears else .restores }
      else none
    | none => none)
  | .clears => (s.clears found.carried, some { request with stage := .creates })
  | .creates => (s.creates request .backupCreate found, none)
  | .restores => (s.creates request .backupRestore found, none)

def answers (i : Nat) (found : Found) : Option System :=
  (s.requests[i]?).map fun request =>
    if found.ok then match s.answer request found with
      | (t, some request) => { t with requests := s.requests.set i request }
      | (t, none) => { t with requests := s.requests.eraseIdx i }
    else { s with requests := s.requests.eraseIdx i }

/-- `forget`: the row goes, then what is left of its archive. -/
def forgets : System :=
  { s.setDb (Ops.deleteBackup s.db s.backup) with
    archive := false
    stored := s.stored.filter fun file => s.row.all (·.driveFileId ≠ some file) }

/-- `deliver` writes down the archive that is kept here or stored in the Drive. -/
def delivers (found : Found) (row : BackupRow) : System :=
  match row.location with
  | .local => s.setDb (s.db.updateBackup s.backup
      (fun row => { row with sizeBytes := found.size }) fun _ => rfl)
  | .drive => { s.setDb (Drive.finishUpload s.db s.backup found.stored found.size) with
      archive := false
      stored := found.stored.fileId :: s.stored }

/-- The end of a run that made nothing: it failed, or it was called off and its backup goes. -/
def drops (fault : Option OperationError) : System :=
  let t := { s.setDb (Drive.forgetUpload s.db s.backup) with archive := false }
  match fault with
  | some _ => t
  | none => t.forgets

def settles (run : Id) (outcome : Outcome) (now : Timestamp) : System :=
  s.setDb (Ops.after s.db (match outcome with
    | .done => Ops.finish run now
    | .calledOff => Ops.cancelled run now
    | .failed error => Ops.fail run error now))

/-- One step of `run_create`. -/
def next (task : Task) (found : Found) : System × Option Phase :=
  match task.phase with
  | .waits => match Ops.begin task.run found.now s.db with
    | .ok (db, some _) => (s.setDb db, some .chooses)
    | .ok (_, none) => (s, some .looks)
    | .error _ => (s, none)
  | .looks => (s, match (s.db.operations.find? task.run).map OperationRow.state with
    | some .queued => some .waits
    | some .cancelled => some .forgets
    | _ => none)
  | .forgets => (s.forgets, none)
  | .chooses => (s, some (if found.carried && s.archive then .delivers else .packs))
  | .packs => ({ s with archive := false }, some .packing)
  | .packing => match found.outcome with
    | .done => ({ s with archive := true }, some .delivers)
    | .calledOff => (s, some (.drops none))
    | .failed error => (s, some (.drops (some error)))
  | .delivers => match found.outcome, s.row with
    | .done, some row => (s.delivers found row, some (.ends .done))
    | .done, none => (s, some (.drops (some gone)))
    | .calledOff, _ => (s, some (.drops none))
    | .failed error, _ => (s, some (.drops (some error)))
  | .drops fault => (s.drops fault, some (.ends (fault.elim .calledOff .failed)))
  | .ends outcome => (s.settles task.run outcome found.now, none)

def moves (i : Nat) (found : Found) : Option System :=
  if 0 < found.size then (s.tasks[i]?).map fun task => match s.next task found with
    | (t, some phase) => { t with tasks := s.tasks.set i { task with phase } }
    | (t, none) => { t with tasks := s.tasks.eraseIdx i }
  else none

def starts (run : Id) : Option System :=
  if (s.db.operations.find? run).any fun row =>
      row.kind = .backupCreate && row.targetId = some s.backup then
    some { s with tasks := s.tasks ++ [{ run }] }
  else none

def step : Event → Option System
  | .ops e => if s.admits e then (s.ops.step e).map fun ops => { s with ops } else none
  | .asks startedBy => some { s with requests := s.requests ++ [⟨startedBy, .asks⟩] }
  | .retries startedBy => some { s with requests := s.requests ++ [⟨startedBy, .recalls⟩] }
  | .answers i found => if s.draws found.fresh then s.answers i found else none
  | .starts run => s.starts run
  | .moves i found => s.moves i found
  | .forgets => some s.forgets
  | .marks state changedAt => some (s.setDb
      (Drive.setContentChanged (Drive.setFileState s.db s.backup state) s.backup changedAt))
  | .purges before => some (s.setDb (Ops.purgeFinished before s.db))

/-- `download`; a file that is missing is an internal error. -/
def download : Except Ops.Fault BackupRow :=
  match s.row with
  | none => .error (.notFound "backup_not_found" "no such backup")
  | some row =>
    if row.serverId ≠ s.id then .error (.notFound "backup_not_found" "no such backup")
    else if statusOf s.db row ≠ .done then
      .error (.conflict "backup_not_downloadable" "this backup is not finished")
    else match row.location with
      | .drive => .error (.conflict "backup_lives_in_drive"
          ("this backup lies in your own Google Drive: " ++
            (row.driveFileId.map webLink).getD "your Google Drive"))
      | .local => if s.archive then .ok row else .error ⟨500, "internal", "no such file"⟩

end System

def machine : Machine System Event := ⟨System.step⟩

def Task.works (task : Task) : Bool :=
  match task.phase with
  | .chooses | .packs | .packing | .delivers | .drops _ => true
  | _ => false

namespace System

variable (s : System)

/-- A backup is shown as done exactly when it was delivered and is there, and one that lies here can
be downloaded. -/
def Truthful : Prop :=
  ∀ row, s.row = some row →
    (statusOf s.db row = .done ↔ 0 < row.sizeBytes ∧ s.kept row = true) ∧
    (0 < row.sizeBytes → s.kept row = true → row.serverId = s.id → row.location = .local →
      s.download = .ok row)

/-- A backup that is shown as done is there, unless its run was called off. One that is there stays
there whatever becomes of its restores, is shown as done when the newest run ended well or was
called off, and when no run is left, and can be downloaded while it is shown as done. -/
def Accounts : Prop :=
  ∀ row, s.row = some row →
    (statusOf s.db row = .done → calledOff s.db row = true ∨
      0 < row.sizeBytes ∧ s.kept row = true) ∧
    (0 < row.sizeBytes → s.kept row = true ∧
      (statusOf s.db row = .done ↔ ∀ run, newestOf s.db row = some run →
        run.state = .done ∨ run.state = .cancelled) ∧
      (row.serverId = s.id → row.location = .local →
        (s.download = .ok row ↔ statusOf s.db row = .done)))

/-- A restore is not asked of a backup whose run was called off before it made anything, and a create
is retried when nothing is at work on the backup any more and its archive was not delivered. -/
def orderly : Event → Bool
  | .answers i _ => match (s.requests[i]?).map Request.stage with
    | some .asks => s.row.all fun row => !calledOff s.db row
    | some .clears | some .creates =>
      s.tasks.all (fun task => !task.works) && s.row.all (·.sizeBytes = 0)
    | _ => true
  | _ => true

def Delivered : Prop := ∀ row, s.row = some row → 0 < row.sizeBytes

def isQueuedCreate (backup : Id) (run : OperationRow) : Bool :=
  run.kind = .backupCreate && run.targetId = some backup && run.state = .queued

def hands : Nat := s.db.operations.count (isQueuedCreate s.backup) + s.tasks.countP Task.works

/-- `create_for` has just put the backup and its run into the tables. -/
structure Created : Prop where
  requests : s.requests = []
  tasks : s.tasks = []
  row : ∀ row, s.row = some row → row.sizeBytes = 0
  run : ∀ j run, s.db.operations.find? j = some run → run.targetId = some s.backup →
    run.kind = .backupCreate ∧ run.serverId = s.id ∧ run.state = .queued
  one : s.db.operations.count (isQueuedCreate s.backup) ≤ 1

end System

/-- What holds of the backup while `n` more hands are on it. -/
structure Inv (n : Nat) (s : System) : Prop where
  kept : ∀ row, s.row = some row → 0 < row.sizeBytes → s.kept row = true
  creates : ∀ j run, s.db.operations.find? j = some run → run.targetId = some s.backup →
    run.kind = .backupCreate → run.serverId = s.id ∧ (run.state = .done → s.Delivered)
  restores : ∀ j run, s.db.operations.find? j = some run → run.targetId = some s.backup →
    run.kind = .backupRestore → s.Delivered
  requests : ∀ request ∈ s.requests, request.stage = .restores → s.Delivered
  ended : ∀ task ∈ s.tasks, task.phase = .ends .done → s.Delivered
  aims : ∀ row, s.row = some row → ∀ task ∈ s.tasks, ∀ run,
    s.db.operations.find? task.run = some run →
      run.kind = .backupCreate ∧ run.targetId = some s.backup
  packed : ∀ row, s.row = some row → ∀ task ∈ s.tasks, task.phase = .delivers → s.archive = true
  hands : ∀ row, s.row = some row → s.hands + n ≤ 1 ∧ (0 < s.hands + n → row.sizeBytes = 0)

section Rows

variable {s t : System} {task : Task} {n m : Nat}

/-- Every run goes on from one that was there, and is done only if that one delivered; what is new is
no run of this backup. -/
def Carried (s : System) (operations : Table OperationRow.id) : Prop :=
  ∀ j run', operations.find? j = some run' →
    (∃ run, s.db.operations.find? j = some run ∧ Ops.Carries run run' ∧
      (run'.state = .done → run.state = .done ∨
        (run.kind = .backupCreate → run.targetId = some s.backup → s.Delivered))) ∨
    isRunOf s.backup run' = false ∧ s.draws j = true

variable {operations : Table OperationRow.id}

theorem Carried.queued (h : Carried s operations) {j : Id}
    {run' : OperationRow} (hrun' : operations.find? j = some run')
    (htest : System.isQueuedCreate s.backup run' = true) :
    ∃ run, s.db.operations.find? j = some run ∧ System.isQueuedCreate s.backup run = true := by
  simp only [System.isQueuedCreate, Bool.and_eq_true, decide_eq_true_eq] at htest
  obtain ⟨⟨hkind, htarget⟩, hqueued⟩ := htest
  rcases h j run' hrun' with ⟨run, hrun, hcarries, -⟩ | ⟨hother, -⟩
  · refine ⟨run, hrun, ?_⟩
    simp [System.isQueuedCreate, ← hcarries.kind, ← hcarries.target, hkind, htarget,
      hcarries.queued hqueued]
  · simp [isRunOf, hkind, htarget] at hother

theorem Carried.count_le (h : Carried s operations) :
    operations.count (System.isQueuedCreate s.backup) ≤
      s.db.operations.count (System.isQueuedCreate s.backup) := by
  apply Table.count_le_of_find?
  intro j run' hrun' htest
  exact h.queued hrun' htest

theorem Carried.aims (h : Carried s operations)
    (hmem : task ∈ s.tasks)
    (haims : ∀ run, s.db.operations.find? task.run = some run →
      run.kind = .backupCreate ∧ run.targetId = some s.backup)
    {run' : OperationRow} (hrun' : operations.find? task.run = some run') :
    run'.kind = .backupCreate ∧ run'.targetId = some s.backup := by
  rcases h task.run run' hrun' with ⟨run, hrun, hcarries, -⟩ | ⟨-, hdraws⟩
  · obtain ⟨hkind, htarget⟩ := haims run hrun
    exact ⟨hcarries.kind.trans hkind, hcarries.target.trans htarget⟩
  · have hne := List.all_eq_true.mp hdraws task hmem
    simp at hne

theorem Carried.without (h : Carried s operations)
    {others : List Task} (hperm : s.tasks.Perm (task :: others)) :
    Carried { s with tasks := others } operations := by
  intro j run' hrun'
  rcases h j run' hrun' with hold | ⟨hother, hdraws⟩
  · exact .inl hold
  · refine .inr ⟨hother, List.all_eq_true.mpr fun other hmem => ?_⟩
    exact List.all_eq_true.mp hdraws other (hperm.mem_iff.mpr (List.mem_cons_of_mem _ hmem))

theorem Inv.rows (h : Inv n s) {o : Ops.System} (hbackups : o.db.backups = s.db.backups)
    (hcarried : Carried s o.db.operations)
    (hcount : ∀ row, s.row = some row →
      o.db.operations.count (System.isQueuedCreate s.backup) + m ≤
        s.db.operations.count (System.isQueuedCreate s.backup) + n) :
    Inv m { s with ops := o } := by
  have hrow : System.row { s with ops := o } = s.row :=
    congrArg (Table.find? · s.backup) hbackups
  have hdelivered : s.Delivered → System.Delivered { s with ops := o } := by
    intro hdelivered row hfound
    exact hdelivered row (hrow ▸ hfound)
  constructor
  · intro row hfound
    exact h.kept row (hrow ▸ hfound)
  · intro j run' hrun' htarget hkind
    rcases hcarried j run' hrun' with ⟨run, hrun, hcarries, hdone⟩ | ⟨hother, -⟩
    · have hof : run.targetId = some s.backup := hcarries.target.symm.trans htarget
      have hcreate : run.kind = .backupCreate := hcarries.kind.symm.trans hkind
      obtain ⟨hserver, hbefore⟩ := h.creates j run hrun hof hcreate
      refine ⟨hcarries.server.trans hserver, fun hstate => hdelivered ?_⟩
      rcases hdone hstate with hwas | hnow
      · exact hbefore hwas
      · exact hnow hcreate hof
    · simp [isRunOf, hkind, show run'.targetId = some s.backup from htarget] at hother
  · intro j run' hrun' htarget hkind
    rcases hcarried j run' hrun' with ⟨run, hrun, hcarries, -⟩ | ⟨hother, -⟩
    · exact hdelivered (h.restores j run hrun (hcarries.target.symm.trans htarget)
        (hcarries.kind.symm.trans hkind))
    · simp [isRunOf, hkind, show run'.targetId = some s.backup from htarget] at hother
  · intro request hmem hstage
    exact hdelivered (h.requests request hmem hstage)
  · intro task hmem hphase
    exact hdelivered (h.ended task hmem hphase)
  · intro row hfound task hmem run' hrun'
    exact hcarried.aims hmem (h.aims row (hrow ▸ hfound) task hmem) hrun'
  · intro row hfound
    exact h.packed row (hrow ▸ hfound)
  intro row hfound
  obtain ⟨hle, hsize⟩ := h.hands row (hrow ▸ hfound)
  have hless := hcount row (hrow ▸ hfound)
  unfold System.hands at hle hsize ⊢
  constructor
  · change o.db.operations.count (System.isQueuedCreate s.backup) +
      s.tasks.countP Task.works + m ≤ 1
    omega
  · intro hpos
    apply hsize
    change 0 < o.db.operations.count (System.isQueuedCreate s.backup) +
      s.tasks.countP Task.works + m at hpos
    omega

theorem Inv.clears (h : Inv n s) (hsize : ∀ row, s.row = some row → row.sizeBytes = 0)
    (hidle : ∀ row, s.row = some row → ∀ task ∈ s.tasks, task.phase ≠ .delivers)
    (uploads : Table UploadRow.backupId)
    (archive : Bool) : Inv n { s.setDb { s.db with uploads } with archive } := by
  constructor
  · intro row hrow hpos
    rw [hsize row hrow] at hpos
    cases hpos
  · exact h.creates
  · exact h.restores
  · exact h.requests
  · exact h.ended
  · exact h.aims
  · intro row hrow task hmem hphase
    exact absurd hphase (hidle row hrow task hmem)
  · exact h.hands

theorem inv_forgets (s : System) (n : Nat) : Inv n s.forgets := by
  have hnone : s.forgets.row = none := Table.find?_erase_same _ _
  have hgone : s.forgets.Delivered := by
    intro row hrow
    rw [hnone] at hrow
    cases hrow
  have huntargeted : ∀ j run, s.forgets.db.operations.find? j = some run →
      run.targetId ≠ some s.backup := by
    intro j run hrun htarget
    obtain ⟨old, -, rfl⟩ := Option.map_eq_some_iff.mp
      ((Table.find?_map s.db.operations j _ (Ops.dropTarget_id s.backup)).symm.trans hrun)
    unfold Ops.dropTarget at htarget
    split at htarget
    · cases htarget
    · next hother => exact hother htarget
  constructor
  · intro row hrow
    rw [hnone] at hrow
    cases hrow
  · intro j run hrun htarget
    exact absurd htarget (huntargeted j run hrun)
  · intro j run hrun htarget
    exact absurd htarget (huntargeted j run hrun)
  · intro request _ _
    exact hgone
  · intro task _ _
    exact hgone
  · intro row hrow
    rw [hnone] at hrow
    cases hrow
  · intro row hrow
    rw [hnone] at hrow
    cases hrow
  · intro row hrow
    rw [hnone] at hrow
    cases hrow

theorem Inv.writes (h : Inv n s) {backups : Table BackupRow.id} {archive : Bool}
    {stored : List String}
    (hrow : ∀ row', backups.find? s.backup = some row' → ∃ row, s.row = some row ∧
      (0 < row.sizeBytes → 0 < row'.sizeBytes) ∧ (0 < row'.sizeBytes →
        System.kept { s with archive, stored } row' = true) ∧
      (0 < s.hands + m → row'.sizeBytes = 0))
    (hpacked : ∀ row, s.row = some row → ∀ task ∈ s.tasks, task.phase = .delivers →
      archive = true)
    (hle : m ≤ n) : Inv m { s.setDb { s.db with backups } with archive, stored } := by
  have hdelivered : s.Delivered →
      System.Delivered { s.setDb { s.db with backups } with archive, stored } := by
    intro hdelivered row' hfound
    obtain ⟨row, hwas, hsize, -, -⟩ := hrow row' hfound
    exact hsize (hdelivered row hwas)
  constructor
  · intro row' hfound
    obtain ⟨row, hwas, -, hkept, -⟩ := hrow row' hfound
    exact hkept
  · intro j run hrun htarget hkind
    obtain ⟨hserver, hdone⟩ := h.creates j run hrun htarget hkind
    exact ⟨hserver, fun hstate => hdelivered (hdone hstate)⟩
  · intro j run hrun htarget hkind
    exact hdelivered (h.restores j run hrun htarget hkind)
  · intro request hmem hstage
    exact hdelivered (h.requests request hmem hstage)
  · intro task hmem hphase
    exact hdelivered (h.ended task hmem hphase)
  · intro row' hfound
    obtain ⟨row, hwas, -⟩ := hrow row' hfound
    exact h.aims row hwas
  · intro row' hfound
    obtain ⟨row, hwas, -⟩ := hrow row' hfound
    exact hpacked row hwas
  intro row' hfound
  obtain ⟨row, hwas, -, -, hempty⟩ := hrow row' hfound
  have hhands := (h.hands row hwas).1
  refine ⟨?_, hempty⟩
  change s.hands + m ≤ 1
  omega

theorem Inv.idle (h : Inv 1 s) {row : BackupRow} (hrow : s.row = some row) :
    ∀ task ∈ s.tasks, task.phase ≠ .delivers := by
  intro task hmem hphase
  have hworks : 0 < s.tasks.countP Task.works :=
    List.countP_pos_iff.mpr ⟨task, hmem, by simp [Task.works, hphase]⟩
  have hle := (h.hands row hrow).1
  unfold System.hands at hle
  omega

theorem Inv.empty (h : Inv 1 s) {row : BackupRow} (hrow : s.row = some row) :
    row.sizeBytes = 0 := by
  apply (h.hands row hrow).2
  omega

theorem Inv.sizes (h : Inv 1 s) {row : BackupRow} (hrow : s.row = some row)
    {f : BackupRow → BackupRow} {hf : ∀ r, (f r).id = r.id} {archive : Bool} {stored : List String}
    (hsize : 0 < (f row).sizeBytes)
    (hkept : System.kept { s with archive, stored } (f row) = true) :
    Inv 0 { s.setDb (s.db.updateBackup s.backup f hf) with archive, stored } ∧
      System.Delivered { s.setDb (s.db.updateBackup s.backup f hf) with archive, stored } := by
  have hhands : s.hands = 0 := by
    have hle := (h.hands row hrow).1
    omega
  have hidle := h.idle hrow
  have hafter : ∀ row', (s.db.backups.modify s.backup f hf).find? s.backup = some row' →
      row' = f row := by
    intro row' hfound
    rw [Table.find?_modify_same, show s.db.backups.find? s.backup = some row from hrow] at hfound
    exact (Option.some.inj hfound).symm
  constructor
  · apply h.writes _ (fun row _ task hmem hphase => absurd hphase (hidle task hmem))
      (Nat.zero_le 1)
    intro row' hfound
    rw [hafter row' hfound]
    refine ⟨row, hrow, fun _ => hsize, fun _ => hkept, fun hpos => ?_⟩
    omega
  · intro row' hfound
    rw [hafter row' hfound]
    exact hsize

theorem Inv.delivers (h : Inv 1 s) {found : Found} {row : BackupRow} (hrow : s.row = some row)
    (harchive : s.archive = true) (hsize : 0 < found.size) :
    Inv 0 (s.delivers found row) ∧ (s.delivers found row).Delivered := by
  unfold System.delivers
  split
  · next hlocation =>
    apply h.sizes hrow hsize
    simp [System.kept, hlocation, harchive]
  · next hlocation =>
    apply h.sizes hrow hsize
    simp [System.kept, hlocation]

theorem Inv.marks (h : Inv n s) {f : BackupRow → BackupRow} {hf : ∀ r, (f r).id = r.id}
    (hsame : ∀ row, (f row).sizeBytes = row.sizeBytes ∧ s.kept (f row) = s.kept row) :
    Inv n (s.setDb (s.db.updateBackup s.backup f hf)) := by
  have hrow : ∀ row', (s.db.backups.modify s.backup f hf).find? s.backup = some row' →
      ∃ row, s.row = some row ∧ (0 < row.sizeBytes → 0 < row'.sizeBytes) ∧
        (0 < row'.sizeBytes → s.kept row' = true) ∧ (0 < s.hands + n → row'.sizeBytes = 0) := by
    intro row' hfound
    obtain ⟨row, hrow, rfl⟩ := Option.map_eq_some_iff.mp
      ((Table.find?_modify_same s.db.backups s.backup f hf).symm.trans hfound)
    obtain ⟨hsize, hkept⟩ := hsame row
    rw [hsize]
    refine ⟨row, hrow, id, fun hpos => ?_, (h.hands row hrow).2⟩
    exact hkept.trans (h.kept row hrow hpos)
  exact h.writes hrow h.packed le_rfl

theorem no_queued_create {db' : Database} {new : Ops.NewOperation} {id : Id} {now : Timestamp}
    {made : OperationRow} (h : Inv n s) (hinsert : Ops.insert new id now s.db = .ok (db', made))
    (hserver : new.serverId = s.id) (hkind : new.kind = .backupCreate) :
    s.db.operations.count (System.isQueuedCreate s.backup) = 0 := by
  have hfree : Ops.collides s.db new = false := by
    unfold Ops.insert at hinsert
    simp only at hinsert
    split at hinsert
    · cases hinsert
    · next hnot => simpa using hnot
  rw [Table.count_eq_zero]
  intro run hmem
  by_contra hqueued
  simp only [System.isQueuedCreate, Bool.not_eq_false, Bool.and_eq_true, decide_eq_true_eq]
    at hqueued
  obtain ⟨⟨hcreate, htarget⟩, hstate⟩ := hqueued
  have hsame := (h.creates run.id run (Table.find?_of_mem hmem) htarget hcreate).1
  have hopen : Ops.collides s.db new = true := by
    unfold Ops.collides
    simp only [hkind, decide_true, Bool.true_or, Bool.true_and, List.any_eq_true]
    refine ⟨run, hmem, ?_⟩
    simp [hserver, hsame, hcreate, hstate, OperationState.isOpen, OperationState.isTerminal]
  rw [hfree] at hopen
  cases hopen

theorem Inv.inserts (h : Inv 0 s) {db : Database} {new : Ops.NewOperation} {id : Id}
    {now : Timestamp} {made : OperationRow} (hinsert : Ops.insert new id now s.db = .ok (db, made))
    (hdraws : s.draws id = true) (hserver : new.serverId = s.id)
    (hcreate : new.kind = .backupCreate →
      s.tasks.countP Task.works = 0 ∧ ∀ row, s.row = some row → row.sizeBytes = 0)
    (hrestore : new.kind = .backupRestore → s.Delivered) : Inv 0 (s.setDb db) := by
  have hfind := Ops.find?_insert_of_ok hinsert
  have hrow : (s.setDb db).row = s.row :=
    congrArg (Table.find? · s.backup) (insert_backups hinsert)
  have hdelivered : s.Delivered → (s.setDb db).Delivered := by
    intro hall row hfound
    exact hall row (hrow ▸ hfound)
  have hrows : db.operations.rows = s.db.operations.rows ++ [new.row id now] :=
    Table.rows_of_insert (Ops.insert_ok hinsert).1
  constructor
  · intro row hfound
    exact h.kept row (hrow ▸ hfound)
  · intro j run hrun htarget hkind
    rw [show (s.setDb db).db = db from rfl, hfind] at hrun
    split at hrun
    · cases hrun
      exact ⟨hserver, fun hstate => by cases hstate⟩
    · obtain ⟨hsame, hdone⟩ := h.creates j run hrun htarget hkind
      exact ⟨hsame, fun hstate => hdelivered (hdone hstate)⟩
  · intro j run hrun htarget hkind
    rw [show (s.setDb db).db = db from rfl, hfind] at hrun
    split at hrun
    · cases hrun
      exact hdelivered (hrestore hkind)
    · exact hdelivered (h.restores j run hrun htarget hkind)
  · intro request hmem hstage
    exact hdelivered (h.requests request hmem hstage)
  · intro task hmem hphase
    exact hdelivered (h.ended task hmem hphase)
  · intro row hfound task hmem run hrun
    have hne : task.run ≠ id := by simpa using List.all_eq_true.mp hdraws task hmem
    rw [show (s.setDb db).db = db from rfl, hfind, if_neg hne] at hrun
    exact h.aims row (hrow ▸ hfound) task hmem run hrun
  · intro row hfound
    exact h.packed row (hrow ▸ hfound)
  intro row hfound
  have hwas := hrow ▸ hfound
  obtain ⟨hle, hsize⟩ := h.hands row hwas
  have hcount : (s.setDb db).hands = s.hands +
      if System.isQueuedCreate s.backup (new.row id now) then 1 else 0 := by
    unfold System.hands Table.count
    change db.operations.rows.countP _ + _ = _
    rw [hrows, List.countP_append, List.countP_singleton]
    exact Nat.add_right_comm _ _ _
  rw [hcount]
  split
  · next hqueued =>
    have hkind : new.kind = .backupCreate := by
      simp only [System.isQueuedCreate, Bool.and_eq_true, decide_eq_true_eq] at hqueued
      exact hqueued.1.1
    obtain ⟨hidle, hempty⟩ := hcreate hkind
    have hnone := no_queued_create h hinsert hserver hkind
    have hhands : s.hands = 0 := by
      unfold System.hands
      omega
    exact ⟨by omega, fun _ => hempty row hwas⟩
  · exact ⟨hle, hsize⟩

theorem Inv.without (h : Inv 0 s) {others : List Task}
    (hperm : s.tasks.Perm (task :: others)) :
    Inv (if task.works then 1 else 0) { s with tasks := others } := by
  have hmem : ∀ other ∈ others, other ∈ s.tasks := by
    intro other hother
    exact hperm.mem_iff.mpr (List.mem_cons_of_mem _ hother)
  constructor
  · exact h.kept
  · exact h.creates
  · exact h.restores
  · exact h.requests
  · intro other hother
    exact h.ended other (hmem other hother)
  · intro row hrow other hother
    exact h.aims row hrow other (hmem other hother)
  · intro row hrow other hother
    exact h.packed row hrow other (hmem other hother)
  intro row hrow
  have hhands : System.hands { s with tasks := others } + (if task.works then 1 else 0) =
      s.hands := by
    unfold System.hands
    rw [hperm.countP_eq, List.countP_cons]
    exact Nat.add_assoc _ _ _
  rw [hhands]
  exact h.hands row hrow

theorem Inv.with (h : Inv (if task.works then 1 else 0) s) {tasks : List Task}
    (hperm : tasks.Perm (task :: s.tasks)) (hended : task.phase = .ends .done → s.Delivered)
    (haims : ∀ row, s.row = some row → ∀ run, s.db.operations.find? task.run = some run →
      run.kind = .backupCreate ∧ run.targetId = some s.backup)
    (hpacked : ∀ row, s.row = some row → task.phase = .delivers → s.archive = true) :
    Inv 0 { s with tasks } := by
  have hmem : ∀ other ∈ tasks, other = task ∨ other ∈ s.tasks := by
    intro other hother
    exact List.mem_cons.mp (hperm.mem_iff.mp hother)
  constructor
  · exact h.kept
  · exact h.creates
  · exact h.restores
  · exact h.requests
  · intro other hother
    rcases hmem other hother with rfl | hold
    · exact hended
    · exact h.ended other hold
  · intro row hrow other hother
    rcases hmem other hother with rfl | hold
    · exact haims row hrow
    · exact h.aims row hrow other hold
  · intro row hrow other hother
    rcases hmem other hother with rfl | hold
    · exact hpacked row hrow
    · exact h.packed row hrow other hold
  intro row hrow
  have hhands : System.hands { s with tasks } + 0 =
      s.hands + (if task.works then 1 else 0) := by
    unfold System.hands
    rw [hperm.countP_eq, List.countP_cons]
    exact (Nat.add_assoc _ _ _).symm
  rw [hhands]
  exact h.hands row hrow

theorem Inv.less (h : Inv n s) (hle : m ≤ n) : Inv m s := by
  constructor
  · exact h.kept
  · exact h.creates
  · exact h.restores
  · exact h.requests
  · exact h.ended
  · exact h.aims
  · exact h.packed
  · intro row hrow
    obtain ⟨hone, hsize⟩ := h.hands row hrow
    exact ⟨by omega, fun hpos => hsize (by omega)⟩

end Rows

section Tasks

variable {s t : System} {task : Task} {others : List Task} {found : Found}

/-- What a step of a task leaves: the other tasks, and what is known of this one. -/
structure Goes (s : System) (task : Task) (others : List Task) (u : System)
    (left : Option Phase) : Prop where
  tasks : u.tasks = s.tasks
  inv : Inv (if left.any fun phase => ({ task with phase } : Task).works then 1 else 0)
    { u with tasks := others }
  ended : left = some (.ends .done) → u.Delivered
  aims : ∀ row, u.row = some row → ∀ run, u.db.operations.find? task.run = some run →
    run.kind = .backupCreate ∧ run.targetId = some u.backup
  packed : ∀ row, u.row = some row → left = some .delivers → u.archive = true

theorem forgets_row (s : System) : s.forgets.row = none := Table.find?_erase_same _ _

theorem goes_forgets {u : System} (htasks : u.tasks = s.tasks) {left : Option Phase} :
    Goes s task others u.forgets left := by
  constructor
  · exact htasks
  · exact inv_forgets { u with tasks := others } _
  · intro _ row hrow
    rw [forgets_row] at hrow
    cases hrow
  · intro row hrow
    rw [forgets_row] at hrow
    cases hrow
  · intro row hrow
    rw [forgets_row] at hrow
    cases hrow

theorem carried_settle {state : OperationState} (hterminal : state.isTerminal = true)
    (error : Option OperationError) (now : Timestamp) {id : Id}
    (hdone : state = .done → s.Delivered) :
    Carried s (Ops.after s.db (Ops.settle id state error now)).operations := by
  intro j run' hrun'
  left
  rw [Ops.find?_after_settle] at hrun'
  split at hrun'
  · obtain ⟨run, hrun, rfl⟩ := Option.map_eq_some_iff.mp hrun'
    exact ⟨run, hrun, Ops.carries_settledRow hterminal error now run,
      fun hstate => .inr fun _ _ => hdone hstate⟩
  · exact ⟨run', hrun', .refl run', .inl⟩

theorem goes_still (h : Inv 0 s) (hperm : s.tasks.Perm (task :: others)) {left : Option Phase}
    (hworks : left.any (fun phase => ({ task with phase } : Task).works) = true →
      task.works = true)
    (hended : left ≠ some (.ends .done))
    (hpacked : left = some .delivers → s.archive = true) : Goes s task others s left := by
  constructor
  · rfl
  · apply (h.without hperm).less
    split
    · next hleft => simp [hworks hleft]
    · exact Nat.zero_le _
  · intro hleft
    exact absurd hleft hended
  · intro row hrow run hrun
    exact h.aims row hrow task (hperm.mem_iff.mpr List.mem_cons_self) run hrun
  · intro row _ hleft
    exact hpacked hleft

theorem goes_begins (h : Inv 0 s) (hperm : s.tasks.Perm (task :: others))
    (hphase : task.phase = .waits) {db : Database} {made : OperationRow}
    (hbegin : Ops.begin task.run found.now s.db = .ok (db, some made)) :
    Goes s task others (s.setDb db) (some .chooses) := by
  have hbackups : db.backups = s.db.backups := by
    have hafter : (Ops.after s.db (Ops.begin task.run found.now)).backups = s.db.backups :=
      after_begin_backups found.now
    rwa [Ops.after_of_ok hbegin] at hafter
  obtain ⟨hnone, -⟩ | ⟨old, hold, hmay, -, -, hfind⟩ := Ops.begin_ok hbegin
  · cases hnone
  have hcarried : Carried s db.operations := by
    intro j run' hrun'
    left
    rw [hfind] at hrun'
    split at hrun'
    · obtain ⟨run, hrun, rfl⟩ := Option.map_eq_some_iff.mp hrun'
      refine ⟨run, hrun, Ops.carries_begunRow found.now run, fun hdone => .inl ?_⟩
      unfold Ops.begunRow at hdone
      split at hdone
      · cases hdone
      · exact hdone
    · exact ⟨run', hrun', .refl run', .inl⟩
  have hrow : (s.setDb db).row = s.row := congrArg (Table.find? · s.backup) hbackups
  have htask : task ∈ s.tasks := hperm.mem_iff.mpr List.mem_cons_self
  constructor
  · rfl
  · have hwithout := h.without hperm
    rw [show task.works = false by simp [Task.works, hphase]] at hwithout
    refine hwithout.rows hbackups (hcarried.without hperm) ?_
    intro row hfound
    obtain ⟨hkind, htarget⟩ := h.aims row hfound task htask old hold
    apply Nat.succ_le_of_lt
    apply Table.count_lt_of_find? (k := task.run)
    · intro j run' hrun' htest
      exact hcarried.queued hrun' htest
    · exact ⟨old, hold, by simp [System.isQueuedCreate, hkind, htarget, hmay.1]⟩
    intro run' hrun'
    have hthere := (hfind task.run).symm.trans hrun'
    rw [if_pos rfl, hold] at hthere
    cases hthere
    simp [System.isQueuedCreate, Ops.begunRow, hmay.1]
  · intro hleft
    cases hleft
  · intro row hfound run' hrun'
    exact hcarried.aims htask (h.aims row (hrow ▸ hfound) task htask) hrun'
  · intro row _ hleft
    cases hleft

theorem goes_writes (h : Inv 0 s) (hperm : s.tasks.Perm (task :: others))
    (hworks : task.works = true) (uploads : Table UploadRow.backupId) (archive : Bool)
    {left : Option Phase} (hended : left ≠ some (.ends .done))
    (hpacked : left = some .delivers → archive = true) :
    Goes s task others { s.setDb { s.db with uploads } with archive } left := by
  have hwithout := h.without hperm
  rw [hworks] at hwithout
  constructor
  · rfl
  · have hcleared : Inv 1 _ := hwithout.clears (fun row hrow => hwithout.empty hrow)
      (fun row hrow => hwithout.idle hrow) uploads archive
    apply hcleared.less
    split <;> omega
  · intro hleft
    exact absurd hleft hended
  · intro row hrow run hrun
    exact h.aims row hrow task (hperm.mem_iff.mpr List.mem_cons_self) run hrun
  · intro row _ hleft
    exact hpacked hleft

theorem delivers_others (s : System) (found : Found) (row : BackupRow) (tasks : List Task) :
    { s.delivers found row with tasks } = System.delivers { s with tasks } found row := by
  unfold System.delivers
  split <;> rfl

theorem goes_delivers (h : Inv 0 s) (hperm : s.tasks.Perm (task :: others))
    (hphase : task.phase = .delivers) {row : BackupRow} (hrow : s.row = some row)
    (hsize : 0 < found.size) :
    Goes s task others (s.delivers found row) (some (.ends .done)) := by
  have htask : task ∈ s.tasks := hperm.mem_iff.mpr List.mem_cons_self
  have hwithout := h.without hperm
  rw [show task.works = true by simp [Task.works, hphase]] at hwithout
  have hdelivers := hwithout.delivers hrow (h.packed row hrow task htask hphase) hsize
  rw [← delivers_others] at hdelivers
  obtain ⟨hinv, hdelivered⟩ := hdelivers
  constructor
  · unfold System.delivers
    split <;> rfl
  · exact hinv
  · intro _
    exact hdelivered
  · intro row' hfound run hrun
    have hsame : (s.delivers found row).db.operations = s.db.operations ∧
        (s.delivers found row).backup = s.backup := by
      unfold System.delivers
      split <;> exact ⟨rfl, rfl⟩
    rw [hsame.1] at hrun
    rw [hsame.2]
    exact h.aims row hrow task htask run hrun
  · intro row' _ hleft
    cases hleft

theorem goes_settles (h : Inv 0 s) (hperm : s.tasks.Perm (task :: others)) {outcome : Outcome}
    (hphase : task.phase = .ends outcome) (now : Timestamp) :
    Goes s task others (s.settles task.run outcome now) none := by
  have htask : task ∈ s.tasks := hperm.mem_iff.mpr List.mem_cons_self
  have hcarried : Carried s (s.settles task.run outcome now).db.operations := by
    cases outcome with
    | done => exact carried_settle rfl none now fun _ => h.ended task htask hphase
    | calledOff => exact carried_settle rfl _ now nofun
    | failed error => exact carried_settle rfl _ now nofun
  have hbackups : (s.settles task.run outcome now).db.backups = s.db.backups := by
    cases outcome <;> exact rewrite_backups _ _
  have hrow : (s.settles task.run outcome now).row = s.row :=
    congrArg (Table.find? · s.backup) hbackups
  constructor
  · rfl
  · refine ((h.without hperm).less (Nat.zero_le _)).rows hbackups (hcarried.without hperm) ?_
    intro row _
    exact hcarried.count_le
  · intro hleft
    cases hleft
  · intro row hfound run hrun
    exact hcarried.aims htask (h.aims row (hrow ▸ hfound) task htask) hrun
  · intro row _ hleft
    cases hleft

theorem goes_next (h : Inv 0 s) (hperm : s.tasks.Perm (task :: others)) (hsize : 0 < found.size) :
    Goes s task others (s.next task found).1 (s.next task found).2 := by
  have hquiet : ∀ {left : Option Phase},
      left.any (fun phase => ({ task with phase } : Task).works) = false →
      left ≠ some (.ends .done) → left ≠ some .delivers → Goes s task others s left := by
    intro left hnot hended hpacked
    apply goes_still h hperm _ hended (fun hleft => absurd hleft hpacked)
    intro hleft
    rw [hnot] at hleft
    cases hleft
  unfold System.next
  split
  · next hphase =>
    split
    · next hbegin => exact goes_begins h hperm hphase hbegin
    · exact hquiet rfl nofun nofun
    · exact hquiet rfl nofun nofun
  · next hphase =>
    apply hquiet
    · split <;> rfl
    · split <;> simp
    · split <;> simp
  · exact goes_forgets rfl
  · next hphase =>
    have hworks : task.works = true := by simp [Task.works, hphase]
    apply goes_still h hperm (fun _ => hworks)
    · split <;> simp
    intro hleft
    simp only [Option.some.injEq, ite_eq_left_iff, reduceCtorEq, imp_false, not_not,
      Bool.and_eq_true] at hleft
    exact hleft.2
  · next hphase =>
    have hworks : task.works = true := by simp [Task.works, hphase]
    exact goes_writes h hperm hworks s.db.uploads false nofun nofun
  · next hphase =>
    have hworks : task.works = true := by simp [Task.works, hphase]
    split
    · exact goes_writes h hperm hworks s.db.uploads true nofun fun _ => rfl
    · exact goes_still h hperm (fun _ => hworks) nofun nofun
    · exact goes_still h hperm (fun _ => hworks) nofun nofun
  · next hphase =>
    have hworks : task.works = true := by simp [Task.works, hphase]
    split
    · next row _ hrow => exact goes_delivers h hperm hphase hrow hsize
    · exact goes_still h hperm (fun _ => hworks) nofun nofun
    · exact goes_still h hperm (fun _ => hworks) nofun nofun
    · exact goes_still h hperm (fun _ => hworks) nofun nofun
  · next fault hphase =>
    have hworks : task.works = true := by simp [Task.works, hphase]
    cases fault with
    | none =>
      exact goes_forgets (s := s) (u := { s.setDb (Drive.forgetUpload s.db s.backup) with
        archive := false }) rfl
    | some error => exact goes_writes h hperm hworks _ false nofun nofun
  · next outcome hphase => exact goes_settles h hperm hphase found.now

theorem Inv.moves (h : Inv 0 s) {i : Nat} (hmoves : s.moves i found = some t) : Inv 0 t := by
  unfold System.moves at hmoves
  split at hmoves
  · next hsize =>
    obtain ⟨task, hi, rfl⟩ := Option.map_eq_some_iff.mp hmoves
    obtain ⟨hlt, hget⟩ := List.getElem?_eq_some_iff.mp hi
    have hperm : s.tasks.Perm (task :: s.tasks.eraseIdx i) :=
      hget ▸ (List.getElem_cons_eraseIdx_perm hlt).symm
    have hgoes := goes_next h hperm hsize
    split
    · next u phase hnext =>
      rw [hnext] at hgoes
      have hinv : Inv (if ({ task with phase } : Task).works then 1 else 0)
          { u with tasks := s.tasks.eraseIdx i } := hgoes.inv
      apply hinv.with (List.set_perm_cons_eraseIdx hlt _)
      · rintro rfl
        exact hgoes.ended rfl
      · exact hgoes.aims
      · rintro row hrow rfl
        exact hgoes.packed row hrow rfl
    · next u hnext =>
      rw [hnext] at hgoes
      exact hgoes.inv
  · cases hmoves

end Tasks

section Requests

variable {s t : System} {n : Nat}

theorem Inv.asked (h : Inv n s) {requests : List Request}
    (hasked : ∀ request ∈ requests, request.stage = .restores →
      request ∈ s.requests ∨ s.Delivered) : Inv n { s with requests } := by
  constructor
  · exact h.kept
  · exact h.creates
  · exact h.restores
  · intro request hmem hstage
    rcases hasked request hmem hstage with hold | hdelivered
    · exact h.requests request hold hstage
    · exact hdelivered
  · exact h.ended
  · exact h.aims
  · exact h.packed
  · exact h.hands

theorem of_eq_done {run : OperationRow} :
    BackupStatus.of (stateOf run) = .done ↔ run.state = .done ∨ run.state = .cancelled := by
  unfold stateOf BackupOperationState.of
  cases hstate : run.state with
  | failed =>
    simp only [reduceCtorEq, or_self, iff_false]
    split <;> simp [BackupStatus.of]
  | _ => simp [BackupStatus.of]

theorem Inv.delivered (h : Inv n s) {row : BackupRow} (hrow : s.row = some row)
    (hdone : statusOf s.db row = .done) (hoff : calledOff s.db row = false) :
    0 < row.sizeBytes := by
  have hkey : row.id = s.backup := Table.find?_key hrow
  unfold statusOf at hdone
  split at hdone
  · next run hnewest =>
    obtain ⟨hrun, htest⟩ := newest_select hnewest
    simp only [isRunOf, hkey, Bool.and_eq_true, decide_eq_true_eq, Bool.or_eq_true] at htest
    obtain ⟨-, htarget, hkind⟩ := htest
    rcases hkind with hcreate | hrestore
    · have hnot : run.state ≠ .cancelled := by
        intro hcancelled
        unfold calledOff at hoff
        rw [show newest _ = some run from hnewest] at hoff
        simp [hcreate, hcancelled] at hoff
      have hstate : run.state = .done := (of_eq_done.mp hdone).resolve_right hnot
      exact (h.creates run.id run hrun htarget hcreate).2 hstate row hrow
    · exact h.restores run.id run hrun htarget hrestore row hrow
  · by_contra hzero
    rw [if_neg hzero] at hdone
    cases hdone

theorem download_eq_ok {row : BackupRow} (hrow : s.row = some row) (hkept : s.kept row = true)
    (hserver : row.serverId = s.id) (hlocation : row.location = .local) :
    s.download = .ok row ↔ statusOf s.db row = .done := by
  have harchive : s.archive = true := by
    simpa [System.kept, hlocation] using hkept
  by_cases hdone : statusOf s.db row = .done
  · simp [System.download, hrow, hserver, hdone, hlocation, harchive]
  · simp [System.download, hrow, hserver, hdone]

theorem Inv.accounts (h : Inv n s) : s.Accounts := by
  intro row hrow
  constructor
  · intro hdone
    cases hoff : calledOff s.db row with
    | true => exact .inl rfl
    | false =>
      have hsize := h.delivered hrow hdone hoff
      exact .inr ⟨hsize, h.kept row hrow hsize⟩
  · intro hsize
    have hkept := h.kept row hrow hsize
    refine ⟨hkept, ?_, download_eq_ok hrow hkept⟩
    unfold statusOf
    split
    · next run hnewest => simp [of_eq_done, hnewest]
    · next hnewest => simp [hsize, hnewest]

theorem idle_of_orderly {i : Nat} {found : Found} {request : Request}
    (horderly : s.orderly (.answers i found) = true) (hi : s.requests[i]? = some request)
    (hstage : request.stage = .clears ∨ request.stage = .creates) :
    s.tasks.countP Task.works = 0 ∧ ∀ row, s.row = some row → row.sizeBytes = 0 := by
  have hquiet : (s.tasks.all (fun task => !task.works) && s.row.all (·.sizeBytes = 0)) = true := by
    unfold System.orderly at horderly
    rcases hstage with hstage | hstage <;> simpa [hi, hstage] using horderly
  simp only [Bool.and_eq_true, List.all_eq_true, Bool.not_eq_true'] at hquiet
  obtain ⟨hidle, hempty⟩ := hquiet
  constructor
  · rw [List.countP_eq_zero]
    intro task hmem
    simp [hidle task hmem]
  · intro row hrow
    simpa [hrow] using hempty

theorem Inv.makes (h : Inv 0 s) {request : Request} {kind : OperationKind} {found : Found}
    (hdraws : s.draws found.fresh = true)
    (hcreate : kind = .backupCreate →
      s.tasks.countP Task.works = 0 ∧ ∀ row, s.row = some row → row.sizeBytes = 0)
    (hrestore : kind = .backupRestore → s.Delivered) :
    Inv 0 (s.creates request kind found) := by
  unfold System.creates
  split
  · next hmade =>
    exact h.inserts (Entries.createRun_ok hmade).2 hdraws rfl hcreate hrestore
  · exact h

theorem Inv.asksStatus (h : Inv 0 s) {i : Nat} {request : Request} {found : Found}
    (hi : s.requests[i]? = some request) (hstage : request.stage = .asks)
    (horderly : s.orderly (.answers i found) = true)
    (hdone : s.row.any (statusOf s.db · = .done) = true) : s.Delivered := by
  intro row hrow
  rw [hrow] at hdone
  apply h.delivered hrow (by simpa using hdone)
  unfold System.orderly at horderly
  simpa [hi, hstage, hrow] using horderly

theorem Inv.recalls (h : Inv 0 s) {run : OperationRow} (hnewest : newestRun s.db s.backup = some run)
    (hkind : run.kind ≠ .backupCreate) : s.Delivered := by
  obtain ⟨hrun, htest⟩ := newest_select hnewest
  simp only [isRunOf, Bool.and_eq_true, decide_eq_true_eq, Bool.or_eq_true] at htest
  exact h.restores run.id run hrun htest.1 (htest.2.resolve_left hkind)

theorem Inv.answer (h : Inv 0 s) {i : Nat} {request : Request} {found : Found}
    (hi : s.requests[i]? = some request) (horderly : s.orderly (.answers i found) = true)
    (hdraws : s.draws found.fresh = true) :
    Inv 0 (s.answer request found).1 ∧
      ∀ rest, (s.answer request found).2 = some rest → rest.stage = .restores →
        (s.answer request found).1.Delivered := by
  unfold System.answer
  split
  · next hstage =>
    refine ⟨h, ?_⟩
    intro rest hrest _
    split at hrest
    · next hdone => exact h.asksStatus hi hstage horderly hdone
    · cases hrest
  · next hstage =>
    refine ⟨h, ?_⟩
    intro rest hrest hrestores
    split at hrest
    · next run hnewest =>
      split at hrest
      · cases hrest
        apply h.recalls hnewest
        intro hcreate
        simp [hcreate] at hrestores
      · cases hrest
    · cases hrest
  · next hstage =>
    obtain ⟨hidle, hempty⟩ := idle_of_orderly horderly hi (.inl hstage)
    refine ⟨?_, ?_⟩
    · unfold System.clears
      split
      · exact h
      apply h.clears hempty
      intro row _ task hmem hphase
      have hworks := List.countP_eq_zero.mp hidle task hmem
      simp [Task.works, hphase] at hworks
    · rintro rest ⟨⟩ hrestores
      cases hrestores
  · next hstage =>
    refine ⟨?_, fun rest hrest => nomatch hrest⟩
    exact h.makes hdraws (fun _ => idle_of_orderly horderly hi (.inr hstage)) nofun
  next hstage =>
  refine ⟨?_, fun rest hrest => nomatch hrest⟩
  apply h.makes hdraws
  · intro hcreate
    cases hcreate
  intro _
  exact h.requests request (List.mem_of_getElem? hi) hstage

theorem answer_requests (request : Request) (found : Found) :
    (s.answer request found).1.requests = s.requests := by
  have hcreates : ∀ kind, (s.creates request kind found).requests = s.requests := by
    intro kind
    unfold System.creates
    split <;> rfl
  unfold System.answer
  split
  · rfl
  · rfl
  · unfold System.clears
    split <;> rfl
  · exact hcreates _
  · exact hcreates _

theorem Inv.answers (h : Inv 0 s) {i : Nat} {found : Found}
    (horderly : s.orderly (.answers i found) = true) (hdraws : s.draws found.fresh = true)
    (hanswers : s.answers i found = some t) : Inv 0 t := by
  unfold System.answers at hanswers
  obtain ⟨request, hi, rfl⟩ := Option.map_eq_some_iff.mp hanswers
  have hsame := answer_requests (s := s) request found
  split
  · obtain ⟨hinv, hrestores⟩ := h.answer hi horderly hdraws
    split
    · next u rest hanswer =>
      rw [hanswer] at hinv hrestores hsame
      apply hinv.asked
      intro other hmem hstage
      rcases List.mem_or_eq_of_mem_set hmem with hold | rfl
      · exact .inl (hsame ▸ hold)
      · exact .inr (hrestores other rfl hstage)
    · next u hanswer =>
      rw [hanswer] at hinv hsame
      apply hinv.asked
      intro other hmem _
      exact .inl (hsame ▸ List.mem_of_mem_eraseIdx hmem)
  · apply h.asked
    intro other hmem _
    exact .inl (List.mem_of_mem_eraseIdx hmem)

end Requests

section Runs

variable {s t : System}

theorem carried_ops {e : Ops.Event} {ops : Ops.System} (hadmits : s.admits e = true)
    (hstep : s.ops.step e = some ops) : Carried s ops.db.operations := by
  simp only [System.admits, Bool.and_eq_true] at hadmits
  obtain ⟨⟨hinserts, hfinishes⟩, hdraws⟩ := hadmits
  have hrecovery : ∀ now, e ≠ .recoveryMoves now := by
    rintro now rfl
    cases hdraws
  intro j run' hrun'
  rcases (Ops.commits_step hstep).carried hrecovery hrun' with
    ⟨run, hrun, hcarries⟩ | ⟨new, now, hnew, hid, rfl⟩
  · refine .inl ⟨run, hrun, hcarries, fun hdone => ?_⟩
    rcases Ops.stems_step hstep hrun' with ⟨old, hold, hdescends⟩ | ⟨new, now, -, rfl⟩
    · obtain rfl : old = run := Option.some.inj (hold.symm.trans hrun)
      rcases hdescends.done hdone with hwas | hfin
      · exact .inl hwas
      right
      intro hkind htarget
      rw [hfin, Option.bind_some, show s.db.operations.find? j = some old from hold] at hfinishes
      simp [hkind, htarget] at hfinishes
    · cases hdone
  · right
    constructor
    · rw [hnew] at hinserts
      simp only [Option.all_some, Bool.or_eq_true, Bool.not_eq_true', decide_eq_true_eq]
        at hinserts
      unfold isRunOf
      change (decide (new.targetId = some s.backup) && isBackup new.kind) = false
      rcases hinserts with hother | hother
      · simp [hother]
      · simp [hother]
    · cases e with
      | create new' id now' =>
        cases hid
        exact hdraws
      | handlerMoves i fresh carried now' =>
        cases hid
        exact hdraws
      | _ => cases hid

theorem carried_purge (before : Timestamp) :
    Carried s (Ops.purgeFinished before s.db).operations := by
  intro j run' hrun'
  left
  unfold Ops.purgeFinished at hrun'
  simp only [Table.find?_map, Table.find?_discard, Option.map_eq_some_iff,
    Option.filter_eq_some_iff] at hrun'
  obtain ⟨run, ⟨hrun, -⟩, rfl⟩ := hrun'
  refine ⟨run, hrun, ?_⟩
  unfold Ops.dropParent
  split
  · exact ⟨⟨rfl, rfl, rfl, rfl, id, id⟩, .inl⟩
  · exact ⟨.refl run, .inl⟩

theorem Inv.starts (h : Inv 0 s) {run : Id} (hstarts : s.starts run = some t) : Inv 0 t := by
  unfold System.starts at hstarts
  split at hstarts
  · next hof =>
    cases hstarts
    apply Inv.with (s := s) _ (List.perm_append_singleton _ _)
    · intro hphase
      cases hphase
    · intro row _ found hfound
      simpa [hfound] using hof
    · intro row _ hphase
      cases hphase
    · exact h
  · cases hstarts

theorem Inv.step (h : Inv 0 s) {e : Event} (horderly : s.orderly e = true)
    (hstep : s.step e = some t) : Inv 0 t := by
  cases e with
  | ops e =>
    simp only [System.step] at hstep
    split at hstep
    · next hadmits =>
      obtain ⟨ops, hops, rfl⟩ := Option.map_eq_some_iff.mp hstep
      have hcarried := carried_ops hadmits hops
      have hrecovery : ∀ now, e ≠ .recoveryMoves now := by
        rintro now rfl
        simp [System.admits] at hadmits
      apply h.rows (Entries.commits_backups (Ops.commits_step hops) hrecovery).1 hcarried
      intro row _
      exact hcarried.count_le
    · cases hstep
  | asks startedBy | retries startedBy =>
    cases hstep
    apply h.asked
    intro request hmem hstage
    rcases List.mem_append.mp hmem with hold | hnew
    · exact .inl hold
    · rw [List.mem_singleton.mp hnew] at hstage
      cases hstage
  | answers i found =>
    simp only [System.step] at hstep
    split at hstep
    · next hdraws => exact h.answers horderly hdraws hstep
    · cases hstep
  | starts run => exact h.starts hstep
  | moves i found => exact h.moves hstep
  | forgets =>
    cases hstep
    exact inv_forgets s 0
  | marks state changedAt =>
    cases hstep
    have hstate : Inv 0 (s.setDb (Drive.setFileState s.db s.backup state)) := by
      apply h.marks
      exact fun row => ⟨rfl, rfl⟩
    apply hstate.marks
    exact fun row => ⟨rfl, rfl⟩
  | purges before =>
    cases hstep
    have hcarried := carried_purge (s := s) before
    apply h.rows (o := { s.ops with db := Ops.purgeFinished before s.db }) rfl hcarried
    intro row _
    exact hcarried.count_le

theorem System.Created.inv (h : s.Created) : Inv 0 s := by
  have hnone : s.tasks.countP Task.works = 0 := by
    rw [h.tasks]
    rfl
  constructor
  · intro row hrow hpos
    rw [h.row row hrow] at hpos
    cases hpos
  · intro j run hrun htarget hkind
    obtain ⟨-, hserver, hstate⟩ := h.run j run hrun htarget
    refine ⟨hserver, fun hdone => ?_⟩
    rw [hstate] at hdone
    cases hdone
  · intro j run hrun htarget hkind
    rw [(h.run j run hrun htarget).1] at hkind
    cases hkind
  · intro request hmem
    rw [h.requests] at hmem
    cases hmem
  · intro task hmem
    rw [h.tasks] at hmem
    cases hmem
  · intro row _ task hmem
    rw [h.tasks] at hmem
    cases hmem
  · intro row _ task hmem
    rw [h.tasks] at hmem
    cases hmem
  intro row hrow
  refine ⟨?_, fun _ => h.row row hrow⟩
  unfold System.hands
  have hone := h.one
  omega

/-- What is shown as done is there, and what is there stays there and is shown as done once its
newest run ended well or was called off. -/
theorem done_backups_are_there {es : List Event} (hs : s.Created)
    (horderly : machine.Meets (fun s e => s.orderly e) s es)
    (hrun : machine.exec s es = some t) : t.Accounts := by
  have hinv : Inv 0 t := machine.invariant (fun h hok hstep => h.step hok hstep) hs.inv horderly hrun
  exact hinv.accounts

def asked : System where
  id := 1
  backup := 5
  ops := { db := {
    servers := .single { id := 1, ownerId := 9 }
    backups := ⟨[{ id := 5, serverId := 1 }], by decide⟩
    operations := ⟨[{ id := 4, serverId := 1, kind := .backupCreate, targetId := some 5 }],
      by decide⟩ } }

theorem created_asked : asked.Created := by
  constructor
  · rfl
  · rfl
  · intro row hrow
    obtain rfl := Option.some.inj (hrow.symm.trans (show asked.row = some _ from rfl))
    rfl
  · intro j run hrun _
    obtain rfl := List.mem_singleton.mp (Table.find?_mem hrun)
    exact ⟨rfl, rfl, rfl⟩
  · decide

/-- A run of `run_create` from its start to its end. -/
def makes (run : Id) (packing : Outcome) : List Event :=
  Event.starts run :: .replicate 3 (.moves 0 {}) ++ [Event.moves 0 { outcome := packing }] ++
    List.replicate 2 (Event.moves 0 {})

def failsToRestore : List Event :=
  makes 4 .done ++ [Event.asks 9, .answers 0 {}, .answers 0 { fresh := 7, now := 2 },
    .ops (.begin 7 3), .ops (.fail 7 safetyFailed 4)]

def failsTwice : List Event :=
  makes 4 (.failed gone) ++ [Event.retries 9, .answers 0 {}, .answers 0 {},
    .answers 0 { fresh := 6, now := 1 }] ++ makes 6 .done ++
    [Event.asks 9, .answers 0 {}, .answers 0 { fresh := 7, now := 2 }, .ops (.begin 7 3),
      .ops (.fail 7 safetyFailed 4)]

theorem done_backups_are_there_retried :
    ∃ t, machine.exec asked failsTwice = some t ∧
      t.row.any (fun row => 0 < row.sizeBytes && statusOf t.db row = .error) = true ∧
        t.Accounts := by
  have horderly : machine.Meets (fun s e => s.orderly e) asked failsTwice := by decide +kernel
  have hend : machine.Ends asked failsTwice fun t =>
      t.row.any (fun row => 0 < row.sizeBytes && statusOf t.db row = .error) = true := by
    decide +kernel
  obtain ⟨t, hrun, hrow⟩ := hend
  exact ⟨t, hrun, hrow, done_backups_are_there created_asked horderly hrun⟩

/-- A restore fails, and the backup it was of can be downloaded no more, though it is there. -/
theorem failed_restore_hides_the_backup :
    ¬ ∀ (s : System) (es : List Event) (t : System),
      s.Created → machine.exec s es = some t → t.Truthful := by
  intro hall
  have hend : machine.Ends asked failsToRestore fun t =>
      t.row.any (fun row => 0 < row.sizeBytes && t.kept row &&
        statusOf t.db row = .error) = true := by
    decide +kernel
  obtain ⟨t, hrun, hrow⟩ := hend
  obtain ⟨row, hrow, hthere⟩ := (Option.any_eq_true _ _).mp hrow
  simp only [Bool.and_eq_true, decide_eq_true_eq] at hthere
  obtain ⟨⟨hsize, hkept⟩, hstatus⟩ := hthere
  have hdone := (hall asked failsToRestore t created_asked hrun row hrow).1.mpr ⟨hsize, hkept⟩
  rw [hstatus] at hdone
  cases hdone

end Runs

end CraftPanel.Backups.Status
