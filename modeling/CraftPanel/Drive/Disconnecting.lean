import CraftPanel.Framework.Moving
import CraftPanel.Drive.Upload

/-!
# What a disconnected account still holds

`disconnect` of `drive/mod.rs` beside the renewals of the access token, the attempts to link a
Drive and the uploads of the same account. Each is a task that is cut at its awaits; between two of
them any other task may run, and a task may be given up. `disconnect` forgets the access token, the
refresh token, the session addresses and the rows of `drive_uploads` one after the other, and takes
no lock against what it forgets. A task writes to what is forgotten already where it holds an
answer from before: the answer to a renewal is one.
-/

namespace CraftPanel.Drive.Disconnecting

open Framework

/-- `oauth::Access`. -/
structure Access where
  token : String
  expiresAt : Timestamp
  minted : Nat
  deriving DecidableEq

/-- `EARLY`, a minute. -/
def early : Timestamp := 60 * 1000

namespace Access

def usable (access : Access) (now : Timestamp) : Bool := now + early < access.expiresAt

def newerThan (access other : Access) : Bool := other.minted < access.minted

end Access

/-- What `disconnect` is told to do with the archives in the Drive. -/
inductive Files
  | refuse | delete | keep
  deriving DecidableEq

/-- Where a task stands in `token_unless`. -/
inductive Asking
  | idle
  /-- It waits for `renewing`. -/
  | waits (stale : Option Access)
  | holds (stale : Option Access)
  /-- Google is asked with the refresh token that was read. -/
  | refreshes (refresh : String)
  deriving DecidableEq

/-- From `begin_link` over `poll_link` to the end of `adopt`. -/
inductive LinkPhase
  | stops
  | asks
  | records (code : String)
  | watches (code : String)
  | polls (code : String)
  | awaits (code : String)
  | keeps (refresh : String) (access : Access)
  | adopts (access : Access)
  | connects
  deriving DecidableEq

inductive Phase
  | checks (mode : Files) (mine : List BackupRow)
  | asks (mine : List BackupRow)
  | deletes (files : List String)
  | marks
  | revokes
  | stopsLink
  | stopsSweep
  | clears
  | reads
  | drops (held : List Id)
  | forgets (held : List Id)
  | wipes (held : List Id)
  | forgetsAccount
  deriving DecidableEq

inductive Work
  /-- `check`, a turn of the sweep, and what else asks Google something of the account. -/
  | looks (sweeping : Bool)
  | uploads (backup : Id) (session : Nat) (todo : List Upload.Statement)
  | links (phase : LinkPhase)
  | cancels
  | disconnects (phase : Phase)
  deriving DecidableEq

structure Task where
  work : Work
  asking : Asking := .idle
  token : Option Access := none
  /-- It is the task in `linking`. -/
  watched : Bool := false
  aborted : Bool := false
  /-- How many disconnects had returned when it began. -/
  born : Nat

/-- A row of `drive_accounts`, as far as the attempts to link read it. -/
structure AccountRow where
  linkUserCode : Option String := none

/-- What a step of a task does to the account; `disconnect` returns with its last one. -/
inductive Effect
  | reads
  | mints
  | renews (access : Access)
  | setsAccess (access : Option Access)
  | keepsToken (refresh : String)
  | forgetsToken
  | keepsSession (backup : Id) (session : Nat)
  | forgetsSession (backup : Id)
  | opensUpload (row : UploadRow)
  | forgetsUpload (backup : Id)
  | forgetsUploads
  | forgetsBackups
  | marksUnreachable
  | recordsLink (code : String)
  | connects
  | stopsLink
  | watches
  | stopsSweep
  | forgetsAccount

/-- What comes back of what a step calls. -/
inductive Answer
  | ok
  | fails
  | revoked
  | pending
  | code (code : String)
  | access (token : String) (expiresAt : Timestamp)
  | tokens (refresh token : String) (expiresAt : Timestamp)
  /-- A directory that could not be read to its end. -/
  | part (held : List Id)
  deriving DecidableEq

/-- What an upload writes next, as `carry_on` and `send` have it. -/
inductive Next
  | opens (session : Nat) (print : Print) (opened : Timestamp)
  | moves (session : Nat)
  | letsGo

structure System where
  db : Database := {}
  user : Id := 0
  access : Option Access := none
  minted : Nat := 0
  /-- The file `refresh_token`; as every secret it is written aside and renamed. -/
  refresh : Option String := none
  /-- The files under `sessions`, by their backups. -/
  addresses : List (Id × Nat) := []
  account : Option AccountRow := none
  tasks : List Task := []
  /-- How many disconnects have returned `Ok`. -/
  ended : Nat := 0
  /-- One has, and no link that was begun since has kept its token. -/
  severed : Bool := false

inductive Event
  /-- Statements of other code, which opens no upload of this account. -/
  | elsewhere (db : Database)
  | forgetsSession (backup : Id)
  | looks (sweeping : Bool)
  | uploads (backup : Id)
  | decides (task : Nat) (next : Next)
  | beginsLink
  | cancelsLink
  | disconnects (mode : Files)
  | asks (task : Nat) (stale : Option Access) (now : Timestamp)
  | steps (task : Nat) (now : Timestamp) (answer : Answer)
  /-- A handler is given up, a run ends, or a task that was aborted has come to its next await. -/
  | gone (task : Nat)
  | restarts

section Statements

variable (db : Database) (user : Id)

def isArchiveOf (row : BackupRow) : Bool :=
  row.location = .drive && (db.servers.find? row.serverId).any (·.ownerId = user)

/-- `forget_drive_backups`; the rows of `drive_uploads` go with their backups. -/
def forgetDriveBackups : Database :=
  { db with
    backups := db.backups.discard (isArchiveOf db user)
    uploads := db.uploads.discard fun row =>
      (db.backups.find? row.backupId).any (isArchiveOf db user) }

def markUnreachable : Database :=
  let marks (row : BackupRow) : BackupRow :=
    if isArchiveOf db user row then { row with driveState := some .unreachable } else row
  have hmarks : ∀ row, (marks row).id = row.id := by
    intro row
    simp only [marks]
    split <;> rfl
  { db with backups := db.backups.map marks hmarks }

/-- The `SELECT` of `forget_uploads_of`. -/
def uploadsOf : List Id := (db.uploads.select (·.userId = user)).map UploadRow.backupId

def forgetUploadsOf : Database := { db with uploads := db.uploads.discard (·.userId = user) }

end Statements

def writeSession (addresses : List (Id × Nat)) (backup : Id) (session : Nat) : List (Id × Nat) :=
  (backup, session) :: addresses.filter (·.1 ≠ backup)

def forgetSession (addresses : List (Id × Nat)) (backup : Id) : List (Id × Nat) :=
  addresses.filter (·.1 ≠ backup)

/-- `JoinHandle::abort`. -/
def Task.aborts (task : Task) : Task := { task with watched := false, aborted := true }

def Task.isSweeping (task : Task) : Bool := task.work = .looks true

/-- The task holds `renewing`. -/
def Task.isRenewing (task : Task) : Bool := match task.asking with
  | .holds _ | .refreshes _ => true
  | .idle | .waits _ => false

/-- No token has come: an upload deals with the error itself, everything else returns it. -/
def Task.unanswered (task : Task) : Option Task := match task.work with
  | .uploads .. => some { task with asking := .idle }
  | _ => none

def Task.answered (task : Task) (access : Access) : Task :=
  { task with asking := .idle, token := some access }

/-- What can be held of an account. -/
inductive Place
  | access
  | refresh
  | address (backup : Id)
  | uploads
  deriving DecidableEq

/-- `disconnect` returns `Ok`. -/
def Effect.returns : Effect → Bool
  | .forgetsAccount => true
  | _ => false

def Phase.isPast : Phase → Place → Bool
  | .reads, .access | .drops _, .access => true
  | .forgets _, .access | .forgets _, .uploads => true
  | .wipes _, .access | .wipes _, .uploads => true
  | .wipes held, .address backup => backup ∉ held
  | .forgetsAccount, _ => true
  | _, _ => false

def Task.isPast (task : Task) (place : Place) : Bool := match task.work with
  | .disconnects phase => phase.isPast place
  | _ => false

/-- The second look for addresses is whole, and what it found can be removed. -/
def Task.forgets (task : Task) (answer : Answer) : Bool := match task.work, answer with
  | .disconnects (.forgets []), .part _ | .disconnects (.wipes (_ :: _)), .fails => false
  | _, _ => true

def Effect.place : Effect → Option Place
  | .renews _ | .setsAccess (some _) => some .access
  | .keepsToken _ => some .refresh
  | .keepsSession backup _ => some (.address backup)
  | .opensUpload _ => some .uploads
  | _ => none

namespace System

variable (s : System)

def sessionsOf : List Id := s.addresses.map Prod.fst

def EmptyAt : Place → Prop
  | .access => s.access = none
  | .refresh => s.refresh = none
  | .address backup => backup ∉ s.sessionsOf
  | .uploads => ∀ row ∈ s.db.uploads.rows, row.userId ≠ s.user

def held (stale : Option Access) (now : Timestamp) : Option Access :=
  s.access.filter fun access => access.usable now && stale.all access.newerThan

def abort (which : Task → Bool) : System :=
  { s with tasks := s.tasks.map fun task => if which task then task.aborts else task }

def perform (task : Task) : Effect → System
  | .reads => s
  | .mints => { s with minted := s.minted + 1 }
  | .renews access => { s with access := some access, minted := s.minted + 1 }
  | .setsAccess access => { s with access }
  | .keepsToken refresh =>
    { s with refresh := some refresh, severed := s.severed && task.born < s.ended }
  | .forgetsToken => { s with refresh := none }
  | .keepsSession backup session =>
    { s with addresses := writeSession s.addresses backup session }
  | .forgetsSession backup => { s with addresses := forgetSession s.addresses backup }
  | .opensUpload row => { s with db := openUpload s.db row }
  | .forgetsUpload backup => { s with db := forgetUpload s.db backup }
  | .forgetsUploads => { s with db := forgetUploadsOf s.db s.user }
  | .forgetsBackups => { s with db := forgetDriveBackups s.db s.user }
  | .marksUnreachable => { s with db := markUnreachable s.db s.user }
  | .recordsLink code => { s with account := some ⟨some code⟩ }
  | .connects => { s with account := some ⟨none⟩ }
  | .stopsLink | .watches => s.abort Task.watched
  | .stopsSweep => s.abort Task.isSweeping
  | .forgetsAccount => { s with account := none, ended := s.ended + 1, severed := true }

def replace (i : Nat) : Option Task → System
  | some task => { s with tasks := s.tasks.set i task }
  | none => { s with tasks := s.tasks.eraseIdx i }

def begins (work : Work) : System :=
  { s with tasks := s.tasks ++ [{ work, born := s.ended }] }

end System

section Tasks

variable (s : System) (task : Task) (now : Timestamp)

/-- `token_unless`, from the lock on. -/
def Task.asks (answer : Answer) : Option (Option Task × Effect) := match task.asking with
  | .idle => none
  | .waits stale =>
    if task.aborted || s.tasks.any Task.isRenewing then none
    else some (some { task with asking := .holds stale }, .reads)
  | .holds stale => match s.held stale now, answer, s.refresh with
    | some access, _, _ => some (some (task.answered access), .reads)
    | none, .ok, some refresh =>
      if task.aborted then none
      else some (some { task with asking := .refreshes refresh }, .reads)
    -- no Google project is set up, or "no Google Drive is connected"
    | none, _, _ => some (task.unanswered, .reads)
  | .refreshes _ => match answer with
    | .access token expiresAt =>
      let access : Access := ⟨token, expiresAt, s.minted⟩
      some (some (task.answered access), .renews access)
    | .revoked => some (task.unanswered, .setsAccess none)
    | .fails => some (task.unanswered, .reads)
    | _ => none

/-- The writes of `remember`, `moved_to` and `let_go`; none of them stops the upload. -/
def Task.writes (backup : Id) (session : Nat) (answer : Answer) :
    List Upload.Statement → Option (Option Task × Effect)
  | [] => none
  | statement :: todo =>
    let goesOn (todo : List Upload.Statement) : Option Task :=
      some { task with work := .uploads backup session todo }
    match statement, answer with
    | .remembers row, .ok =>
      some (goesOn (.opensUpload row :: todo), .keepsSession backup session)
    | .movesTo, .ok => some (goesOn todo, .keepsSession backup session)
    | .opensUpload row, .ok =>
      -- the foreign key refuses the row where the backup is gone
      if (s.db.backups.find? backup).isSome then some (goesOn todo, .opensUpload row)
      else some (goesOn todo, .reads)
    | .forgetSession, .ok => some (goesOn todo, .forgetsSession backup)
    | .forgetUpload, .ok => some (goesOn todo, .forgetsUpload backup)
    | _, _ => some (goesOn todo, .reads)

def Task.links (answer : Answer) (phase : LinkPhase) : Option (Option Task × Effect) :=
  let goesOn (phase : LinkPhase) : Option Task := some { task with work := .links phase }
  match phase, answer with
  | .stops, _ => some (goesOn .asks, .stopsLink)
  | .asks, .code code => some (goesOn (.records code), .reads)
  | .asks, .fails => some (none, .reads)
  | .records code, .ok => some (goesOn (.watches code), .recordsLink code)
  | .records _, .fails => some (none, .reads)
  | .watches code, _ =>
    some (some { task with work := .links (.polls code), watched := true }, .watches)
  | .polls code, .ok =>
    if task.aborted then none
    else if s.account.any (·.linkUserCode = some code) then some (goesOn (.awaits code), .reads)
    else some (none, .reads)
  | .polls _, .fails => some (none, .reads)
  | .awaits _, .tokens refresh token expiresAt =>
    some (goesOn (.keeps refresh ⟨token, expiresAt, s.minted⟩), .mints)
  | .awaits code, .pending => some (goesOn (.polls code), .reads)
  | .awaits _, .fails => some (none, .reads)
  | .keeps refresh access, .ok => some (goesOn (.adopts access), .keepsToken refresh)
  | .keeps _ _, .fails => some (none, .reads)
  | .adopts access, _ => some (goesOn .connects, .setsAccess (some access))
  | .connects, .ok => some (none, .connects)
  | .connects, .fails => some (none, .reads)
  | _, _ => none

def Task.disconnects (answer : Answer) (phase : Phase) : Option (Option Task × Effect) :=
  let goesOn (phase : Phase) : Option Task := some { task with work := .disconnects phase }
  match phase, answer with
  | .checks mode mine, answer =>
    if s.refresh = none then some (none, .reads)
    else match mode, answer with
      | .delete, .ok => some (goesOn (.asks mine), .reads)
      | .delete, _ => some (none, .reads)
      | _, _ => some (goesOn .marks, .reads)
  | .asks mine, _ => task.token.map fun _ =>
    (goesOn (.deletes (mine.filterMap BackupRow.driveFileId)), .reads)
  | .deletes (_ :: files), .ok => some (goesOn (.deletes files), .reads)
  | .deletes [], .ok => some (goesOn .revokes, .forgetsBackups)
  | .deletes _, .fails => some (none, .reads)
  | .marks, .ok => some (goesOn .revokes, .marksUnreachable)
  | .marks, .fails => some (none, .reads)
  | .revokes, _ => some (goesOn .stopsLink, .reads)
  | .stopsLink, _ => some (goesOn .stopsSweep, .stopsLink)
  | .stopsSweep, _ => some (goesOn .clears, .stopsSweep)
  | .clears, _ => some (goesOn .reads, .setsAccess none)
  | .reads, .ok => some (goesOn (.drops (uploadsOf s.db s.user)), .reads)
  | .reads, .fails => some (none, .reads)
  | .drops held, .ok => some (goesOn (.forgets held), .forgetsUploads)
  | .drops _, .fails => some (none, .reads)
  | .forgets (backup :: held), .ok => some (goesOn (.forgets held), .forgetsSession backup)
  | .forgets (_ :: held), .fails => some (goesOn (.forgets held), .reads)
  | .forgets [], .ok => some (goesOn (.wipes s.sessionsOf), .reads)
  | .forgets [], .part held => some (goesOn (.wipes held), .reads)
  | .wipes (backup :: held), .ok => some (goesOn (.wipes held), .forgetsSession backup)
  | .wipes (_ :: held), .fails => some (goesOn (.wipes held), .reads)
  | .wipes [], .ok => some (goesOn .forgetsAccount, .forgetsToken)
  | .wipes [], .fails => some (none, .reads)
  | .forgetsAccount, .ok => some (none, .forgetsAccount)
  | .forgetsAccount, .fails => some (none, .reads)
  | _, _ => none

def Task.step (answer : Answer) : Option (Option Task × Effect) :=
  if task.asking ≠ .idle then task.asks s now answer
  else match task.work with
    | .looks _ => none
    | .uploads backup session todo => task.writes s backup session answer todo
    | .links phase => task.links s answer phase
    | .cancels => some (none, .stopsLink)
    | .disconnects phase => task.disconnects s answer phase

/-- What asks for a token: a look, an upload at any time, and a disconnect that is to delete. -/
def Task.mayAsk : Bool := task.asking = .idle && !task.aborted && match task.work with
  | .looks _ | .uploads .. | .disconnects (.asks _) => true
  | _ => false

def Task.decides (user : Id) (next : Next) : Option Task := match task.work with
  | .uploads backup session [] =>
    if task.asking = .idle && task.token.isSome then
      let (session, todo) := match next with
        | .opens session print opened => (session, [.remembers {
            backupId := backup
            userId := user
            totalBytes := print.bytes
            archiveMtimeNs := print.mtimeNs
            archiveInode := print.inode
            openedAt := opened }])
        | .moves session => (session, [.movesTo])
        | .letsGo => (session, Upload.letGo)
      some { task with work := .uploads backup session todo }
    else none
  | _ => none

end Tasks

namespace System

variable (s : System)

def uploads (backup : Id) : Option System :=
  let claimed := s.tasks.any fun task => match task.work with
    | .uploads other _ _ => other = backup
    | _ => false
  if claimed then none else some (s.begins (.uploads backup 0 []))

def disconnects (mode : Files) : System :=
  let mine := backupsOf s.db s.user
  if mode = .refuse ∧ mine ≠ [] then s else s.begins (.disconnects (.checks mode mine))

def cancelsLink : Option System :=
  if s.account.any (·.linkUserCode.isSome) then
    some ({ s with account := some ⟨none⟩ }.begins .cancels)
  else none

/-- The held token is taken where it is good, and else the task waits for `renewing`. -/
def asks (i : Nat) (stale : Option Access) (now : Timestamp) : Option System :=
  (s.tasks[i]?.filter Task.mayAsk).map fun task => s.replace i (match s.held stale now with
    | some access => some (task.answered access)
    | none => some { task with asking := .waits stale })

def step : Event → Option System
  | .elsewhere db =>
    if ∀ row ∈ db.uploads.rows, row.userId = s.user →
        ∃ old ∈ s.db.uploads.rows, old.userId = s.user ∧ old.backupId = row.backupId then
      some { s with db }
    else none
  | .forgetsSession backup => some { s with addresses := forgetSession s.addresses backup }
  | .looks sweeping => some (s.begins (.looks sweeping))
  | .uploads backup => s.uploads backup
  | .decides i next =>
    (s.tasks[i]?.bind (Task.decides · s.user next)).map fun task => s.replace i (some task)
  | .beginsLink => if s.refresh = none then some (s.begins (.links .stops)) else none
  | .cancelsLink => s.cancelsLink
  | .disconnects mode => some (s.disconnects mode)
  | .asks i stale now => s.asks i stale now
  | .steps i now answer => do
    let task ← s.tasks[i]?
    let (next, effect) ← task.step s now answer
    some ((s.perform task effect).replace i next)
  | .gone i => if i < s.tasks.length then some (s.replace i none) else none
  | .restarts => some { s with
      access := none
      account := s.account.map fun _ => ⟨none⟩
      tasks := [] }

def clearedAt (place : Place) : Bool := s.tasks.any (·.isPast place)

/-- The task began before the last disconnect returned, or one is past the place by now. -/
def overtaken (task : Task) (place : Place) : Bool := task.born < s.ended || s.clearedAt place

/-- No task that was overtaken writes, and a disconnect finds and removes every address. -/
def heeds : Event → Bool
  | .steps i now answer =>
    let written := (s.tasks[i]?).bind fun task => (task.step s now answer).bind fun (_, effect) =>
      effect.place.map (task, ·)
    written.all (fun (task, place) => !s.overtaken task place) &&
      (s.tasks[i]?).all (Task.forgets · answer)
  | _ => true

/-- Nothing is held of the account. -/
def Empty : Prop := ∀ place, s.EmptyAt place

/-- The panel has started, and no disconnect has been asked for. -/
structure Started : Prop where
  tasks : s.tasks = []
  severed : s.severed = false

end System

def machine : Machine System Event := ⟨System.step⟩

/-- The task has nothing in hand that it could write. -/
def Task.Bare (task : Task) : Prop :=
  task.token = none ∧ (∀ refresh, task.asking ≠ .refreshes refresh) ∧ match task.work with
    | .uploads _ _ todo => todo = []
    | .links (.adopts _) => False
    | _ => True

/-- What one step of a task can do. -/
structure Steps (s : System) (task : Task) (answer : Answer) (next : Option Task)
    (effect : Effect) : Prop where
  born : ∀ task', next = some task' → task'.born = task.born
  fills : ∀ place, effect.place = some place → task.Bare → ∃ refresh, effect = .keepsToken refresh
  bare : ∀ task', next = some task' → s.access = none → s.refresh = none → task.Bare →
    (∀ refresh, effect ≠ .keepsToken refresh) → task'.Bare
  past : ∀ task' place, next = some task' → task'.isPast place = true →
    task.isPast place = true ∨ task.forgets answer = false ∨
      (s.perform task effect).EmptyAt place
  returns : effect.returns = true → next = none ∧ ∀ place, task.isPast place = true

section Steps

variable {s t : System} {task : Task} {now : Timestamp} {answer : Answer} {next : Option Task}
  {effect : Effect} {place : Place}

theorem forgetUploadsOf_empty (db : Database) (user : Id) :
    ∀ row ∈ (forgetUploadsOf db user).uploads.rows, row.userId ≠ user := by
  intro row hrow
  simpa using (List.mem_filter.mp hrow).2

theorem notMem_forgetSession (addresses : List (Id × Nat)) (backup : Id) :
    backup ∉ (forgetSession addresses backup).map Prod.fst := by
  simp [forgetSession]

theorem Task.unanswered_some {task' : Task} (h : task.unanswered = some task') :
    task' = { task with asking := .idle } := by
  unfold Task.unanswered at h
  split at h
  · exact (Option.some.inj h).symm
  · cases h

theorem isPast_of_work {task' : Task} (h : task'.work = task.work) :
    task'.isPast place = task.isPast place := by
  unfold Task.isPast
  rw [h]

theorem Task.Bare.idle (h : task.Bare) : Task.Bare { task with asking := .idle } := by
  obtain ⟨htoken, -, hwork⟩ := h
  refine ⟨htoken, ?_, hwork⟩
  intro refresh hasking
  cases hasking

theorem Steps.of_unanswered (heffect : effect = .reads ∨ effect = .setsAccess none) :
    Steps s task answer task.unanswered effect := by
  constructor
  · intro task' hnext
    rw [Task.unanswered_some hnext]
  · intro place hplace
    obtain rfl | rfl := heffect <;> cases hplace
  · intro task' hnext _ _ hbare _
    rw [Task.unanswered_some hnext]
    exact hbare.idle
  · intro task' place hnext hpast
    left
    rwa [isPast_of_work (by rw [Task.unanswered_some hnext])] at hpast
  · intro hreturns
    obtain rfl | rfl := heffect <;> cases hreturns

theorem Steps.ends (hplace : effect.place = none) (hreturns : effect.returns = false) :
    Steps s task answer none effect := by
  constructor
  · intro task' hnext
    cases hnext
  · intro place hsome
    rw [hplace] at hsome
    cases hsome
  · intro task' hnext
    cases hnext
  · intro task' place hnext
    cases hnext
  · intro hends
    rw [hreturns] at hends
    cases hends

theorem Steps.asks {task' : Task} (hsame : task'.work = task.work ∧ task'.born = task.born)
    (hfills : ∀ place, effect.place = some place → ¬ task.Bare)
    (hbare : s.access = none → s.refresh = none → task.Bare → task'.Bare)
    (hreturns : effect.returns = false) : Steps s task answer (some task') effect := by
  constructor
  · intro next hnext
    rw [← Option.some.inj hnext, hsame.2]
  · intro place hplace h
    exact absurd h (hfills place hplace)
  · intro next hnext haccess hrefresh h _
    rw [← Option.some.inj hnext]
    exact hbare haccess hrefresh h
  · intro next place hnext hpast
    left
    rwa [← Option.some.inj hnext, isPast_of_work hsame.1] at hpast
  · intro hends
    rw [hreturns] at hends
    cases hends

theorem Task.asks_steps (h : task.asks s now answer = some (next, effect)) :
    Steps s task answer next effect := by
  unfold Task.asks at h
  split at h
  · cases h
  · next stale hasking =>
    split at h
    · cases h
    cases h
    apply Steps.asks
    · exact ⟨rfl, rfl⟩
    · rintro _ ⟨⟩
    · intro _ _ hbare
      refine ⟨hbare.1, ?_, hbare.2.2⟩
      intro refresh hasks
      cases hasks
    · rfl
  · next stale hasking =>
    split at h
    · next access hheld =>
      cases h
      apply Steps.asks
      · exact ⟨rfl, rfl⟩
      · rintro _ ⟨⟩
      · intro haccess
        simp [System.held, haccess] at hheld
      · rfl
    · next refresh hheld hrefresh =>
      split at h
      · cases h
      cases h
      apply Steps.asks
      · exact ⟨rfl, rfl⟩
      · rintro _ ⟨⟩
      · intro _ hnone
        rw [hrefresh] at hnone
        cases hnone
      · rfl
    · cases h
      exact Steps.of_unanswered (.inl rfl)
  · next refresh hasking =>
    have hfull : ¬ task.Bare := fun hbare => hbare.2.1 refresh hasking
    split at h
    · cases h
      apply Steps.asks
      · exact ⟨rfl, rfl⟩
      · exact fun _ _ => hfull
      · exact fun _ _ hbare => absurd hbare hfull
      · rfl
    · cases h
      exact Steps.of_unanswered (.inr rfl)
    · cases h
      exact Steps.of_unanswered (.inl rfl)
    · cases h

theorem Task.writes_steps {backup : Id} {session : Nat} {todo : List Upload.Statement}
    (hwork : task.work = .uploads backup session todo)
    (h : task.writes s backup session answer todo = some (next, effect)) :
    Steps s task answer next effect := by
  unfold Task.writes at h
  split at h
  · cases h
  next statement todo =>
  have hfull : ¬ task.Bare := by
    intro hbare
    have htodo := hbare.2.2
    rw [hwork] at htodo
    cases htodo
  have hgoes (todo : List Upload.Statement) (hreturns : effect.returns = false) :
      Steps s task answer (some { task with work := .uploads backup session todo }) effect := by
    constructor
    · rintro _ ⟨⟩
      rfl
    · exact fun _ _ hbare => absurd hbare hfull
    · exact fun _ _ _ _ hbare => absurd hbare hfull
    · rintro _ place ⟨⟩ ⟨⟩
    · exact fun hends => absurd (hreturns.symm.trans hends) nofun
  dsimp only at h
  split at h
  · cases h
    exact hgoes _ rfl
  · cases h
    exact hgoes _ rfl
  · split at h <;> cases h <;> exact hgoes _ rfl
  all_goals
    cases h
    exact hgoes _ rfl

theorem Task.links_steps {phase : LinkPhase} (hwork : task.work = .links phase)
    (h : task.links s answer phase = some (next, effect)) : Steps s task answer next effect := by
  have hgoes {watched : Bool} {phase' : LinkPhase} (hreturns : effect.returns = false)
      (hfills : ∀ place, effect.place = some place → task.Bare →
        ∃ refresh, effect = .keepsToken refresh)
      (hadopts : ∀ access, phase' = .adopts access → ∃ refresh, effect = .keepsToken refresh) :
      Steps s task answer (some { task with work := .links phase', watched }) effect := by
    constructor
    · rintro _ ⟨⟩
      rfl
    · exact hfills
    · rintro _ ⟨⟩ - - ⟨htoken, hasking, -⟩ hkeeps
      refine ⟨htoken, hasking, ?_⟩
      cases phase' with
      | adopts access =>
        obtain ⟨refresh, heffect⟩ := hadopts access rfl
        exact absurd heffect (hkeeps refresh)
      | _ => trivial
    · rintro _ place ⟨⟩ ⟨⟩
    · exact fun hends => absurd (hreturns.symm.trans hends) nofun
  have hreads {watched : Bool} {phase' : LinkPhase} (hplace : effect.place = none)
      (hreturns : effect.returns = false) (hadopts : ∀ access, phase' ≠ .adopts access) :
      Steps s task answer (some { task with work := .links phase', watched }) effect := by
    apply hgoes hreturns
    · intro place hsome
      rw [hplace] at hsome
      cases hsome
    · exact fun access hphase => absurd hphase (hadopts access)
  unfold Task.links at h
  dsimp only at h
  split at h
  all_goals try (split at h)
  all_goals try (split at h)
  all_goals cases h
  all_goals first
    | exact Steps.ends rfl rfl
    | exact hreads rfl rfl (by simp)
    | apply hgoes rfl
  -- what is left are the two writes of `adopt`
  · exact fun _ _ _ => ⟨_, rfl⟩
  · exact fun _ _ => ⟨_, rfl⟩
  · intro place _ hbare
    have hadopts := hbare.2.2
    rw [hwork] at hadopts
    cases hadopts
  · rintro _ ⟨⟩

theorem Task.disconnects_steps {phase : Phase} (hwork : task.work = .disconnects phase)
    (h : task.disconnects s answer phase = some (next, effect)) :
    Steps s task answer next effect := by
  have hpast (place : Place) : task.isPast place = phase.isPast place := by
    unfold Task.isPast
    rw [hwork]
  have hgoes {phase' : Phase} (hplace : effect.place = none) (hreturns : effect.returns = false)
      (hmoves : ∀ place, phase'.isPast place = true → phase.isPast place = true ∨
        task.forgets answer = false ∨ (s.perform task effect).EmptyAt place) :
      Steps s task answer (some { task with work := .disconnects phase' }) effect := by
    constructor
    · rintro _ ⟨⟩
      rfl
    · intro place hsome
      rw [hplace] at hsome
      cases hsome
    · rintro _ ⟨⟩ - - ⟨htoken, hasking, -⟩ -
      exact ⟨htoken, hasking, trivial⟩
    · rintro _ place ⟨⟩ hafter
      rw [hpast]
      exact hmoves place hafter
    · exact fun hends => absurd (hreturns.symm.trans hends) nofun
  unfold Task.disconnects at h
  dsimp only at h
  split at h
  all_goals try (split at h)
  all_goals try (split at h)
  all_goals try (cases h)
  all_goals first
    | exact Steps.ends rfl rfl
    | apply hgoes rfl rfl
    | skip
  all_goals try (intro place hafter; simp [Phase.isPast] at hafter; done)
  · next mine =>
    obtain ⟨_, -, hstep⟩ := Option.map_eq_some_iff.mp h
    cases hstep
    apply hgoes rfl rfl
    intro place hafter
    cases hafter
  · intro place hafter
    cases place with
    | access => exact .inr (.inr rfl)
    | _ => cases hafter
  · intro place hafter
    left
    cases place <;> exact hafter
  · intro place hafter
    cases place with
    | access => exact .inl rfl
    | uploads => exact .inr (.inr (forgetUploadsOf_empty _ _))
    | _ => cases hafter
  · intro place hafter
    left
    cases place <;> exact hafter
  · intro place hafter
    left
    cases place <;> exact hafter
  · intro place hafter
    cases place with
    | address backup =>
      have hgone : backup ∉ s.sessionsOf := of_decide_eq_true hafter
      exact .inr (.inr hgone)
    | refresh => cases hafter
    | _ => exact .inl rfl
  · intro place hafter
    right
    left
    unfold Task.forgets
    rw [hwork]
  · next backup held =>
    intro place hafter
    cases place with
    | address other =>
      by_cases hother : other = backup
      · subst hother
        exact .inr (.inr (notMem_forgetSession _ _))
      · left
        have hheld : other ∉ held := of_decide_eq_true hafter
        simp [Phase.isPast, hother, hheld]
    | refresh => cases hafter
    | _ => exact .inl rfl
  · intro place hafter
    right
    left
    unfold Task.forgets
    rw [hwork]
  · intro place hafter
    cases place with
    | refresh => exact .inr (.inr rfl)
    | _ => exact .inl rfl
  constructor
  · intro task' hnext
    cases hnext
  · intro place hplace
    cases hplace
  · intro task' hnext
    cases hnext
  · intro task' place hnext
    cases hnext
  · exact fun _ => ⟨rfl, fun place => hpast place⟩

theorem Task.step_steps (h : task.step s now answer = some (next, effect)) :
    Steps s task answer next effect := by
  unfold Task.step at h
  split at h
  · exact task.asks_steps h
  split at h
  · cases h
  · next hwork => exact task.writes_steps hwork h
  · next hwork => exact task.links_steps hwork h
  · cases h
    exact Steps.ends rfl rfl
  · next hwork => exact task.disconnects_steps hwork h

theorem openUpload_emptyAt {row : UploadRow} (hplace : place ≠ .uploads) (h : s.EmptyAt place) :
    ({ s with db := openUpload s.db row } : System).EmptyAt place := by
  cases place with
  | uploads => exact absurd rfl hplace
  | _ => exact h

theorem emptyAt_db {db : Database} (hrows : db.uploads.rows ⊆ s.db.uploads.rows)
    (h : s.EmptyAt place) : ({ s with db } : System).EmptyAt place := by
  cases place with
  | uploads => exact fun row hrow => h row (hrows hrow)
  | _ => exact h

theorem forgetSession_emptyAt (backup : Id) (h : s.EmptyAt place) :
    ({ s with addresses := forgetSession s.addresses backup } : System).EmptyAt place := by
  cases place with
  | address other =>
    intro hmem
    obtain ⟨entry, hentry, hother⟩ := List.mem_map.mp hmem
    exact h (List.mem_map.mpr ⟨entry, (List.mem_filter.mp hentry).1, hother⟩)
  | _ => exact h

theorem writeSession_emptyAt {backup : Id} (session : Nat) (hplace : place ≠ .address backup)
    (h : s.EmptyAt place) :
    ({ s with addresses := writeSession s.addresses backup session } : System).EmptyAt place := by
  cases place with
  | address other =>
    intro hmem
    rcases List.mem_cons.mp hmem with hother | hmem
    · exact hplace (congrArg Place.address hother)
    · exact forgetSession_emptyAt backup h hmem
  | _ => exact h

theorem perform_emptyAt (task : Task) (effect : Effect) (h : s.EmptyAt place)
    (hplace : effect.place ≠ some place) : (s.perform task effect).EmptyAt place := by
  cases effect with
  | renews access | keepsToken refresh =>
    cases place with
    | access | refresh => first | exact h | exact absurd rfl hplace
    | _ => exact h
  | setsAccess access =>
    cases place with
    | access =>
      cases access with
      | none => rfl
      | some access => exact absurd rfl hplace
    | _ => exact h
  | forgetsToken =>
    cases place with
    | refresh => rfl
    | _ => exact h
  | keepsSession backup session =>
    exact writeSession_emptyAt session (fun heq => hplace (congrArg some heq.symm)) h
  | forgetsSession backup => exact forgetSession_emptyAt backup h
  | opensUpload row => exact openUpload_emptyAt (fun heq => hplace (congrArg some heq.symm)) h
  | forgetsUpload backup | forgetsUploads | forgetsBackups =>
    exact emptyAt_db (List.filter_subset_self _) h
  | marksUnreachable => exact emptyAt_db (List.Subset.refl _) h
  | reads | mints | recordsLink | connects | stopsLink | watches | stopsSweep | forgetsAccount =>
    cases place <;> exact h

theorem abort_tasks (which : Task → Bool) {after : Task} (h : after ∈ (s.abort which).tasks) :
    ∃ before ∈ s.tasks, after.born = before.born ∧
      (∀ place, after.isPast place = before.isPast place) ∧ (before.Bare → after.Bare) := by
  obtain ⟨before, hbefore, rfl⟩ := List.mem_map.mp h
  refine ⟨before, hbefore, ?_⟩
  split
  · exact ⟨rfl, fun _ => rfl, id⟩
  · exact ⟨rfl, fun _ => rfl, id⟩

theorem perform_tasks (task : Task) (effect : Effect) {after : Task}
    (h : after ∈ (s.perform task effect).tasks) :
    ∃ before ∈ s.tasks, after.born = before.born ∧
      (∀ place, after.isPast place = before.isPast place) ∧ (before.Bare → after.Bare) := by
  cases effect with
  | stopsLink | watches | stopsSweep => exact abort_tasks _ h
  | _ => exact ⟨after, h, rfl, fun _ => rfl, id⟩

theorem perform_ended (task : Task) (hreturns : effect.returns = false) :
    (s.perform task effect).ended = s.ended := by
  cases effect with
  | forgetsAccount => cases hreturns
  | _ => rfl

theorem perform_severed (hreturns : effect.returns = false)
    (h : (s.perform task effect).severed = true) :
    s.severed = true ∧ ∀ refresh, effect = .keepsToken refresh → task.born < s.ended := by
  cases effect with
  | forgetsAccount => cases hreturns
  | keepsToken refresh =>
    have hboth : s.severed = true ∧ task.born < s.ended := by simpa [System.perform] using h
    exact ⟨hboth.1, fun _ _ => hboth.2⟩
  | _ => exact ⟨h, nofun⟩

theorem mem_replace {i : Nat} {after : Task} (h : after ∈ (s.replace i next).tasks) :
    next = some after ∨ after ∈ s.tasks := by
  have hmoved : (s.replace i next).tasks = moved s.tasks i next := by cases next <;> rfl
  exact (mem_of_moved (hmoved ▸ h)).symm

@[simp] theorem replace_emptyAt {i : Nat} :
    (s.replace i next).EmptyAt place ↔ s.EmptyAt place := by
  cases next <;> cases place <;> exact Iff.rfl

@[simp] theorem replace_severed {i : Nat} : (s.replace i next).severed = s.severed := by
  cases next <;> rfl

@[simp] theorem replace_ended {i : Nat} : (s.replace i next).ended = s.ended := by
  cases next <;> rfl

/-- What stands between the steps of all tasks where none that was overtaken writes. -/
structure Inv (s : System) : Prop where
  empty : s.severed = true → s.Empty
  past : ∀ task ∈ s.tasks, ∀ place, task.isPast place = true → s.EmptyAt place
  born : ∀ task ∈ s.tasks, task.born ≤ s.ended
  bare : s.severed = true → ∀ task ∈ s.tasks, task.born = s.ended → task.Bare

/-- A task that has just begun, or one that was there and is no further than it was. -/
def Follows (s : System) (after : Task) : Prop :=
  (after.Bare ∧ after.born = s.ended ∧ ∀ place, after.isPast place = false) ∨
    ∃ before ∈ s.tasks, after.born = before.born ∧
      (∀ place, after.isPast place = before.isPast place) ∧
      (s.access = none → before.Bare → after.Bare)

theorem Follows.refl (h : task ∈ s.tasks) : Follows s task :=
  .inr ⟨task, h, rfl, fun _ => rfl, fun _ => id⟩

theorem Inv.frame (h : Inv s) (hempty : ∀ place, s.EmptyAt place → t.EmptyAt place)
    (hsevered : t.severed = s.severed) (hended : t.ended = s.ended)
    (htasks : ∀ after ∈ t.tasks, Follows s after) : Inv t := by
  constructor
  · intro hsome place
    exact hempty place (h.empty (hsevered ▸ hsome) place)
  · intro after hafter place hpast
    obtain ⟨-, -, hnone⟩ | ⟨before, hbefore, -, hsame, -⟩ := htasks after hafter
    · rw [hnone] at hpast
      cases hpast
    · rw [hsame] at hpast
      exact hempty place (h.past before hbefore place hpast)
  · intro after hafter
    rw [hended]
    obtain ⟨-, hborn, -⟩ | ⟨before, hbefore, hborn, -, -⟩ := htasks after hafter
    · exact hborn.le
    · rw [hborn]
      exact h.born before hbefore
  · intro hsome after hafter hnow
    rw [hsevered] at hsome
    rw [hended] at hnow
    obtain ⟨hbare, -, -⟩ | ⟨before, hbefore, hborn, -, hbare⟩ := htasks after hafter
    · exact hbare
    · apply hbare (h.empty hsome .access)
      exact h.bare hsome before hbefore (hborn ▸ hnow)

theorem Inv.begins (h : Inv s) {work : Work}
    (hwork : work = .looks true ∨ work = .looks false ∨ (∃ backup, work = .uploads backup 0 []) ∨
      work = .links .stops ∨ work = .cancels ∨
      ∃ mode mine, work = .disconnects (.checks mode mine)) : Inv (s.begins work) := by
  apply h.frame
  · exact fun place hplace => by cases place <;> exact hplace
  · rfl
  · rfl
  intro after hafter
  rcases List.mem_append.mp hafter with hold | hnew
  · exact .refl hold
  left
  rw [List.mem_singleton.mp hnew]
  refine ⟨⟨rfl, nofun, ?_⟩, rfl, ?_⟩
  · obtain rfl | rfl | ⟨backup, rfl⟩ | rfl | rfl | ⟨mode, mine, rfl⟩ := hwork <;> trivial
  · intro place
    obtain rfl | rfl | ⟨backup, rfl⟩ | rfl | rfl | ⟨mode, mine, rfl⟩ := hwork <;> rfl

theorem Inv.replaces (h : Inv s) {i : Nat}
    (hnext : ∀ after, next = some after → Follows s after) : Inv (s.replace i next) := by
  apply h.frame
  · exact fun place hplace => replace_emptyAt.mpr hplace
  · exact replace_severed
  · exact replace_ended
  intro after hafter
  rcases mem_replace hafter with hnew | hold
  · exact hnext after hnew
  · exact .refl hold

theorem Inv.returns (h : Inv s) {i : Nat} (htask : task ∈ s.tasks)
    (hreturns : effect.returns = true) (hpast : ∀ place, task.isPast place = true) :
    Inv ((s.perform task effect).replace i none) := by
  cases effect with
  | forgetsAccount =>
    have hempty (place : Place) : (s.perform task .forgetsAccount).EmptyAt place :=
      perform_emptyAt task _ (h.past task htask place (hpast place)) nofun
    have hold (after : Task)
        (hafter : after ∈ ((s.perform task .forgetsAccount).replace i none).tasks) :
        after.born ≤ s.ended := h.born after (List.mem_of_mem_eraseIdx hafter)
    constructor
    · exact fun _ place => replace_emptyAt.mpr (hempty place)
    · exact fun _ _ place _ => replace_emptyAt.mpr (hempty place)
    · exact fun after hafter => (hold after hafter).trans (Nat.le_succ _)
    intro _ after hafter hnow
    have hle := hold after hafter
    have hsucc : after.born = s.ended + 1 := hnow
    omega
  | _ => cases hreturns

theorem Inv.steps (h : Inv s) {i : Nat} (htask : task ∈ s.tasks)
    (hstep : task.step s now answer = some (next, effect)) (hforgets : task.forgets answer = true)
    (hheeds : ∀ place, effect.place = some place → s.overtaken task place = false) :
    Inv ((s.perform task effect).replace i next) := by
  have hsteps := task.step_steps hstep
  cases hreturns : effect.returns with
  | true =>
    obtain ⟨rfl, hpast⟩ := hsteps.returns hreturns
    exact h.returns htask hreturns hpast
  | false =>
    -- what one has gone past is not filled again
    have hstays {other : Task} (hother : other ∈ s.tasks) (place : Place)
        (hpast : other.isPast place = true) : (s.perform task effect).EmptyAt place := by
      apply perform_emptyAt task effect (h.past other hother place hpast)
      intro hplace
      have hnot := hheeds place hplace
      have hcleared : s.clearedAt place = true := List.any_eq_true.mpr ⟨other, hother, hpast⟩
      rw [System.overtaken, hcleared, Bool.or_true] at hnot
      cases hnot
    have hsame (hsevered : (s.perform task effect).severed = true) (hnow : task.born = s.ended)
        (refresh : String) : effect ≠ .keepsToken refresh := by
      intro heffect
      have hlt := (perform_severed hreturns hsevered).2 refresh heffect
      omega
    constructor
    · intro hsevered place
      rw [replace_severed] at hsevered
      have hbefore := (perform_severed hreturns hsevered).1
      rw [replace_emptyAt]
      apply perform_emptyAt task effect (h.empty hbefore place)
      intro hplace
      have hnot := hheeds place hplace
      have hnow : task.born = s.ended := by
        have hle := h.born task htask
        simp only [System.overtaken, Bool.or_eq_false_iff, decide_eq_false_iff_not] at hnot
        omega
      obtain ⟨refresh, hkeeps⟩ :=
        hsteps.fills place hplace (h.bare hbefore task htask hnow)
      exact hsame hsevered hnow refresh hkeeps
    · intro after hafter place hpast
      rw [replace_emptyAt]
      rcases mem_replace hafter with hnext | hold
      · obtain hbefore | hfails | hempty := hsteps.past after place hnext hpast
        · exact hstays htask place hbefore
        · rw [hforgets] at hfails
          cases hfails
        · exact hempty
      · obtain ⟨before, hbefore, -, hsame, -⟩ := perform_tasks task effect hold
        exact hstays hbefore place ((hsame place).symm.trans hpast)
    · intro after hafter
      rw [replace_ended, perform_ended task hreturns]
      rcases mem_replace hafter with hnext | hold
      · rw [hsteps.born after hnext]
        exact h.born task htask
      · obtain ⟨before, hbefore, hborn, -⟩ := perform_tasks task effect hold
        rw [hborn]
        exact h.born before hbefore
    intro hsevered after hafter hnow
    rw [replace_severed] at hsevered
    rw [replace_ended, perform_ended task hreturns] at hnow
    have hbefore := (perform_severed hreturns hsevered).1
    rcases mem_replace hafter with hnext | hold
    · rw [hsteps.born after hnext] at hnow
      exact hsteps.bare after hnext (h.empty hbefore .access) (h.empty hbefore .refresh)
        (h.bare hbefore task htask hnow) (hsame hsevered hnow)
    · obtain ⟨before, hmem, hborn, -, hbare⟩ := perform_tasks task effect hold
      exact hbare (h.bare hbefore before hmem (hborn ▸ hnow))

theorem Inv.step (h : Inv s) {e : Event} (hheeds : s.heeds e = true) (hstep : s.step e = some t) :
    Inv t := by
  cases e with
  | elsewhere db =>
    simp only [System.step] at hstep
    split at hstep
    · next hrows =>
      cases hstep
      apply h.frame
      · intro place hplace
        cases place with
        | uploads =>
          intro row hrow huser
          obtain ⟨old, hold, hours, -⟩ := hrows row hrow huser
          exact hplace old hold hours
        | _ => exact hplace
      · rfl
      · rfl
      · exact fun after => .refl
    · cases hstep
  | forgetsSession backup =>
    cases hstep
    exact h.frame (fun place => forgetSession_emptyAt backup) rfl rfl fun after => .refl
  | looks sweeping =>
    cases hstep
    apply h.begins
    cases sweeping <;> simp
  | uploads backup =>
    simp only [System.step, System.uploads] at hstep
    split at hstep
    · cases hstep
    · cases hstep
      apply h.begins
      simp
  | decides i next =>
    obtain ⟨after, hafter, rfl⟩ := Option.map_eq_some_iff.mp hstep
    obtain ⟨before, hbefore, hdecides⟩ := Option.bind_eq_some_iff.mp hafter
    apply h.replaces
    intro next hnext
    cases hnext
    right
    refine ⟨before, List.mem_of_getElem? hbefore, ?_⟩
    unfold Task.decides at hdecides
    split at hdecides
    · next hwork =>
      split at hdecides
      · next hmay =>
        cases hdecides
        refine ⟨rfl, ?_, ?_⟩
        · intro place
          unfold Task.isPast
          rw [hwork]
        · intro _ hbare
          rw [hbare.1] at hmay
          simp at hmay
      · cases hdecides
    · cases hdecides
  | beginsLink =>
    simp only [System.step] at hstep
    split at hstep
    · cases hstep
      apply h.begins
      simp
    · cases hstep
  | cancelsLink =>
    simp only [System.step, System.cancelsLink] at hstep
    split at hstep
    · cases hstep
      have hcleared : Inv { s with account := some ⟨none⟩ } := by
        apply h.frame
        · exact fun place hplace => by cases place <;> exact hplace
        · rfl
        · rfl
        · exact fun after => .refl
      apply hcleared.begins
      simp
    · cases hstep
  | disconnects mode =>
    cases hstep
    unfold System.disconnects
    dsimp only
    split
    · exact h
    · apply h.begins
      simp
  | asks i stale now =>
    obtain ⟨before, hbefore, rfl⟩ := Option.map_eq_some_iff.mp hstep
    obtain ⟨hbefore, -⟩ := Option.filter_eq_some_iff.mp hbefore
    apply h.replaces
    intro after hafter
    right
    refine ⟨before, List.mem_of_getElem? hbefore, ?_⟩
    split at hafter
    · next access hheld =>
      cases hafter
      refine ⟨rfl, fun _ => rfl, ?_⟩
      intro haccess
      simp [System.held, haccess] at hheld
    · cases hafter
      refine ⟨rfl, fun _ => rfl, ?_⟩
      intro _ hbare
      exact ⟨hbare.1, nofun, hbare.2.2⟩
  | steps i now answer =>
    simp only [System.step, Option.bind_eq_bind, Option.bind_eq_some_iff] at hstep
    obtain ⟨task, htask, ⟨next, effect⟩, htaken, hstep⟩ := hstep
    cases hstep
    simp only [System.heeds, htask, Option.bind_some, htaken, Option.all_some,
      Bool.and_eq_true] at hheeds
    apply h.steps (List.mem_of_getElem? htask) htaken hheeds.2
    intro place hplace
    have hnot := hheeds.1
    rw [hplace] at hnot
    simpa using hnot
  | gone i =>
    simp only [System.step] at hstep
    split at hstep
    · cases hstep
      apply h.replaces
      intro after hafter
      cases hafter
    · cases hstep
  | restarts =>
    cases hstep
    apply h.frame
    · intro place hplace
      cases place with
      | access => rfl
      | _ => exact hplace
    · rfl
    · rfl
    · intro after hafter
      cases hafter

theorem Inv.of_started (hs : s.Started) : Inv s := by
  constructor
  · intro hsevered
    rw [hs.severed] at hsevered
    cases hsevered
  · intro task htask
    rw [hs.tasks] at htask
    cases htask
  · intro task htask
    rw [hs.tasks] at htask
    cases htask
  · intro hsevered
    rw [hs.severed] at hsevered
    cases hsevered

/-- Where no task that a disconnect has overtaken writes, and every address that it finds can be
removed, nothing is held once it has returned, until a link that was begun since keeps a token. -/
theorem disconnected_holds_nothing {es : List Event} (hs : s.Started)
    (hheeds : machine.Meets (fun s e => s.heeds e) s es) (hrun : machine.exec s es = some t)
    (hsevered : t.severed = true) : t.Empty := by
  have hinv : Inv t :=
    machine.invariant (fun h hok hstep => h.step hok hstep) (Inv.of_started hs) hheeds hrun
  exact hinv.empty hsevered

def unconnected : System where
  user := 1
  db :=
    { servers := ⟨[{ id := 2, ownerId := 1 }], by decide⟩
      backups := ⟨[{ id := 7, serverId := 2, location := .drive }], by decide⟩ }

/-- A Drive is connected with the code `ABCD`. -/
def links : List Event :=
  [.beginsLink, .steps 0 0 .ok, .steps 0 0 (.code "ABCD"), .steps 0 0 .ok, .steps 0 0 .ok,
    .steps 0 0 .ok, .steps 0 0 (.tokens "1//refresh" "ya29" 3600000), .steps 0 0 .ok,
    .steps 0 0 .ok, .steps 0 0 .ok]

/-- An upload session is opened, and its address and its row are written. -/
def sendsUp : List Event :=
  [.uploads 7, .asks 0 none 0, .decides 0 (.opens 3 ⟨100, 0, 0⟩ 0), .steps 0 0 .ok,
    .steps 0 0 .ok]

def disconnects (i steps : Nat) : List Event :=
  .disconnects .keep :: .replicate steps (.steps i 0 .ok)

theorem disconnected_holds_nothing_linked :
    ∃ t, machine.exec unconnected (links ++ sendsUp ++ disconnects 1 12) = some t ∧
      t.severed = true ∧ t.tasks.length = 1 ∧ t.Empty := by
  have hheeds : machine.Meets (fun s e => s.heeds e) unconnected
      (links ++ sendsUp ++ disconnects 1 12) := by decide +kernel
  have hend : machine.Ends unconnected (links ++ sendsUp ++ disconnects 1 12) fun t =>
      t.severed = true ∧ t.tasks.length = 1 := by decide +kernel
  obtain ⟨t, hrun, hsevered, htasks⟩ := hend
  exact ⟨t, hrun, hsevered, htasks,
    disconnected_holds_nothing ⟨rfl, rfl⟩ hheeds hrun hsevered⟩

def connected : System := { user := 1, refresh := some "1//refresh" }

def answersLate : List Event :=
  [Event.looks false, .asks 0 none 0, .steps 0 0 .ok, .steps 0 0 .ok] ++ disconnects 1 11 ++
    [Event.steps 0 0 (.access "ya29" 3600000)]

/-- `token_unless` puts the access token back. -/
theorem renewal_outlives_disconnect :
    ¬ ∀ (s : System) (es : List Event) (t : System),
      s.Started → machine.exec s es = some t → t.severed = true → t.Empty := by
  intro hall
  have hend : machine.Ends connected answersLate fun t =>
      t.severed = true ∧ t.access = some ⟨"ya29", 3600000, 0⟩ := by decide +kernel
  obtain ⟨t, hrun, hsevered, haccess⟩ := hend
  have hnone : t.access = none := hall _ _ t ⟨rfl, rfl⟩ hrun hsevered .access
  rw [haccess] at hnone
  cases hnone

end Steps

end CraftPanel.Drive.Disconnecting
