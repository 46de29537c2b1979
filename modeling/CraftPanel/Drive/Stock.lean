import Mathlib.Data.List.Sort
import CraftPanel.Framework.Machine
import CraftPanel.Database

/-!
# One Google account

The uploads and the stock-taking of `drive/mod.rs` for the account of one user. A file becomes
visible in the Drive when Google has its last byte, which is before the upload run hears of it and
long before `finish_upload` writes its id to the row. Upload sessions are numbered in the order
they are opened; an address that Google moves is the same session.
-/

namespace CraftPanel.Drive

open Framework

/-- `files::File`, as far as the pass reads it. -/
structure File where
  id : String
  trashed : Bool := false
  md5Checksum : Option String := none
  backupId : Option Id := none
  deriving DecidableEq

/-- `upload::Uploaded`, with the size as `bytes` reads it. -/
structure Uploaded where
  id : String
  bytes : Option Nat := none
  md5Checksum : Option String := none
  sha256Checksum : Option String := none
  deriving DecidableEq

structure Sent where
  file : Uploaded
  md5 : String
  sha256 : String
  covered : Nat
  deriving DecidableEq

/-- `upload::Prefix`: what is read back from the disk of an archive that was sent before. -/
structure Prefix where
  proof : String
  md5 : String
  sha256 : String

structure Stored where
  fileId : String
  md5 : Option String
  deriving DecidableEq

/-- `store::Print`: the archive on the disk by its size, time and inode. -/
structure Print where
  bytes : Nat
  mtimeNs : Int := 0
  inode : Nat := 0
  deriving DecidableEq

/-- `SESSION_LIFE`, six days. -/
def sessionLife : Timestamp := 6 * 24 * 60 * 60 * 1000

def isWhitespace (c : Char) : Bool :=
  (9 ≤ c.toNat && c.toNat ≤ 13) || (0x2000 ≤ c.toNat && c.toNat ≤ 0x200A) ||
    [0x20, 0x85, 0xA0, 0x1680, 0x2028, 0x2029, 0x202F, 0x205F, 0x3000].contains c.toNat

def trim (text : String) : List Char :=
  ((text.toList.dropWhile isWhitespace).reverse.dropWhile isWhitespace).reverse

def eqIgnoreAsciiCase (a b : List Char) : Bool := a.map Char.toLower = b.map Char.toLower

inductive Algorithm
  | sha256 | md5
  deriving DecidableEq

def strongest (sha256 md5 : Option String) : Option (Algorithm × String) :=
  match sha256.filter fun named => !(trim named).isEmpty with
  | some sha256 => some (.sha256, sha256)
  | none => (md5.filter fun named => !(trim named).isEmpty).map fun md5 => (.md5, md5)

/-- `DriveError::Unconfirmed`, and `DriveError::Damaged` with which `throw_away` answers. -/
inductive Refusal
  | unconfirmed | damaged
  deriving DecidableEq

/-- `confirm`. Google is asked again, and may not answer, where it named no checksum at first. -/
def confirm (sent : Sent) (size : Nat) (seen : Option Uploaded) : Except Refusal Stored :=
  let named := strongest sent.file.sha256Checksum sent.file.md5Checksum
  let answer := if named.isSome then some (sent.file.bytes, named) else seen.map fun seen =>
    (sent.file.bytes <|> seen.bytes, strongest seen.sha256Checksum seen.md5Checksum)
  match answer with
  | none => .error .unconfirmed
  | some (held, named) =>
    if held.any (· ≠ size) || sent.covered ≠ size then .error .damaged
    else match named with
      | none => .ok ⟨sent.file.id, none⟩
      | some (algorithm, theirs) =>
        let ours := match algorithm with
          | .sha256 => sent.sha256
          | .md5 => sent.md5
        if eqIgnoreAsciiCase (trim theirs) ours.toList then .ok ⟨sent.file.id, some sent.md5⟩
        else .error .damaged

/-- What `upload::standing` learns of a session that is carried on. -/
inductive Standing
  | done (file : Uploaded)
  | more (received : Nat)
  | gone
  | failed

/-- An upload session at Google, with the file it ended in. -/
structure Session where
  backup : Id
  file : Option String := none

inductive Phase
  | starting
  | fresh
  | sending (address : Nat)
  | checking (sent : Sent)
  | throwing (file : String)
  | storing (stored : Stored)
  deriving DecidableEq

/-- A run of `deliver`, from the claim on its backup to `finish_upload`. -/
structure Run where
  backup : Id
  size : Nat
  print : Print
  begunAgain : Bool := false
  phase : Phase := .starting

/-- `upload` has returned, and the claim on the backup is given back. -/
def Run.isClaiming (run : Run) : Bool := match run.phase with
  | .storing _ => false
  | _ => true

inductive Look
  | lists (found : List File)
  | marks (theirs : List File) (ours todo : List BackupRow)
  | removes (todo : List File) (ours : List BackupRow) (folder : Option String)

/-- A run of `take_stock`. -/
structure Pass where
  now : Timestamp
  look : Look

structure System where
  db : Database := {}
  user : Id := 0
  nextBackup : Id := 0
  drive : List File := []
  issued : List String := []
  folder : Option String := none
  sessions : List Session := []
  addresses : Id → Option Nat := fun _ => none
  runs : List Run := []
  passes : List Pass := []

inductive Event
  | createsServer (id owner : Id)
  | createsBackup (server : Id) (location : BackupLocation)
  | forgets (backup : Id)
  | vanishes (file : String)
  | edits (file : String) (trashed : Bool) (md5 : Option String)
  | makesFolder (file : String)
  | begins (backup : Id) (size : Nat) (print : Print)
  | carriesOn (run : Nat) (now : Timestamp) (standing : Standing) (whole : Option Prefix)
  | opens (run : Nat) (now : Timestamp) (kept : Bool)
  | offers (backup : Id) (upto : Nat) (proof : String)
  | finishes (address : Nat) (file : String) (md5 : Option String)
  | hears (run : Nat) (sent : Sent) (intact : Bool)
  | loses (run : Nat)
  | fails (run : Nat) (letsGo : Bool)
  | confirms (run : Nat) (seen : Option Uploaded)
  | throwsAway (run : Nat) (gone : Bool)
  | records (run : Nat)
  | letsGo (backup : Id)
  | panelStops
  | looks (now : Timestamp)
  | lists (pass : Nat) (files : List File)
  | reads (pass : Nat)
  | marks (pass : Nat)
  | removes (pass : Nat) (gone : Bool)
  | givesUp (pass : Nat)

section Statements

variable (db : Database)

/-- The rows of `backups_of`, latest first. -/
def backupsOf (user : Id) : List BackupRow :=
  (db.backups.select fun row => row.location = .drive &&
    (db.servers.find? row.serverId).any (·.ownerId = user)).insertionSort
      fun a b => b.createdAt ≤ a.createdAt

def setFileState (backup : Id) (state : DriveFileState) : Database :=
  db.updateBackup backup (fun row => { row with driveState := some state }) fun _ => rfl

def setContentChanged (backup : Id) (at' : Option Timestamp) : Database :=
  db.updateBackup backup (fun row => { row with driveContentChangedAt := at' }) fun _ => rfl

def finishUpload (backup : Id) (stored : Stored) (size : Nat) : Database :=
  db.updateBackup backup (fun row => { row with
    sizeBytes := size
    driveFileId := some stored.fileId
    driveMd5 := stored.md5
    driveState := some .present
    driveContentChangedAt := none }) fun _ => rfl

def noteOffer (backup : Id) (upto : Nat) (proof : String) : Database :=
  { db with uploads := db.uploads.modify backup (fun row => { row with
    offeredBytes := upto, offeredSha256 := some proof }) fun _ => rfl }

def forgetUpload (backup : Id) : Database := { db with uploads := db.uploads.erase backup }

/-- `open_upload`; on a conflict every column is written anew. -/
def openUpload (row : UploadRow) : Database :=
  { db with uploads := ((forgetUpload db row.backupId).uploads.insert row).getD db.uploads }

end Statements

/-- What `take_stock` writes down about one row it has read, given what Google listed. -/
def mark (db : Database) (theirs : List File) (now : Timestamp) (row : BackupRow) : Database :=
  match row.driveFileId with
  | none => db
  | some fileId =>
    let seen := theirs.find? fun file => file.id = fileId
    let state : DriveFileState := match seen with
      | some file => if file.trashed then .trashed else .present
      | none => .missing
    let db := if row.driveState ≠ some state then setFileState db row.id state else db
    match row.driveMd5, seen.bind File.md5Checksum with
    | some ours, some named =>
      match !eqIgnoreAsciiCase (trim named) (trim ours), row.driveContentChangedAt with
      | true, none => setContentChanged db row.id (some now)
      | false, some _ => setContentChanged db row.id none
      | _, _ => db
    | _, _ => db

def isOrphan (ours : List BackupRow) (file : File) : Bool :=
  file.backupId.isSome && !ours.any fun row => row.driveFileId = some file.id

def Pass.deletes (pass : Pass) : Option File := match pass.look with
  | .removes (file :: _) ours folder =>
    if folder = some file.id then none else if isOrphan ours file then some file else none
  | _ => none

inductive Carried
  | fresh
  | carriesAt (address : Nat)
  | finished (sent : Sent)

def Carried.phase : Carried → Phase
  | fresh => .fresh
  | carriesAt address => .sending address
  | finished sent => .checking sent

def UploadRow.print (row : UploadRow) : Print :=
  ⟨row.totalBytes, row.archiveMtimeNs, row.archiveInode⟩

/-- `proven`: the disk still holds what was offered, as far as it can be read back. -/
def proven (row : UploadRow) (keep : Nat) (whole : Option Prefix) : Option Prefix :=
  match row.offeredSha256 with
  | some offered => whole.filter fun whole =>
    keep ≤ row.offeredBytes && eqIgnoreAsciiCase whole.proof.toList offered.toList
  | none => none

namespace System

variable (s : System)

def fileOf (address : Nat) : Option String := (s.sessions[address]?).bind Session.file

/-- The session an upload of the backup would carry on: both its row and its address are there. -/
def remembered (backup : Id) : Option Nat :=
  (s.db.uploads.find? backup).bind fun _ => s.addresses backup

def letGo (backup : Id) : System :=
  { s with
    db := forgetUpload s.db backup
    addresses := Function.update s.addresses backup none }

def setRun (i : Nat) (run : Run) : System := { s with runs := s.runs.set i run }

def dropRun (i : Nat) : System := { s with runs := s.runs.eraseIdx i }

def setLook (i : Nat) (pass : Pass) (look : Look) : System :=
  { s with passes := s.passes.set i { pass with look } }

def delete (file : String) : System := { s with drive := s.drive.filter (·.id ≠ file) }

def isOurs (row : BackupRow) : Bool :=
  row.location = .drive && (s.db.servers.find? row.serverId).any (·.ownerId = s.user)

def createsBackup (server : Id) (location : BackupLocation) : Option System :=
  let row : BackupRow := { id := s.nextBackup, serverId := server, location }
  match s.db.servers.find? server, s.db.backups.insert row with
  | some _, some backups =>
    some { s with db := { s.db with backups }, nextBackup := s.nextBackup + 1 }
  | _, _ => none

def begins (backup : Id) (size : Nat) (print : Print) : Option System :=
  match s.db.backups.find? backup with
  | some row =>
    if s.isOurs row && !s.runs.any fun run => run.backup = backup && run.isClaiming then
      some { s with runs := s.runs ++ [{ backup, size, print }] }
    else none
  | none => none

/-- `carry_on`, where the session stands as Google has it; whether the session is let go of. -/
def carryOn (run : Run) (now : Timestamp) (standing : Standing) (whole : Option Prefix) :
    Option (Carried × Bool) :=
  match s.db.uploads.find? run.backup with
  | none => some (.fresh, false)
  | some row =>
    if row.userId ≠ s.user || row.totalBytes ≠ run.size || UploadRow.print row ≠ run.print then
      some (.fresh, true)
    else if row.openedAt + sessionLife ≤ now then some (.fresh, true)
    else match s.addresses run.backup with
      | none => some (.fresh, true)
      | some address => match standing with
        | .done file =>
          if s.fileOf address = some file.id then
            some ((proven row run.size whole).elim .fresh fun whole =>
              .finished ⟨file, whole.md5, whole.sha256, run.size⟩, true)
          else none
        | .more received =>
          if s.fileOf address = none then
            some (if received = 0 || (proven row received whole).isSome then
              (.carriesAt address, false) else (.fresh, true))
          else none
        | .gone => some (.fresh, true)
        | .failed => none

def carriesOn (i : Nat) (now : Timestamp) (standing : Standing) (whole : Option Prefix) :
    Option System :=
  match s.runs[i]? with
  | some run =>
    if run.phase = .starting then
      (s.carryOn run now standing whole).map fun (carried, letsGo) =>
        (if letsGo then s.letGo run.backup else s).setRun i { run with phase := carried.phase }
    else none
  | none => none

/-- `open_session`; where the address cannot be kept, nothing is remembered. -/
def opens (i : Nat) (now : Timestamp) (kept : Bool) : Option System :=
  match s.runs[i]? with
  | some run =>
    if run.phase = .fresh && s.folder.isSome then
      let address := s.sessions.length
      let opened : System := { s with sessions := s.sessions ++ [{ backup := run.backup }] }
      let row : UploadRow :=
        { backupId := run.backup, userId := s.user, totalBytes := run.print.bytes
          archiveMtimeNs := run.print.mtimeNs, archiveInode := run.print.inode, openedAt := now }
      let told := if kept then { opened with
        db := openUpload s.db row
        addresses := Function.update s.addresses run.backup (some address) } else opened
      some (told.setRun i { run with phase := .sending address })
    else none
  | none => none

def finishes (address : Nat) (file : String) (md5 : Option String) : Option System :=
  match s.sessions[address]? with
  | some session =>
    if session.file.isNone && !s.issued.contains file then
      some { s with
        sessions := s.sessions.set address { session with file := some file }
        drive := s.drive ++ [{ id := file, md5Checksum := md5, backupId := some session.backup }]
        issued := file :: s.issued }
    else none
  | none => none

/-- The answer to the last chunk, while the archive on the disk is intact or written over. -/
def hears (i : Nat) (sent : Sent) (intact : Bool) : Option System :=
  match s.runs[i]? with
  | some run => match run.phase with
    | .sending address =>
      if s.fileOf address = some sent.file.id then
        some ((s.letGo run.backup).setRun i
          { run with phase := if intact then .checking sent else .throwing sent.file.id })
      else none
    | _ => none
  | none => none

/-- `SessionOver`, the first time. -/
def loses (i : Nat) : Option System :=
  match s.runs[i]? with
  | some run => match run.phase, run.begunAgain with
    | .sending _, false =>
      some ((s.letGo run.backup).setRun i { run with phase := .fresh, begunAgain := true })
    | _, _ => none
  | none => none

def fails (i : Nat) (letsGo : Bool) : Option System :=
  match s.runs[i]? with
  | some run => match run.phase with
    | .starting | .fresh | .sending _ =>
      some ((if letsGo then s.letGo run.backup else s).dropRun i)
    | _ => none
  | none => none

def confirms (i : Nat) (seen : Option Uploaded) : Option System :=
  match s.runs[i]? with
  | some run => match run.phase with
    | .checking sent => match confirm sent run.size seen with
      | .ok stored => some (s.setRun i { run with phase := .storing stored })
      | .error .damaged => some (s.setRun i { run with phase := .throwing sent.file.id })
      | .error .unconfirmed => some (s.dropRun i)
    | _ => none
  | none => none

def throwsAway (i : Nat) (gone : Bool) : Option System :=
  match s.runs[i]? with
  | some run => match run.phase with
    | .throwing file => some ((if gone then s.delete file else s).dropRun i)
    | _ => none
  | none => none

def records (i : Nat) : Option System :=
  match s.runs[i]? with
  | some run => match run.phase with
    | .storing stored =>
      let recorded : System := { s with db := finishUpload s.db run.backup stored run.size }
      some (recorded.dropRun i)
    | _ => none
  | none => none

/-- Pages of a listing arrive one by one; each holds files that are there when it is made. -/
def lists (i : Nat) (files : List File) : Option System :=
  match s.passes[i]? with
  | some pass => match pass.look with
    | .lists found =>
      if files.all fun file => s.drive.contains file then
        some (s.setLook i pass (.lists (found ++ files)))
      else none
    | _ => none
  | none => none

def reads (i : Nat) : Option System :=
  match s.passes[i]? with
  | some pass => match pass.look with
    | .lists theirs =>
      let ours := backupsOf s.db s.user
      some (s.setLook i pass (.marks theirs ours ours))
    | _ => none
  | none => none

def marks (i : Nat) : Option System :=
  match s.passes[i]? with
  | some pass => match pass.look with
    | .marks theirs ours (row :: todo) =>
      let marked : System := { s with db := mark s.db theirs pass.now row }
      some (marked.setLook i pass (.marks theirs ours todo))
    | .marks theirs ours [] => some (s.setLook i pass (.removes theirs ours s.folder))
    | _ => none
  | none => none

/-- The next file is passed over or deleted; a deletion that fails is passed over. -/
def removes (i : Nat) (gone : Bool) : Option System :=
  match s.passes[i]? with
  | some pass => match pass.look with
    | .removes (_ :: todo) ours folder =>
      let s := match pass.deletes with
        | some file => if gone then s.delete file.id else s
        | none => s
      some (s.setLook i pass (.removes todo ours folder))
    | _ => none
  | none => none

def step : Event → Option System
  | .createsServer id owner =>
    let row : ServerRow := { id, ownerId := owner }
    (s.db.servers.insert row).map fun servers => { s with db := { s.db with servers } }
  | .createsBackup server location => s.createsBackup server location
  | .forgets backup => some { s with db := { s.db with backups := s.db.backups.erase backup } }
  | .vanishes file => some (s.delete file)
  | .edits file trashed md5 => some { s with drive := s.drive.map fun other =>
      if other.id = file then { other with trashed, md5Checksum := md5 } else other }
  | .makesFolder file =>
    if s.folder.isNone && !s.issued.contains file then
      some { s with
        drive := s.drive ++ [{ id := file }]
        issued := file :: s.issued
        folder := some file }
    else none
  | .begins backup size print => s.begins backup size print
  | .carriesOn i now standing whole => s.carriesOn i now standing whole
  | .opens i now kept => s.opens i now kept
  | .offers backup upto proof => some { s with db := noteOffer s.db backup upto proof }
  | .finishes address file md5 => s.finishes address file md5
  | .hears i sent intact => s.hears i sent intact
  | .loses i => s.loses i
  | .fails i letsGo => s.fails i letsGo
  | .confirms i seen => s.confirms i seen
  | .throwsAway i gone => s.throwsAway i gone
  | .records i => s.records i
  | .letsGo backup => some (s.letGo backup)
  | .panelStops => some { s with runs := [], passes := [] }
  | .looks now => some { s with passes := s.passes ++ [⟨now, .lists []⟩] }
  | .lists i files => s.lists i files
  | .reads i => s.reads i
  | .marks i => s.marks i
  | .removes i gone => s.removes i gone
  | .givesUp i => some { s with passes := s.passes.eraseIdx i }

end System

def machine : Machine System Event := ⟨System.step⟩

end CraftPanel.Drive
