import CraftPanel.Drive.Http

/-!
# Fetching an archive back

`fetch` of `drive/mod.rs` with `files::download`, attempt after attempt into one part file. What
came down is hashed on its way to the disk, the half that is kept from an earlier attempt is read
back and hashed first, and so the digests at the end are those of the file that is there.
-/

namespace CraftPanel.Drive.Fetching

open Framework

/-- `files::File`, with the fields that `files::get` asks for. -/
structure File where
  id : String
  trashed : Bool := false
  size : Option String := none
  md5Checksum : Option String := none
  sha256Checksum : Option String := none
  isAppAuthorized : Option Bool := none
  deriving DecidableEq

/-- What was written down of the archive when it went up. -/
structure Recorded where
  bytes : Option Nat := none
  md5 : Option String := none
  deriving DecidableEq

structure Fetched where
  md5 : String
  sha256 : String

/-- The two digests while they are computed: the bytes that they have taken in. -/
structure Both where
  taken : Bytes

namespace Both

def new : Both := ⟨[]⟩

def update (both : Both) (bytes : Bytes) : Both := ⟨both.taken ++ bytes⟩

def finish (crates : Crates) (both : Both) : Fetched :=
  ⟨crates.md5 both.taken, crates.sha256 both.taken⟩

end Both

/-- The part file, and beside it the stamp of the file that it is the first half of. -/
structure Disk where
  part : Option Bytes := none
  mark : Option String := none

/-- What the stream of a download brings next. -/
inductive Arrival
  | piece (bytes : Bytes)
  /-- The run has been called off when the next piece is there. -/
  | calledOff
  | breaksOff (err : DriveError)
  /-- The disk takes only the first `landed` bytes of a piece. -/
  | unwritten (bytes : Bytes) (landed : Nat) (err : String)
  deriving DecidableEq

/-- One call of `fetch`, with all that Google and the disk answer to it. -/
structure Attempt where
  fileId : String
  recorded : Recorded := {}
  now : Timestamp := 0
  access : Option DriveError := none
  known : Except DriveError File
  /-- What is left of the mark where it cannot be written. -/
  unmarked : Option (Option String) := none
  unlinks : Bool := true
  response : Except DriveError Nat := .ok 200
  /-- What is made of an answer outside of 200..300. -/
  refusal : DriveError := .gone
  unopened : Option String := none
  stream : List Arrival := []
  unsynced : Option String := none
  deriving DecidableEq

structure System where
  disk : Disk := {}
  db : Database := {}
  /-- The last attempt, and what `fetch` returned. -/
  last : Option (Attempt × Except DriveError Nat) := none

def File.bytes (file : File) : Option Nat := number file.size

def Fetched.holds (fetched : Fetched) (file : File) : Option Bool :=
  match file.md5Checksum with
  | some theirs => some (agrees theirs fetched.md5)
  | none => file.sha256Checksum.map fun theirs => agrees theirs fetched.sha256

def writeFailed (err : String) : DriveError :=
  .unreachable s!"the archive could not be written to disk: {err}"

def notOurs (fileId ours cameDown : String) (googleAgreed : Bool) : String :=
  let head := s!"the file {fileId} in this Google Drive is not the archive the panel put there: " ++
    s!"it went up as {ours} (md5) and what lies there now is {cameDown}"
  if googleAgreed then
    head ++ ". Google names that same checksum for it, so the transfer was sound and the file " ++
      "itself was written over in the Drive"
  else
    head ++ ". Google named no checksum for it this time, so a broken transfer would look the " ++
      "same from here; a second attempt tells the two apart"

def stampOf (crates : Crates) (file : File) : Option String :=
  (file.md5Checksum <|> file.sha256Checksum).map fun checksum =>
    let bytes := file.bytes.getD 0
    let checksum := String.ofList (crates.toLowercase (trim checksum))
    s!"{file.id} {bytes} {checksum}"

def wholeOf (fileId : String) (known : File) (recorded : Recorded) :
    Except DriveError (Option Nat) :=
  match known.bytes, recorded.bytes with
  | some theirs, some ours =>
    if theirs ≠ ours then
      .error (.unreadable (s!"Google holds {theirs} bytes under {fileId}, and the archive that " ++
        s!"went up from here was {ours} bytes long"))
    else .ok (some theirs)
  | theirs, ours => .ok (theirs <|> ours)

namespace Disk

variable (disk : Disk)

/-- `metadata(part)`, with no file read as an empty one. -/
def here : Nat := disk.part.elim 0 List.length

def dropHalf (unlinks : Bool) : Disk := if unlinks then {} else disk

def dropMark (unlinks : Bool) : Disk := if unlinks then { disk with mark := none } else disk

def resumeAt (unlinks : Bool) (stamp : String) (whole : Option Nat) : Disk × Nat :=
  let usable := 0 < disk.here && whole.all (disk.here < ·) &&
    disk.mark.any (trim · = stamp.toList)
  if usable then (disk, disk.here) else (disk.dropHalf unlinks, 0)

end Disk

def setLen (bytes : Bytes) (length : Nat) : Bytes :=
  bytes.take length ++ List.replicate (length - bytes.length) 0

/-- The loop of `download` over the stream: what it returns, and what is in the file. -/
def receive (file : Bytes) (digests : Both) : List Arrival → Except DriveError Both × Bytes
  | [] => (.ok digests, file)
  | .piece bytes :: rest => receive (file ++ bytes) (digests.update bytes) rest
  | .calledOff :: _ => (.error .cancelled, file)
  | .breaksOff err :: _ => (.error err, file)
  | .unwritten bytes landed err :: _ => (.error (writeFailed err), file ++ bytes.take landed)

namespace Attempt

variable (crates : Crates) (attempt : Attempt)

/-- The part file as `download` opens it, with the digests of what is kept in it; `start` is where
it was asked to carry on. -/
def opens (disk : Disk) (start status : Nat) : Except DriveError (Bytes × Both) :=
  match attempt.unopened with
  | some err => .error (writeFailed err)
  | none =>
    if 0 < start ∧ status = 206 then
      match disk.part with
      | some bytes => .ok (setLen bytes start, Both.new.update (setLen bytes start))
      | none => .error (writeFailed "No such file or directory (os error 2)")
    else .ok ([], Both.new)

def download (disk : Disk) (start : Nat) : Except DriveError Fetched × Disk :=
  match attempt.response with
  | .error err => (.error err, disk)
  | .ok status =>
    if ¬(200 ≤ status ∧ status < 300) then (.error attempt.refusal, disk)
    else match attempt.opens disk start status with
      | .error err => (.error err, disk)
      | .ok (file, digests) =>
        match receive file digests attempt.stream, attempt.unsynced with
        | (.error err, file), _ => (.error err, { disk with part := some file })
        | (.ok _, file), some err => (.error (writeFailed err), { disk with part := some file })
        | (.ok digests, file), none =>
          (.ok (digests.finish crates), { disk with part := some file })

/-- Where the download starts, once what cannot be carried on is gone and the mark is written. -/
def prepares (known : File) (whole : Option Nat) (disk : Disk) : Disk × Nat :=
  match stampOf crates known with
  | some stamp =>
    let (disk, start) := disk.resumeAt attempt.unlinks stamp whole
    ({ disk with mark := attempt.unmarked.getD (some stamp) }, start)
  | none => (disk.dropHalf attempt.unlinks, 0)

end Attempt

def noteContentChanged (db : Database) (fileId : String) (now : Timestamp) : Database :=
  { db with backups := db.backups.map (fun row =>
      if row.driveFileId = some fileId ∧ row.driveContentChangedAt = none then
        { row with driveContentChangedAt := some now } else row) (by intro row; split <;> rfl) }

namespace System

variable (crates : Crates) (s : System) (attempt : Attempt)

/-- What `fetch` makes of the bytes that came down. -/
def judges (known : File) (whole : Option Nat) (fetched : Fetched) (disk : Disk) :
    Except DriveError Nat × Disk × Database :=
  let here := disk.here
  let dropped := disk.dropHalf attempt.unlinks
  if whole.any (here < ·) then
    let whole := whole.getD here
    (.error (.unreachable s!"Google broke off after {here} of {whole} bytes"), disk, s.db)
  else if whole.any (· < here) then
    let whole := whole.getD here
    (.error (.unreadable s!"Google sent {here} bytes of an archive it calls {whole} bytes long"),
      dropped, s.db)
  else
    let vouched := fetched.holds known
    if vouched = some false then
      (.error (.unreadable "the archive that came down from Google is not the one it says it is"),
        dropped, s.db)
    else match attempt.recorded.md5 with
      | some ours =>
        if agrees ours fetched.md5 then
          (.ok (whole.getD here), disk.dropMark attempt.unlinks, s.db)
        else
          let text := notOurs attempt.fileId (String.ofList (trim ours)) fetched.md5 vouched.isSome
          let db := if vouched.isSome then noteContentChanged s.db attempt.fileId attempt.now
            else s.db
          (.error (.replaced text), dropped, db)
      | none => (.ok (whole.getD here), disk.dropMark attempt.unlinks, s.db)

def fetch : Except DriveError Nat × Disk × Database :=
  match attempt.access, attempt.known with
  | some err, _ => (.error err, s.disk, s.db)
  | none, .error err => (.error err, s.disk, s.db)
  | none, .ok known =>
    if known.trashed then (.error .gone, s.disk, s.db)
    else match wholeOf attempt.fileId known attempt.recorded with
      | .error err => (.error err, s.disk, s.db)
      | .ok whole =>
        let (disk, start) := attempt.prepares crates known whole s.disk
        match attempt.download crates disk start with
        | (.ok fetched, disk) => s.judges attempt known whole fetched disk
        | (.error .cancelled, disk) =>
          (.error .cancelled, disk.dropHalf attempt.unlinks, s.db)
        | (.error err, disk) => (.error err, disk, s.db)

def attempts : System :=
  let (result, disk, db) := s.fetch crates attempt
  ⟨disk, db, some (attempt, result)⟩

end System

def machine (crates : Crates) : Machine System Attempt :=
  ⟨fun s attempt => some (s.attempts crates attempt)⟩

/-- The bytes are those of the file that Google was asked for, as far as it or the record can
tell. -/
structure Arrived (crates : Crates) (known : File) (recorded : Recorded) (bytes : Bytes) :
    Prop where
  theirLength : ∀ length, known.bytes = some length → bytes.length = length
  ourLength : ∀ length, recorded.bytes = some length → bytes.length = length
  theirMd5 : ∀ named, known.md5Checksum = some named → agrees named (crates.md5 bytes)
  theirSha256 : ∀ named, known.md5Checksum = none → known.sha256Checksum = some named →
    agrees named (crates.sha256 bytes)
  ourMd5 : ∀ written, recorded.md5 = some written → agrees written (crates.md5 bytes)

/-- Where the last attempt returned `Ok`, the file that it asked for is the part file. -/
def System.Holds (crates : Crates) (s : System) : Prop :=
  ∀ attempt n, s.last = some (attempt, .ok n) →
    ∃ known bytes, attempt.known = .ok known ∧ s.disk.part = some bytes ∧ n = bytes.length ∧
      Arrived crates known attempt.recorded bytes

@[simp] theorem Disk.dropMark_part (disk : Disk) (unlinks : Bool) :
    (disk.dropMark unlinks).part = disk.part := by
  cases unlinks <;> rfl

theorem receive_ok {file after : Bytes} {digests heard : Both} {stream : List Arrival}
    (hsame : digests.taken = file) (h : receive file digests stream = (.ok heard, after)) :
    heard.taken = after := by
  induction stream generalizing file digests with
  | nil =>
    obtain ⟨hheard, hafter⟩ : digests = heard ∧ file = after := by simpa [receive] using h
    rw [← hheard, ← hafter, hsame]
  | cons arrival rest ih =>
    cases arrival with
    | piece bytes =>
      have hboth : (digests.update bytes).taken = file ++ bytes := by simp [Both.update, hsame]
      exact ih hboth h
    | calledOff => simp [receive] at h
    | breaksOff err => simp [receive] at h
    | unwritten bytes landed err => simp [receive] at h

namespace Attempt

variable {crates : Crates} {attempt : Attempt}

theorem opens_ok {disk : Disk} {start status : Nat} {file : Bytes} {digests : Both}
    (h : attempt.opens disk start status = .ok (file, digests)) : digests.taken = file := by
  unfold opens at h
  split at h
  · cases h
  split at h
  · split at h
    · cases h
      simp [Both.update, Both.new]
    · cases h
  · cases h
    rfl

theorem download_ok {disk after : Disk} {start : Nat} {fetched : Fetched}
    (h : attempt.download crates disk start = (.ok fetched, after)) :
    ∃ bytes, after.part = some bytes ∧
      fetched = ⟨crates.md5 bytes, crates.sha256 bytes⟩ := by
  unfold download at h
  split at h
  · cases h
  split at h
  · cases h
  split at h
  · cases h
  next file digests hopens =>
    split at h
    · cases h
    · cases h
    next digests' file' hreceive _ =>
      have hsame := receive_ok (opens_ok hopens) hreceive
      cases h
      exact ⟨file', rfl, by rw [Both.finish, hsame]⟩

end Attempt

theorem wholeOf_ok {fileId : String} {known : File} {recorded : Recorded} {whole : Option Nat}
    (h : wholeOf fileId known recorded = .ok whole) :
    (∀ length, known.bytes = some length → whole = some length) ∧
      ∀ length, recorded.bytes = some length → whole = some length := by
  unfold wholeOf at h
  cases htheirs : known.bytes with
  | none => cases hours : recorded.bytes <;> simp_all
  | some theirs =>
    cases hours : recorded.bytes with
    | none => simp_all
    | some ours =>
      by_cases hsame : theirs = ours
      · simp_all
      · simp [htheirs, hours, hsame] at h

namespace System

variable {crates : Crates} {s : System} {attempt : Attempt}

theorem judges_ok {known : File} {whole : Option Nat} {fetched : Fetched} {disk after : Disk}
    {db : Database} {n : Nat}
    (h : s.judges attempt known whole fetched disk = (.ok n, after, db)) :
    (∀ length, whole = some length → disk.here = length) ∧ n = disk.here ∧
      fetched.holds known ≠ some false ∧
      (∀ ours, attempt.recorded.md5 = some ours → agrees ours fetched.md5) ∧
      after.part = disk.part := by
  unfold judges at h
  dsimp only at h
  split at h
  · cases h
  next hshort =>
  split at h
  · cases h
  next hlong =>
  have hlength : ∀ length, whole = some length → disk.here = length := by
    intro length hwhole
    simp only [hwhole, Option.any_some, decide_eq_true_eq] at hshort hlong
    omega
  have hgetD : whole.getD disk.here = disk.here := by
    cases hwhole : whole with
    | none => rfl
    | some length => exact (hlength length hwhole).symm
  split at h
  · cases h
  next hholds =>
  split at h
  · next ours hours =>
    split at h
    · next hagrees =>
      cases h
      refine ⟨hlength, hgetD, hholds, ?_, disk.dropMark_part _⟩
      intro ours' hours'
      obtain rfl : ours = ours' := Option.some.inj (hours.symm.trans hours')
      exact hagrees
    · cases h
  · next hnone =>
    cases h
    exact ⟨hlength, hgetD, hholds, by simp [hnone], disk.dropMark_part _⟩

theorem fetch_ok {after : Disk} {db : Database} {n : Nat}
    (h : s.fetch crates attempt = (.ok n, after, db)) :
    ∃ known bytes, attempt.known = .ok known ∧ after.part = some bytes ∧ n = bytes.length ∧
      Arrived crates known attempt.recorded bytes := by
  unfold fetch at h
  split at h
  · cases h
  · cases h
  next known _ hknown =>
  split at h
  · cases h
  split at h
  · cases h
  next whole hwhole =>
  dsimp only at h
  split at h
  · next fetched disk hdownload =>
    obtain ⟨bytes, hpart, hfetched⟩ := Attempt.download_ok hdownload
    obtain ⟨hlength, hn, hholds, hours, hafter⟩ := judges_ok h
    have hhere : disk.here = bytes.length := by simp [Disk.here, hpart]
    obtain ⟨htheirLength, hourLength⟩ := wholeOf_ok hwhole
    refine ⟨known, bytes, hknown, hafter.trans hpart, hn.trans hhere, ?_⟩
    constructor
    · intro length hbytes
      exact hhere.symm.trans (hlength length (htheirLength length hbytes))
    · intro length hbytes
      exact hhere.symm.trans (hlength length (hourLength length hbytes))
    · intro named hnamed
      simpa [Fetched.holds, hnamed, hfetched] using hholds
    · intro named hnone hnamed
      simpa [Fetched.holds, hnone, hnamed, hfetched] using hholds
    · intro written hwritten
      simpa [hfetched] using hours written hwritten
  · cases h
  · cases h

end System

theorem System.attempts_holds (crates : Crates) (s : System) (attempt : Attempt) :
    (s.attempts crates attempt).Holds crates := by
  intro tried n hlast
  obtain ⟨rfl, hresult⟩ : attempt = tried ∧ (s.fetch crates attempt).1 = .ok n := by
    simpa [System.attempts] using hlast
  exact System.fetch_ok (Prod.ext hresult rfl)

/-- An archive that `fetch` hands on is the right one, after any attempts and from any disk. -/
theorem fetched_archives_arrived (crates : Crates) (disk : Disk) (db : Database) (t : System)
    (run : List Attempt) (hrun : (machine crates).exec { disk, db } run = some t) :
    t.Holds crates := by
  refine (machine crates).always ?_ ?_ hrun
  · intro s attempt u _ hstep
    cases hstep
    exact s.attempts_holds crates attempt
  · intro attempt n hnone
    cases hnone

/-- Two of five bytes come down before the line breaks, and the other three behind a 206. -/
theorem fetched_archives_arrived_carried_on :
    let md5 := "7cfdd07889b3295d6a550914ab35e068"
    let sha256 := "74f81fe167d99b4cb41d6d0ccda82278caee9f3e2f25d5e5a3936ff3dcec60d0"
    let crates : Crates := ⟨fun _ => md5, fun _ => sha256, List.map Char.toLower⟩
    let known : File := { id := "1a2B-_c.d", size := some "5", md5Checksum := some md5 }
    let recorded : Recorded := ⟨some 5, some md5⟩
    let first : Attempt := { fileId := known.id, recorded, known := .ok known, stream :=
      [.piece [1, 2], .breaksOff (.unreachable "it did not answer in time")] }
    let second : Attempt := { first with response := .ok 206, stream := [.piece [3, 4, 5]] }
    ∃ t, (machine crates).exec {} [first, second] = some t ∧ t.disk.part = some [1, 2, 3, 4, 5] ∧
      Arrived crates known recorded [1, 2, 3, 4, 5] := by
  intro md5 sha256 crates known recorded first second
  have hend : (machine crates).Ends {} [first, second] fun t =>
      t.disk.part = some [1, 2, 3, 4, 5] ∧ t.last = some (second, .ok 5) := by
    decide +kernel
  obtain ⟨t, hrun, hpart, hlast⟩ := hend
  obtain ⟨known', bytes, hknown, hbytes, -, harrived⟩ :=
    fetched_archives_arrived crates {} {} t [first, second] hrun second 5 hlast
  obtain rfl : known = known' := Except.ok.inj hknown
  obtain rfl : [1, 2, 3, 4, 5] = bytes := Option.some.inj (hpart.symm.trans hbytes)
  exact ⟨t, hrun, hpart, harrived⟩

end CraftPanel.Drive.Fetching
