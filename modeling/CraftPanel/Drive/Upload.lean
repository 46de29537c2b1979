import CraftPanel.Framework.Pieces
import CraftPanel.Drive.Http

/-!
# Sending an archive up

`upload` of `drive/mod.rs` with `carry_on`, and `upload::send` under it, for one backup. A run is
cut into the statements that it writes and the calls that it makes, and may stop between any two of
them. What the archive's file gives a read is up to the environment, as the file may be written
over at any time; so is what Google answers, and how much it holds of what was put into a session.
-/

namespace CraftPanel.Drive.Upload

open Framework

/-- An archive as it lies on the disk. -/
structure Archive where
  bytes : Bytes
  mtimeNs : Int := 0
  inode : Nat := 0
  deriving DecidableEq

/-- `store::print_of`. -/
def Archive.print (archive : Archive) : Print :=
  ⟨archive.bytes.length, archive.mtimeNs, archive.inode⟩

/-- `upload::Digests`: the bytes that both of them have taken in. -/
structure Digests where
  taken : Bytes := []
  deriving DecidableEq

def Digests.take (digests : Digests) (bytes : Bytes) : Digests := ⟨digests.taken ++ bytes⟩

/-- `Sent::of`. -/
def sentOf (crates : Crates) (file : Uploaded) (ours : Digests) (covered : Nat) : Sent :=
  ⟨file, crates.md5 ours.taken, crates.sha256 ours.taken, covered⟩

/-- `upload::Prefix`. -/
structure Prefix where
  carried : Digests
  proof : String

/-- `upload::Chunk`; an address that Google moves a session to is a new name of the same one. -/
inductive Chunk
  | done (file : Uploaded)
  | more (received : Nat) (moved : Bool)

/-- A session at Google: every chunk that was put into it, where it was put, and what is held. -/
structure Session where
  puts : Pieces UInt8 := []
  held : Bytes := []

inductive Carried
  | finished (session : Nat) (file : Uploaded) (whole : Digests)
  | stands (session start : Nat) (carried : Digests)
  | fresh
  deriving DecidableEq

/-- The writes of a run to the key store and to `drive_uploads`; those that name a session name
the run's own. -/
inductive Statement
  | forgetSession
  | forgetUpload
  /-- `remember`, which opens the upload once the address is on the disk. -/
  | remembers (row : UploadRow)
  | opensUpload (row : UploadRow)
  /-- `moved_to`. -/
  | movesTo
  deriving DecidableEq

def letGo : List Statement := [.forgetSession, .forgetUpload]

/-- The variables of `send`'s loop. -/
structure Sending where
  offset : Nat := 0
  ours : Digests := {}
  fruitless : Nat := 0
  renewals : Nat := 0
  moved : Bool := false
  deriving DecidableEq

inductive Phase
  | starting
  | fresh
  | sending (loop : Sending)
  /-- A chunk has been read, and is not written down yet. -/
  | offering (loop : Sending) (chunk : Bytes)
  | putting (loop : Sending) (chunk : Bytes)
  | waiting (loop : Sending) (chunk : Bytes)
  | looking (sent : Sent)
  | checking (sent : Sent)
  | stored (sent : Sent) (seen : Option Uploaded) (stored : Stored)
  | failed (err : DriveError)
  | thrownAway (refusal : Refusal)
  deriving DecidableEq

/-- One call of `upload`, with every piece of the archive that it has read. -/
structure Run where
  user : Id
  size : Nat
  print : Print
  session : Option Nat := none
  begunAgain : Bool := false
  todo : List Statement := []
  reads : Pieces UInt8 := []
  phase : Phase := .starting

structure System where
  backup : Id := 0
  disk : Option Archive := none
  row : Option UploadRow := none
  /-- The bytes that the mark in the row was computed from. -/
  vouched : Bytes := []
  addresses : Id → Option Nat := fun _ => none
  sessions : List Session := []
  run : Option Run := none
  /-- What `carry_on` returned, where it was the last to act. -/
  answered : Option Carried := none

inductive Event
  | rewrites (archive : Option Archive)
  | takes (session put count : Nat)
  | drops (session count : Nat)
  | forgetsUpload
  | forgetsSession (user : Id)
  | begins (user : Id) (size : Nat)
  | carriesOn (found : Bool) (now : Timestamp) (answer : Except DriveError Chunk)
  | writes (ok : Bool)
  | opens (now : Timestamp)
  | reads (chunk : Bytes)
  | notes (ok : Bool)
  | puts
  | hears (answer : Except DriveError Chunk)
  | asks (answer : Except DriveError Chunk)
  | fails (err : DriveError)
  | looks
  | confirms (seen : Option Uploaded)
  | stops

/-- `CHUNK`, eight mebibytes. -/
def chunkSize : Nat := 8 * 1024 * 1024

def attempts : Nat := 5

def renewalsAllowed : Nat := 1

/-- `prefix_of`: one pass over the front of the file, with both digests caught on the way. -/
def prefixOf (crates : Crates) (archive : Archive) (keep upto : Nat) : Option Prefix :=
  if max keep upto ≤ archive.bytes.length then
    some ⟨⟨archive.bytes.take keep⟩, crates.sha256 (archive.bytes.take upto)⟩
  else none

/-- What `send` turns away before its loop. -/
def turnedAway (size offset : Nat) : Option DriveError :=
  if size = 0 then some (.unreadable "the archive is empty")
  else if size < offset then
    some (.unreadable s!"Google holds {offset} bytes of an archive that is only {size} long")
  else none

def refusedAgain (why : String) : DriveError :=
  .refused 401 "unauthorized"
    (s!"Google turned a chunk away as unauthorised even with a token minted a moment earlier. " ++
      s!"The connection itself still stands, so this is not something reconnecting fixes. " ++
      s!"Google said: {why}")

/-- What an answer to a chunk does to the loop. -/
inductive Turn
  | goesOn
  | ends (sent : Sent)
  | fails (err : DriveError)

namespace Sending

variable (loop : Sending)

def hears (crates : Crates) (chunk : Bytes) : Except DriveError Chunk → Sending × Turn
  | .error (.revoked why) =>
    if renewalsAllowed ≤ loop.renewals then (loop, .fails (refusedAgain why))
    else ({ loop with renewals := loop.renewals + 1 }, .goesOn)
  | .error err => (loop, .fails err)
  | .ok (.done file) =>
    (loop, .ends (sentOf crates file (loop.ours.take chunk) (loop.offset + chunk.length)))
  | .ok (.more received moved) =>
    let loop := { loop with moved := loop.moved || moved }
    let offset := loop.offset
    let sent := offset + chunk.length
    if sent < received then
      (loop, .fails (.unreadable (s!"Google claims {received} bytes of the archive when only " ++
        s!"{sent} have ever been sent")))
    else if received ≤ offset then
      let fruitless := loop.fruitless + 1
      let loop := { loop with fruitless }
      if attempts ≤ fruitless then
        (loop, .fails (.unreadable (s!"Google acknowledged nothing of the archive after " ++
          s!"{fruitless} tries at offset {offset}")))
      else (loop, .goesOn)
    else
      ({ loop with
        fruitless := 0
        renewals := 0
        ours := loop.ours.take (chunk.take (received - offset))
        offset := received }, .goesOn)

/-- `status_of` after the last byte. -/
def asks (crates : Crates) (size : Nat) : Except DriveError Chunk → Turn
  | .error err => .fails err
  | .ok (.done file) => .ends (sentOf crates file loop.ours size)
  | .ok (.more _ _) =>
    .fails (.unreadable "Google took every byte of the archive and did not confirm the file")

end Sending

namespace Run

variable (run : Run)

/-- How `upload` takes an error of `send`. -/
def breaks (moved : Bool) (err : DriveError) : Run :=
  if err = .sessionOver ∧ !run.begunAgain then
    { run with begunAgain := true, todo := letGo, phase := .fresh }
  else if err = .sessionOver ∨ err = .cancelled then
    { run with todo := letGo, phase := .failed err }
  else if moved then { run with todo := [.movesTo], phase := .failed err }
  else { run with phase := .failed err }

def turns (loop : Sending) : Turn → Run
  | .goesOn => { run with phase := .sending loop }
  | .ends sent => { run with todo := letGo, phase := .looking sent }
  | .fails err => run.breaks loop.moved err

end Run

namespace System

variable (crates : Crates) (s : System)

def putsOf (session : Nat) : Pieces UInt8 := (s.sessions[session]?).elim [] Session.puts

def heldUnder (session : Nat) : Bytes := (s.sessions[session]?).elim [] Session.held

def mark : Option String := s.row.bind UploadRow.offeredSha256

def setRun (run : Run) : System := { s with run := some run }

/-- `upload_of`, with the row as `carry_on` compares it. -/
def printOf (row : UploadRow) : Print := ⟨row.totalBytes, row.archiveMtimeNs, row.archiveInode⟩

def proven (row : UploadRow) (keep : Nat) : Option Digests :=
  match row.offeredSha256, s.disk with
  | some proof, some archive =>
    if row.offeredBytes < keep then none
    else match prefixOf crates archive keep row.offeredBytes with
      | some whole =>
        if eqIgnoreAsciiCase whole.proof.toList proof.toList then some whole.carried else none
      | none => none
  | _, _ => none

/-- What `carry_on` makes of where the session stands, and what it writes on its way. -/
def takesUp (run : Run) (row : UploadRow) (session : Nat) :
    Except DriveError Chunk → Except DriveError (Carried × List Statement)
  | .ok (.done file) => match s.proven crates row run.size with
    | some whole => .ok (.finished session file whole, [])
    | none => .ok (.fresh, letGo)
  | .ok (.more received moved) =>
    match (if received = 0 then some {} else s.proven crates row received) with
    | some carried => .ok (.stands session received carried, if moved then [.movesTo] else [])
    | none => .ok (.fresh, letGo)
  | .error .sessionOver => .ok (.fresh, letGo)
  | .error err => .error err

def carryOn (run : Run) (found : Bool) (now : Timestamp) (answer : Except DriveError Chunk) :
    Except DriveError (Carried × List Statement) :=
  match (if found then s.row else none) with
  | none => .ok (.fresh, [])
  | some row =>
    if row.userId ≠ run.user ∨ row.totalBytes ≠ run.size ∨ printOf row ≠ run.print then
      .ok (.fresh, letGo)
    else if row.openedAt + sessionLife ≤ now then .ok (.fresh, letGo)
    else match s.addresses run.user with
      | none => .ok (.fresh, letGo)
      | some session => s.takesUp crates run row session answer

/-- The archive up to the mark, which `proven` reads where it says yes. -/
def readBack : Pieces UInt8 := match s.row, s.disk with
  | some row, some archive => [(0, archive.bytes.take row.offeredBytes)]
  | _, _ => []

def carriesOn (found : Bool) (now : Timestamp) (answer : Except DriveError Chunk) :
    Option System :=
  match s.run with
  | some run =>
    if run.phase = .starting then
      match s.carryOn crates run found now answer with
      | .error err => some (s.setRun { run with phase := .failed err })
      | .ok (.fresh, todo) =>
        some { s.setRun { run with todo, phase := .fresh } with answered := some .fresh }
      | .ok (.stands session start carried, todo) =>
        some { s.setRun { run with
            session := some session
            todo
            reads := if start = 0 then [] else s.readBack
            phase := .sending { offset := start, ours := carried } } with
          answered := some (.stands session start carried) }
      | .ok (.finished session file whole, _) =>
        some { s.setRun { run with
            session := some session
            todo := letGo
            reads := s.readBack
            phase := .checking (sentOf crates file whole run.size) } with
          answered := some (.finished session file whole) }
    else none
  | none => none

def execute (run : Run) : Statement → System
  | .forgetSession => { s with addresses := Function.update s.addresses run.user none }
  | .forgetUpload => { s with row := none }
  | .remembers row => { s with
      addresses := Function.update s.addresses run.user run.session
      run := some { run with todo := .opensUpload row :: run.todo } }
  | .opensUpload row =>
    { s with row := some { row with offeredBytes := 0, offeredSha256 := none } }
  | .movesTo => { s with addresses := Function.update s.addresses run.user run.session }

def writes (ok : Bool) : Option System :=
  match s.run with
  | some run => match run.todo with
    | [] => none
    | statement :: todo =>
      let run := { run with todo }
      some (if ok then (s.setRun run).execute run statement else s.setRun run)
  | none => none

/-- A run acts on from its phase once all that it had to write is written. -/
def atRest : Option Run := s.run.filter fun run => run.todo = []

def opens (now : Timestamp) : Option System :=
  match s.atRest with
  | some run =>
    if run.phase = .fresh then
      let row : UploadRow :=
        { backupId := s.backup, userId := run.user, totalBytes := run.print.bytes
          archiveMtimeNs := run.print.mtimeNs, archiveInode := run.print.inode, openedAt := now }
      some { s.setRun { run with
          session := some s.sessions.length
          todo := [.remembers row]
          phase := .sending {} } with sessions := s.sessions ++ [{}] }
    else none
  | none => none

/-- The top of the loop, with whatever the open file gives for the next chunk. -/
def reads (chunk : Bytes) : Option System :=
  match s.atRest with
  | some run => match run.phase with
    | .sending loop => match turnedAway run.size loop.offset with
      | some err => some (s.setRun (run.breaks loop.moved err))
      | none =>
        if loop.offset < run.size ∧ chunk.length = min chunkSize (run.size - loop.offset) then
          some (s.setRun { run with
            reads := (loop.offset, chunk) :: run.reads, phase := .offering loop chunk })
        else none
    | _ => none
  | none => none

/-- `note_offer`, before the chunk goes out. -/
def notes (ok : Bool) : Option System :=
  match s.run with
  | some run => match run.phase with
    | .offering loop chunk =>
      let offered := loop.ours.take chunk
      let s := s.setRun { run with phase := .putting loop chunk }
      match ok, s.row with
      | true, some row => some { s with
          row := some { row with
            offeredBytes := loop.offset + chunk.length
            offeredSha256 := some (crates.sha256 offered.taken) }
          vouched := offered.taken }
      | _, _ => some s
    | _ => none
  | none => none

def puts : Option System :=
  match s.run with
  | some run => match run.phase, run.session with
    | .putting loop chunk, some session =>
      some { s.setRun { run with phase := .waiting loop chunk } with
        sessions := s.sessions.modify session fun session =>
          { session with puts := session.puts ++ [(loop.offset, chunk)] } }
    | _, _ => none
  | none => none

def hears (answer : Except DriveError Chunk) : Option System :=
  match s.run with
  | some run => match run.phase with
    | .waiting loop chunk =>
      let (loop, turn) := loop.hears crates chunk answer
      some (s.setRun (run.turns loop turn))
    | _ => none
  | none => none

def asks (answer : Except DriveError Chunk) : Option System :=
  match s.atRest with
  | some run => match run.phase with
    | .sending loop =>
      if (turnedAway run.size loop.offset).isNone ∧ loop.offset = run.size then
        some (s.setRun (run.turns loop (loop.asks crates run.size answer)))
      else none
    | _ => none
  | none => none

def fails (err : DriveError) : Option System :=
  match s.atRest with
  | some run => match run.phase with
    | .sending loop => some (s.setRun (run.breaks loop.moved err))
    | .starting | .fresh | .looking _ | .checking _ =>
      some (s.setRun { run with phase := .failed err })
    | _ => none
  | none => none

def looks : Option System :=
  match s.atRest with
  | some run => match run.phase with
    | .looking sent =>
      if s.disk.map Archive.print = some run.print then
        some (s.setRun { run with phase := .checking sent })
      else some (s.setRun { run with phase := .failed (.damaged
        ("the archive on the disk was written over while it was going up, so what lies in the " ++
          "Drive is the front of one archive and the back of another")) })
    | _ => none
  | none => none

def confirms (seen : Option Uploaded) : Option System :=
  match s.atRest with
  | some run => match run.phase with
    | .checking sent => match confirm sent run.size seen with
      | .ok stored => some (s.setRun { run with phase := .stored sent seen stored })
      | .error refusal => some (s.setRun { run with phase := .thrownAway refusal })
    | _ => none
  | none => none

def takes (session put count : Nat) : Option System :=
  match s.sessions[session]? with
  | some found => match found.puts[put]? with
    | some (start, bytes) =>
      if start ≤ found.held.length then
        let fresh := (bytes.drop (found.held.length - start)).take count
        let found := { found with held := found.held ++ fresh }
        some { s with sessions := s.sessions.set session found }
      else none
    | none => none
  | none => none

def begins (user : Id) (size : Nat) : Option System :=
  match s.run, s.disk with
  | none, some archive => some (s.setRun { user, size, print := archive.print })
  | _, _ => none

def act : Event → Option System
  | .rewrites archive => some { s with disk := archive }
  | .takes session put count => s.takes session put count
  | .drops session count => some { s with sessions := s.sessions.modify session fun found =>
      { found with held := found.held.take count } }
  | .forgetsUpload => some { s with row := none }
  | .forgetsSession user => some { s with addresses := Function.update s.addresses user none }
  | .begins user size => s.begins user size
  | .carriesOn found now answer => s.carriesOn crates found now answer
  | .writes ok => s.writes ok
  | .opens now => s.opens now
  | .reads chunk => s.reads chunk
  | .notes ok => s.notes crates ok
  | .puts => s.puts
  | .hears answer => s.hears crates answer
  | .asks answer => s.asks crates answer
  | .fails err => s.fails err
  | .looks => s.looks
  | .confirms seen => s.confirms seen
  | .stops => some { s with run := none }

def step (event : Event) : Option System := act crates { s with answered := none } event

end System

def machine (crates : Crates) : Machine System Event := ⟨System.step crates⟩

namespace System

variable {crates : Crates} {s t : System}

theorem atRest_run {run : Run} (h : s.atRest = some run) : s.run = some run ∧ run.todo = [] := by
  have hrest := Option.filter_eq_some_iff.mp h
  exact ⟨hrest.1, by simpa using hrest.2⟩

theorem proven_some {row : UploadRow} {keep : Nat} {carried : Digests}
    (h : s.proven crates row keep = some carried) :
    ∃ archive proof, s.disk = some archive ∧ row.offeredSha256 = some proof ∧
      keep ≤ row.offeredBytes ∧ row.offeredBytes ≤ archive.bytes.length ∧
      carried.taken = archive.bytes.take keep ∧
      eqIgnoreAsciiCase (crates.sha256 (archive.bytes.take row.offeredBytes)).toList
        proof.toList := by
  unfold proven at h
  split at h
  · next proof archive hproof hdisk =>
    split at h
    · cases h
    next hkeep =>
    split at h
    · next whole hwhole =>
      unfold prefixOf at hwhole
      split at hwhole
      · next hlong =>
        cases hwhole
        split at h
        · next heq =>
          cases h
          have hmax := Nat.max_le.mp hlong
          exact ⟨archive, proof, hdisk, hproof, Nat.le_of_not_lt hkeep, hmax.2, rfl, heq⟩
        · cases h
      · cases hwhole
    · cases h
  · cases h

theorem carryOn_cases {run : Run} {found : Bool} {now : Timestamp}
    {answer : Except DriveError Chunk} {carried : Carried} {todo : List Statement}
    (h : s.carryOn crates run found now answer = .ok (carried, todo)) :
    carried = .fresh ∨ ∃ row session, s.row = some row ∧ row.userId = run.user ∧
      s.addresses run.user = some session ∧
      s.takesUp crates run row session answer = .ok (carried, todo) := by
  unfold carryOn at h
  split at h
  · cases h
    exact .inl rfl
  next row hfound =>
  have hrow : s.row = some row := by
    split at hfound
    · exact hfound
    · cases hfound
  split at h
  · cases h
    exact .inl rfl
  next hsame =>
  split at h
  · cases h
    exact .inl rfl
  split at h
  · cases h
    exact .inl rfl
  next session haddress =>
  have huser : row.userId = run.user := by
    by_contra hne
    exact hsame (.inl hne)
  exact .inr ⟨row, session, hrow, huser, haddress, h⟩

theorem takesUp_stands {run : Run} {row : UploadRow} {address session start : Nat}
    {answer : Except DriveError Chunk} {carried : Digests} {todo : List Statement}
    (h : s.takesUp crates run row address answer = .ok (.stands session start carried, todo)) :
    session = address ∧
      (start = 0 ∧ carried = {} ∨ 0 < start ∧ s.proven crates row start = some carried) := by
  unfold takesUp at h
  split at h
  · split at h <;> cases h
  · next received moved =>
    split at h
    · next kept hkept =>
      simp only [Except.ok.injEq, Prod.mk.injEq, Carried.stands.injEq] at h
      obtain ⟨⟨rfl, rfl, rfl⟩, -⟩ := h
      refine ⟨rfl, ?_⟩
      by_cases hzero : received = 0
      · rw [if_pos hzero] at hkept
        exact .inl ⟨hzero, (Option.some.inj hkept).symm⟩
      · rw [if_neg hzero] at hkept
        exact .inr ⟨Nat.pos_of_ne_zero hzero, hkept⟩
    · cases h
  · cases h
  · cases h

theorem takesUp_finished {run : Run} {row : UploadRow} {address session : Nat} {file : Uploaded}
    {answer : Except DriveError Chunk} {whole : Digests} {todo : List Statement}
    (h : s.takesUp crates run row address answer = .ok (.finished session file whole, todo)) :
    session = address ∧ answer = .ok (.done file) ∧
      s.proven crates row run.size = some whole := by
  unfold takesUp at h
  split at h
  · split at h
    · next kept hkept =>
      simp only [Except.ok.injEq, Prod.mk.injEq, Carried.finished.injEq] at h
      obtain ⟨⟨rfl, rfl, rfl⟩, -⟩ := h
      exact ⟨rfl, rfl, hkept⟩
    · cases h
  · split at h <;> cases h
  · cases h
  · cases h

end System

end CraftPanel.Drive.Upload
