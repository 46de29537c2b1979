import CraftPanel.Drive.Retry

/-!
# One upload run

The calls of `drive/http.rs` and `drive/files.rs` that an upload makes, `send` of `drive/upload.rs`
and `upload` of `drive/mod.rs` around it, with the pauses they take, the chunks they put and what
they write to the day's row. What a run writes down of its session, and whether what is sent is the
archive, is in the machine of `Upload`.
-/

namespace CraftPanel.Drive.Running

open Framework Framework.Effect Upload

def worthALook (status : Nat) : Bool := status = 403 || status = 429 || 500 ≤ status

def isSuccess (status : Nat) : Bool := 200 ≤ status && status < 300

def shorten (text : String) : String := String.ofList (text.toList.take 200)

def apiRefusal (status : Nat) (body : Body) : DriveError :=
  if body.reason = "storageQuotaExceeded" then .quotaFull (shorten body.detail)
  else if body.reason = "rateLimitExceeded" ∨ body.reason = "userRateLimitExceeded" then .rateLimited
  else if body.reason = "cannotDownloadAbusiveFile" then .abusive (shorten body.detail)
  else if body.reason = "sharingRateLimitExceeded" ∨ body.reason = "uploadLimitExceeded" ∨
      body.reason = "teamDriveFileLimitExceeded" then
    .refused status body.reason (shorten body.detail)
  else if status = 429 then .rateLimited
  else if status = 404 ∨ status = 410 then .gone
  else if status = 401 then .revoked (shorten body.detail)
  else .refused status body.reason (shorten body.detail)

def oauthRefusal (status : Nat) (body : Body) : DriveError :=
  if body.name = "authorization_pending" then .pending false
  else if body.name = "slow_down" then .pending true
  else if body.name = "access_denied" then .denied
  else if body.name = "expired_token" then .expired
  else if body.name = "invalid_grant" then .revoked (shorten body.description)
  else if body.name = "rate_limit_exceeded" then .rateLimited
  else if status = 429 then .rateLimited
  else .refused status body.name (shorten body.description)

/-- The call of `send_again`. -/
def lookedAt : Except String Response → Except Setback Response
  | .error reason => .error { error := .unreachable reason }
  | .ok response =>
    if !worthALook response.status then .ok response
    else match response.body with
      | .error reason => .error { error := .unreachable reason }
      | .ok body => .error { error := apiRefusal response.status body, after := response.retryAfter }

/-- The call of `form_again`, as `refresh` makes it. -/
def lookedAtForm : Except String Response → Except Setback Bool
  | .error reason => .error { error := .unreachable reason }
  | .ok response => match response.body with
    | .error reason => .error { error := .unreachable reason }
    | .ok body =>
      if isSuccess response.status then match body.token with
        | .ok token => .ok token
        | .error reason => .error { error := .unreadable (shorten reason) }
      else .error { error := oauthRefusal response.status body, after := response.retryAfter }

def exchange {α : Type} (look : Except String Response → Except Setback α) :
    Run (Except Setback α) :=
  ask Moment.answer >>= fun answer => pure (look answer)

def sendAgain (waiting : Waiting) : Run Response := keepTrying waiting (exchange lookedAt)

/-- `read_api`, for one of the readers. -/
def readApi {α : Type} (read : Body → Except String α) (response : Response) : Except DriveError α :=
  match response.body with
  | .error reason => .error (.unreachable reason)
  | .ok body =>
    if isSuccess response.status then
      (read body).mapError fun reason => .unreadable (shorten reason)
    else .error (apiRefusal response.status body)

def call {α : Type} (waiting : Waiting) (read : Body → Except String α) : Run α :=
  sendAgain waiting >>= fun response => lift (readApi read response)

def refresh (waiting : Waiting) : Run Unit :=
  keepTrying waiting (exchange lookedAtForm) >>= fun token =>
  if token then pure () else .fail (.unreadable "Google sent an empty access token")

/-- `token_unless`; the held token is looked at on both sides of the door. -/
def tokenUnless (waiting : Waiting) : Run Unit :=
  ask Moment.held >>= fun held =>
  if held then pure ()
  else
    ask Moment.held >>= fun held =>
    if held then pure ()
    else
      ask Moment.credentials >>= fun credentials =>
      if !credentials then .fail (.unreachable "this panel has no Google project set up")
      else
        ask Moment.connected >>= fun connected =>
        if !connected then .fail (.revoked "no Google Drive is connected")
        else refresh waiting

def u64 : Nat := 2 ^ 64

/-- A sum or a difference of `u64` comes out as this integer. -/
def counts (value : Int) : Run Unit := fun w => (.ok (), { w with sums := w.sums ++ [value] })

/-- The last byte that a `Range` header names. -/
def lastByte (range : String) : Option Nat :=
  match range.toList.dropWhile (· ≠ '=') with
  | [] => none
  | _ :: span =>
    if '-' ∈ span then
      let last := (span.reverse.takeWhile (· ≠ '-')).reverse
      parseU64 (String.ofList (trim (String.ofList last)))
    else none

/-- `after`, whose sum wraps. -/
def after (range : Option String) : Run Nat :=
  hears (.range (range.bind lastByte)) >>= fun _ =>
  match range.bind lastByte with
  | none => pure 0
  | some last => counts (last + 1) >>= fun _ => pure ((last + 1) % u64)

def readAnswer (response : Response) : Run Chunk :=
  if response.status = 308 then
    after response.range >>= fun received => pure (.more received response.location.isSome)
  else if response.status = 404 then .fail .sessionOver
  else match readApi Body.file response with
    | .ok file => pure (.done file)
    | .error err => .fail err

def putChunk : Run (Except Setback Response) := fun w =>
  exchange lookedAt { w with requests := w.requests + 1 }

def oneChunk (waiting : Waiting) (offset : Nat) (bytes : Bytes) : Run Chunk :=
  counts (offset + bytes.length - 1) >>= fun _ =>
  keepTrying waiting putChunk >>= readAnswer

def statusOf (waiting : Waiting) : Run Chunk := sendAgain waiting >>= readAnswer

/-- What a run sends with: the account's pace and ceiling, `Tally::before`, and `Carry::over`. -/
structure Carry where
  pace : Pace
  crates : Crates
  ceiling : Nat
  before : Nat
  «over» : Waiting

def Carry.bearing (carry : Carry) : Waiting := { plan := carry.pace.patient }

def Carry.today (carry : Carry) (w : World) : Nat := min (carry.before + w.added) (u64 - 1)

/-- `Tally::full` and `Tally::reached`. -/
def tallied (carry : Carry) : Run Unit := fun w =>
  let today := carry.today w
  (if carry.ceiling - today = 0 then .error (.dayFull (s!"{today} bytes have gone up from this " ++
    "account today and Google takes 750 GB a day, so the rest waits. Google does not write down " ++
    "when the day turns over for an account; this panel counts from midnight UTC, and the run is " ++
    "worth starting again after that"))
  else .ok (), w)

def took (bytes : Nat) : Run Unit := fun w => (.ok (), { w with added := (w.added + bytes) % u64 })

def readFailed (reason : String) : DriveError :=
  .unreachable s!"the archive could not be read back: {reason}"

def readExact (wanted : Nat) : Run Bytes :=
  ask Moment.bytes >>= fun
    | .error reason => .fail (readFailed reason)
    | .ok bytes =>
      if bytes.length < wanted then .fail (readFailed "early eof") else pure (bytes.take wanted)

def heardOf (loop : Sending) (chunk : Bytes) : Except DriveError Chunk → List Heard
  | .ok (.done _) => [.finished loop.offset (loop.offset + chunk.length)]
  | .ok (.more received _) => [.acknowledged loop.offset (loop.offset + chunk.length) received]
  | .error _ => []

def hearsAll (heard : List Heard) : Run Unit := fun w =>
  (.ok (), { w with heard := w.heard ++ heard })

def turns (carry : Carry) (loop : Sending) (chunk : Bytes) (answer : Except DriveError Chunk) :
    Run (Sending ⊕ Sent) :=
  match loop.hears carry.crates chunk answer with
  | (_, .fails err) => .fail err
  | (_, .ends sent) => took chunk.length >>= fun _ => pure (.inr sent)
  | (next, .goesOn) => match answer with
    | .error _ => tokenUnless carry.bearing >>= fun _ => pure (.inl next)
    | .ok _ =>
      if next.offset = loop.offset then
        breathe carry.over next.fruitless >>= fun carried =>
        if carried then pure (.inl next) else .fail .cancelled
      else
        counts ((next.offset : Int) - loop.offset) >>= fun _ =>
        took (next.offset - loop.offset) >>= fun _ =>
        pure (.inl next)

def chunkPass (carry : Carry) (total : Nat) (loop : Sending) : Run (Sending ⊕ Sent) :=
  ask Moment.calledOff >>= fun cancelled =>
  if cancelled then .fail .cancelled
  else
    tallied carry >>= fun _ =>
    tokenUnless carry.bearing >>= fun _ =>
    counts ((total : Int) - loop.offset) >>= fun _ =>
    readExact (min chunkSize (total - loop.offset)) >>= fun chunk =>
    counts (loop.offset + chunk.length) >>= fun _ =>
    (oneChunk carry.over loop.offset chunk).attempt >>= fun answer =>
    hearsAll (heardOf loop chunk answer) >>= fun _ =>
    turns carry loop chunk answer

def lastWord (carry : Carry) (total : Nat) (loop : Sending) : Run (Sending ⊕ Sent) :=
  tokenUnless carry.bearing >>= fun _ =>
  statusOf carry.over >>= fun
    | .done file => pure (.inr (sentOf carry.crates file loop.ours total))
    | .more _ _ =>
      .fail (.unreadable "Google took every byte of the archive and did not confirm the file")

def pass (carry : Carry) (total : Nat) (loop : Sending) : Run (Sending ⊕ Sent) :=
  if loop.offset < total then chunkPass carry total loop else lastWord carry total loop

/-- How much a loop may still do: six steps for a byte that is left, and those until it is given up
where nothing is acknowledged. -/
def stillToDo (total : Nat) (loop : Sending) : Nat :=
  6 * (total - loop.offset) + ((attempts - 1 - loop.fruitless) + (renewalsAllowed - loop.renewals))

section Passes

variable {carry : Carry} {total : Nat} {loop next : Sending} {chunk : Bytes} {w : World}

theorem stillToDo_hears {crates : Crates} {answer : Except DriveError Chunk}
    (hoffset : loop.offset < total)
    (h : loop.hears crates chunk answer = (next, .goesOn)) :
    stillToDo total next < stillToDo total loop := by
  unfold Sending.hears at h
  unfold stillToDo attempts renewalsAllowed at *
  split at h
  · split at h
    · cases h
    next hrenewals =>
      cases h
      dsimp only
      omega
  · cases h
  · cases h
  next received moved =>
    dsimp only at h
    split at h
    · cases h
    split at h
    · split at h
      · cases h
      next hfruitless =>
        cases h
        dsimp only at hfruitless ⊢
        omega
    next hreceived =>
      cases h
      dsimp only
      omega

theorem turns_inl {answer : Except DriveError Chunk} (hoffset : loop.offset < total) :
    (turns carry loop chunk answer).Ends w fun result _ =>
      ∀ next, result = .ok (.inl next) → stillToDo total next < stillToDo total loop := by
  unfold turns
  split
  · intro next h
    cases h
  · intro next h
    cases h
  next after hgoesOn =>
    have hless := stillToDo_hears hoffset hgoesOn
    split
    · apply ends_bind_of _ (fun _ _ _ h => by cases h)
      rintro _ _ next ⟨⟩
      exact hless
    split
    · apply ends_bind_of _ (fun _ _ _ h => by cases h)
      intro carried _
      split
      · rintro next ⟨⟩
        exact hless
      · intro next h
        cases h
    · apply ends_bind_of _ (fun _ _ _ h => by cases h)
      intro _ _
      apply ends_bind_of _ (fun _ _ _ h => by cases h)
      rintro _ _ next ⟨⟩
      exact hless

theorem pass_inl : (pass carry total loop).Ends w fun result _ =>
    ∀ next, result = .ok (.inl next) → stillToDo total next < stillToDo total loop := by
  unfold pass
  split
  next hoffset =>
    unfold chunkPass
    apply ends_bind_of _ (fun _ _ _ h => by cases h)
    intro cancelled _
    split
    · intro next h
      cases h
    apply ends_bind_of _ (fun _ _ _ h => by cases h)
    intro _ _
    apply ends_bind_of _ (fun _ _ _ h => by cases h)
    intro _ _
    apply ends_bind_of _ (fun _ _ _ h => by cases h)
    intro _ _
    apply ends_bind_of _ (fun _ _ _ h => by cases h)
    intro chunk _
    apply ends_bind_of _ (fun _ _ _ h => by cases h)
    intro _ _
    apply ends_bind_of _ (fun _ _ _ h => by cases h)
    intro answer _
    apply ends_bind_of _ (fun _ _ _ h => by cases h)
    intro _ t
    exact turns_inl hoffset
  next =>
    unfold lastWord
    apply ends_bind_of _ (fun _ _ _ h => by cases h)
    intro _ _
    apply ends_bind_of _ (fun _ _ _ h => by cases h)
    intro answer _
    split
    · intro next h
      cases h
    · intro next h
      cases h

end Passes

/-- The loop of `send`. -/
def sending (carry : Carry) (total : Nat) : Loop World DriveError Sending Sent where
  body := pass carry total
  measure := stillToDo total
  lessens := fun hbody => pass_inl.elim hbody _ rfl

def send (carry : Carry) (total start : Nat) (carried : Digests) : Run Sent :=
  ask Moment.bytes >>= fun
    | .error reason => .fail (readFailed reason)
    | .ok _ => match turnedAway total start with
      | some err => .fail err
      | none => (sending carry total).finish { offset := start, ours := carried }

structure Account where
  pace : Pace := .real
  crates : Crates
  /-- `CEILING`. -/
  ceiling : Nat := 750 * 1000 * 1000 * 1000

def Account.over (account : Account) : Waiting :=
  { plan := account.pace.patient, watched := true, run := some account.pace.run }

def roomFor (waiting : Waiting) (size : Nat) : Run Unit :=
  call waiting Body.about >>= fun
    | (none, _) => pure ()
    | (some limit, usage) =>
      let free := limit - usage.getD 0
      if size ≤ free then pure ()
      else .fail (.quotaFull (s!"the archive is {size} bytes and this Drive has {free} of its " ++
        s!"{limit} bytes free, so Google would turn it away partway through rather than at the door"))

/-- `find_folder`, over the pages of `list`. -/
def findFolder (waiting : Waiting) : Nat → Option String → Run (Option String)
  | 0, _ => .fail (.unreadable "Google keeps handing out more pages of files than we asked to see")
  | pages + 1, found =>
    call waiting Body.page >>= fun page =>
    if page.2 then findFolder waiting pages (found <|> page.1) else pure (found <|> page.1)

/-- `folder` with `ensure_folder`. -/
def folder (waiting : Waiting) : Run Unit :=
  ask Moment.folder >>= fun known =>
  if known then pure ()
  else findFolder waiting 50 none >>= fun
    | some _ => pure ()
    | none => call waiting Body.made >>= fun _ => pure ()

def refusalOf (response : Response) : DriveError :=
  match response.body with
  | .error reason => .unreachable reason
  | .ok body => apiRefusal response.status body

def «begin» (waiting : Waiting) : Run Unit :=
  sendAgain waiting >>= fun response =>
  if !isSuccess response.status then .fail (refusalOf response)
  else if response.location.isNone then
    .fail (.unreadable "Google opened an upload session without giving its address")
  else pure ()

def openSession (waiting : Waiting) (size : Nat) : Run Unit :=
  roomFor waiting size >>= fun _ => folder waiting >>= fun _ => «begin» waiting

/-- What `carry_on` finds. -/
inductive Stand
  | finished (file : Uploaded) (whole : Digests)
  | stands (start : Nat) (carried : Digests)
  | fresh

def carryOn (waiting : Waiting) : Run Stand :=
  ask Moment.row >>= fun row =>
  if !row then pure .fresh
  else
    (statusOf waiting).attempt >>= fun
      | .ok (.done file) =>
        ask Moment.proven >>= fun proven =>
        pure (proven.elim .fresh fun whole => .finished file ⟨whole⟩)
      | .ok (.more received _) =>
        if received = 0 then pure (.stands 0 {})
        else
          ask Moment.proven >>= fun proven =>
          pure (proven.elim .fresh fun carried => .stands received ⟨carried⟩)
      | .error .sessionOver => pure .fresh
      | .error err => .fail err

def delete (waiting : Waiting) : Run Unit :=
  sendAgain waiting >>= fun response =>
  if isSuccess response.status || response.status = 404 then pure () else .fail (refusalOf response)

def throwAway (account : Account) (why : String) : Run Stored :=
  (delete { plan := account.pace.brief }).attempt >>= fun _ => .fail (.damaged why)

/-- What `confirm` makes of the size and the checksum that Google names. -/
def judge (account : Account) (size : Nat) (sent : Sent) (held : Option Nat)
    (named : Option (Algorithm × String)) : Run Stored :=
  match held.filter (· ≠ size) with
  | some held =>
    throwAway account s!"Google kept {held} bytes of an archive that is {size} bytes long"
  | none =>
    let covered := sent.covered
    if covered ≠ size then
      throwAway account s!"Google called the archive finished after {covered} of its {size} bytes"
    else match named with
      | none => pure ⟨sent.file.id, none⟩
      | some (algorithm, theirs) =>
        let (name, ours) := match algorithm with
          | .sha256 => ("sha256", sent.sha256)
          | .md5 => ("md5", sent.md5)
        if agrees theirs ours then pure ⟨sent.file.id, some sent.md5⟩
        else throwAway account (s!"the archive in the Drive hashes to {theirs} ({name}), the one " ++
          s!"that left this machine to {ours}")

def confirmStored (account : Account) (size : Nat) (sent : Sent) : Run Stored :=
  let named := strongest sent.file.sha256Checksum sent.file.md5Checksum
  if named.isSome then judge account size sent sent.file.bytes named
  else
    (call { plan := account.pace.patient } Body.file).attempt >>= fun
      | .error err => .fail (.unconfirmed ("the archive went up, and Google would not say " ++
          "afterwards what it holds under " ++ sent.file.id ++ ": " ++ err.display))
      | .ok seen => judge account size sent (sent.file.bytes <|> seen.bytes)
          (strongest seen.sha256Checksum seen.md5Checksum)

def i64Max : Nat := 2 ^ 63 - 1

/-- `Tally::added`. -/
def tally : Run Nat := fun w => (.ok w.added, w)

/-- The statement of `note_sent`. -/
def noteSent (bytes : Nat) : Run Unit := fun w =>
  (.ok (), { w with day := w.day + min bytes i64Max })

/-- `note_day` with `note_sent`. -/
def noteDay : Run Unit :=
  tally >>= fun added =>
  if added = 0 then pure ()
  else
    ask Moment.written >>= fun written =>
    hears (.noted written) >>= fun _ =>
    if written then noteSent added else pure ()

/-- `sent_today`, or nothing where it cannot be read. -/
def sentToday : Run Nat :=
  ask Moment.written >>= fun written => fun w => (.ok (if written then w.day else 0), w)

def whole (account : Account) (size : Nat) (sent : Sent) : Run Stored :=
  noteDay >>= fun _ =>
  tokenUnless account.over >>= fun _ =>
  ask Moment.unchanged >>= fun unchanged =>
  if unchanged then confirmStored account size sent
  else throwAway account ("the archive on the disk was written over while it was going up, so what " ++
    "lies in the Drive is the front of one archive and the back of another")

/-- The second turn of the loop in `upload`, with a session of its own. -/
def sendsAgain (account : Account) (carry : Carry) (size : Nat) : Run Stored :=
  (openSession carry.over size).attempt >>= fun opened =>
  hears (.reopened (match opened with
    | .ok _ => true
    | .error _ => false)) >>= fun _ =>
  match opened with
  | .error err => .fail err
  | .ok _ => (send carry size 0 {}).attempt >>= fun
    | .ok sent => whole account size sent
    | .error err => noteDay >>= fun _ => .fail err

/-- The loop in `upload`, which begins again once. -/
def sends (account : Account) (carry : Carry) (size start : Nat) (carried : Digests) : Run Stored :=
  (send carry size start carried).attempt >>= fun
    | .ok sent => whole account size sent
    | .error .sessionOver => sendsAgain account carry size
    | .error err => noteDay >>= fun _ => .fail err

def upload (account : Account) (size : Nat) : Run Stored :=
  ask Moment.claimed >>= fun claimed =>
  if !claimed then .fail .busy
  else
    tokenUnless account.over >>= fun _ =>
    ask Moment.archive >>= fun archive =>
    if !archive then .fail (.unreachable "the archive to send is not on this machine")
    else
      sentToday >>= fun before =>
      let carry : Carry :=
        { pace := account.pace, crates := account.crates, ceiling := account.ceiling, before
          «over» := account.over }
      tallied carry >>= fun _ =>
      carryOn account.over >>= fun
        | .finished file all => confirmStored account size (sentOf account.crates file all size)
        | .stands start carried => sends account carry size start carried
        | .fresh =>
          openSession account.over size >>= fun _ => sends account carry size 0 {}

/-- What questions, calls that are made again, and the reading of an answer to a chunk keep. -/
structure Calling (ok : Waiting → Prop) (R : World → World → Prop) : Prop where
  refl : ∀ w, R w w
  trans : ∀ w t u, R w t → R t u → R w u
  asks : ∀ w : World, R w { w with asked := w.asked + 1 }
  tries : ∀ {α : Type} {waiting : Waiting} {call : Run (Except Setback α)}, ok waiting →
    call.Keeps R → (keepTrying waiting call).Keeps R
  reads : ∀ response, (readAnswer response).Keeps R

section Rules

variable {α : Type} {ok : Waiting → Prop} {R : World → World → Prop} {waiting : Waiting}
  {account : Account} {carry : Carry} {size total start : Nat} {loop : Sending}

theorem readAnswer_keeps (hrefl : ∀ w, R w w) (htrans : ∀ w t u, R w t → R t u → R w u)
    (hafter : ∀ range, (after range).Keeps R) (response : Response) :
    (readAnswer response).Keeps R := by
  unfold readAnswer
  split
  · exact (hafter _).bind htrans fun _ => keeps_pure hrefl _
  split
  · exact keeps_fail hrefl _
  · split
    · exact keeps_pure hrefl _
    · exact keeps_fail hrefl _

theorem Quiet.calling (h : Quiet R) (hafter : ∀ range, (after range).Keeps R) :
    Calling (fun _ => True) R :=
  ⟨h.refl, h.trans, h.asks, fun _ hcall => h.keepTrying hcall,
    readAnswer_keeps h.refl h.trans hafter⟩

theorem Quiet.breathes (h : Quiet R) (tried : Nat) (next : α) :
    (Running.breathe waiting tried >>= fun carried =>
      if carried then pure next else .fail .cancelled : Run α).Keeps R := by
  apply (h.breathe _).bind h.trans
  intro carried
  split
  · exact keeps_pure h.refl _
  · exact keeps_fail h.refl _

variable (h : Calling ok R)

include h

theorem Calling.ask (question : Moment → α) : (ask question).Keeps R := h.asks

theorem Calling.exchange (look : Except String Response → Except Setback α) :
    (exchange look).Keeps R :=
  (h.ask _).bind h.trans fun _ => keeps_pure h.refl _

theorem Calling.sendAgain (hover : ok waiting) : (sendAgain waiting).Keeps R :=
  h.tries hover (h.exchange _)

theorem Calling.call (hover : ok waiting) (read : Body → Except String α) : (call waiting read).Keeps R :=
  (h.sendAgain hover).bind h.trans fun _ => keeps_lift h.refl _

theorem Calling.statusOf (hover : ok waiting) : (statusOf waiting).Keeps R :=
  (h.sendAgain hover).bind h.trans h.reads

theorem Calling.tokenUnless (hover : ok waiting) : (tokenUnless waiting).Keeps R := by
  apply (h.ask _).bind h.trans
  intro held
  split
  · exact keeps_pure h.refl _
  apply (h.ask _).bind h.trans
  intro held
  split
  · exact keeps_pure h.refl _
  apply (h.ask _).bind h.trans
  intro credentials
  split
  · exact keeps_fail h.refl _
  apply (h.ask _).bind h.trans
  intro connected
  split
  · exact keeps_fail h.refl _
  apply (h.tries hover (h.exchange _)).bind h.trans
  intro token
  split
  · exact keeps_pure h.refl _
  · exact keeps_fail h.refl _

theorem Calling.lastWord (hbearing : ok carry.bearing) (hover : ok carry.over) :
    (lastWord carry total loop).Keeps R := by
  apply (h.tokenUnless hbearing).bind h.trans
  intro _
  apply (h.statusOf hover).bind h.trans
  intro answer
  split
  · exact keeps_pure h.refl _
  · exact keeps_fail h.refl _

theorem Calling.send (hpass : ∀ loop, (pass carry total loop).Keeps R) (carried : Digests) :
    (send carry total start carried).Keeps R := by
  apply (h.ask _).bind h.trans
  intro bytes
  split
  · exact keeps_fail h.refl _
  · split
    · exact keeps_fail h.refl _
    · exact Loop.finish_keeps h.refl h.trans hpass _

theorem Calling.readExact (wanted : Nat) : (readExact wanted).Keeps R := by
  apply (h.ask _).bind h.trans
  intro bytes
  split
  · exact keeps_fail h.refl _
  · split
    · exact keeps_fail h.refl _
    · exact keeps_pure h.refl _

theorem Calling.roomFor (hover : ok waiting) : (roomFor waiting size).Keeps R := by
  apply (h.call hover _).bind h.trans
  intro about
  split
  · exact keeps_pure h.refl _
  dsimp only
  split
  · exact keeps_pure h.refl _
  · exact keeps_fail h.refl _

theorem Calling.findFolder (hover : ok waiting) (pages : Nat) (found : Option String) :
    (findFolder waiting pages found).Keeps R := by
  induction pages generalizing found with
  | zero => exact keeps_fail h.refl _
  | succ pages ih =>
    apply (h.call hover _).bind h.trans
    intro page
    split
    · exact ih _
    · exact keeps_pure h.refl _

theorem Calling.folder (hover : ok waiting) : (folder waiting).Keeps R := by
  apply (h.ask _).bind h.trans
  intro known
  split
  · exact keeps_pure h.refl _
  apply (h.findFolder hover _ _).bind h.trans
  intro found
  split
  · exact keeps_pure h.refl _
  · exact (h.call hover _).bind h.trans fun _ => keeps_pure h.refl _

theorem Calling.begin (hover : ok waiting) : («begin» waiting).Keeps R := by
  apply (h.sendAgain hover).bind h.trans
  intro response
  split
  · exact keeps_fail h.refl _
  · split
    · exact keeps_fail h.refl _
    · exact keeps_pure h.refl _

theorem Calling.openSession (hover : ok waiting) : (openSession waiting size).Keeps R :=
  (h.roomFor hover).bind h.trans fun _ => (h.folder hover).bind h.trans fun _ => h.begin hover

theorem Calling.carryOn (hover : ok waiting) : (carryOn waiting).Keeps R := by
  apply (h.ask _).bind h.trans
  intro row
  split
  · exact keeps_pure h.refl _
  apply (h.statusOf hover).attempt.bind h.trans
  intro answer
  split
  · exact (h.ask _).bind h.trans fun _ => keeps_pure h.refl _
  · split
    · exact keeps_pure h.refl _
    · exact (h.ask _).bind h.trans fun _ => keeps_pure h.refl _
  · exact keeps_pure h.refl _
  · exact keeps_fail h.refl _

theorem Calling.throwAway (hover : ok { plan := account.pace.brief }) (why : String) :
    (throwAway account why).Keeps R := by
  have hdelete : (delete { plan := account.pace.brief }).Keeps R := by
    apply (h.sendAgain hover).bind h.trans
    intro response
    split
    · exact keeps_pure h.refl _
    · exact keeps_fail h.refl _
  exact hdelete.attempt.bind h.trans fun _ => keeps_fail h.refl _

theorem Calling.judge (hover : ok { plan := account.pace.brief }) (sent : Sent)
    (held : Option Nat) (named : Option (Algorithm × String)) :
    (judge account size sent held named).Keeps R := by
  unfold Running.judge
  split
  · exact h.throwAway hover _
  dsimp only
  split
  · exact h.throwAway hover _
  split
  · exact keeps_pure h.refl _
  -- One for each of the two checksums.
  split
  all_goals
    dsimp only
    split
    · exact keeps_pure h.refl _
    · exact h.throwAway hover _

theorem Calling.confirmStored (hbrief : ok { plan := account.pace.brief })
    (hpatient : ok { plan := account.pace.patient }) (sent : Sent) :
    (confirmStored account size sent).Keeps R := by
  unfold Running.confirmStored
  dsimp only
  split
  · exact h.judge hbrief _ _ _
  apply (h.call hpatient _).attempt.bind h.trans
  intro seen
  split
  · exact keeps_fail h.refl _
  · exact h.judge hbrief _ _ _

end Rules

def plainAccount : Account := { crates := ⟨fun _ => "", fun _ => "", id⟩ }

def welcome : Response :=
  { location := some "session", body := .ok { file := .ok { id := "archive" } } }

end CraftPanel.Drive.Running
