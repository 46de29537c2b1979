import CraftPanel.Accounts.Statements

/-!
# The handlers of accounts and sign-ups

`auth/password.rs`, `auth/users.rs`, `auth/session.rs`, `auth/extract.rs`, `auth/reset.rs`,
`api/session.rs`, `api/admin.rs` and `registration/mod.rs`, with an `await` on the database or on
somebody else as a statement. What a handler answers beyond its success, and what it tells mail,
log and audit, is left out.
-/

namespace CraftPanel.Accounts

open Framework Settings
open Request (fail)

abbrev Asking := Request Answer Failure

abbrev ask (statement : Statement) : Asking (Answer statement) := Request.run statement

abbrev look (query : Query) : Asking query.Answer := ask (.read query)

def MIN_LENGTH : Nat := 10

def checkStrength (password : Text) : Asking Unit :=
  if password.length < MIN_LENGTH then
    fail (.badRequest "weak_password" "a password needs at least 10 characters")
  else pure ()

def hash (password : Text) : Asking Hash := do
  checkStrength password
  let salt ← ask .draw
  return ⟨password, salt⟩

def load (id : Id) : Asking UserRow := do
  match ← look (.findUser id) with
  | some row => return row
  | none => fail (.notFound "user_not_found" "no such user")

def isNameLetter (letter : Char) : Bool :=
  ('a' ≤ letter && letter ≤ 'z') || ('0' ≤ letter && letter ≤ '9') || letter = '-' || letter = '_'

def checkUsername (name : Text) : Asking Unit :=
  if name.length < 3 || 39 < name.length then
    fail (.invalidRequest "a username is 3 to 39 characters")
  else if !name.all isNameLetter then
    fail (.invalidRequest "a username holds lower case letters, digits, '-' and '_'")
  else pure ()

def claimNameInUsers (name : Text) (except : Option Id) : Asking Unit := do
  checkUsername name
  match ← look (.nameTaken name) with
  | some id => if some id ≠ except then fail (nameTaken name) else return ()
  | none => return ()

def claimNameInApplications (name : Text) (replacing : Option Id) : Asking Unit := do
  match ← look (.namePromised name) with
  | some id =>
    if some id ≠ replacing then
      fail (.conflict "username_taken" (String.ofList name ++ " is spoken for by an open sign-up"))
    else return ()
  | none => return ()

def claimName (name : Text) (except : Option Id) : Asking Unit := do
  claimNameInUsers name except
  claimNameInApplications name none

def claimNameForSignUp (name : Text) (replacing : Option Id) : Asking Unit := do
  claimNameInUsers name none
  claimNameInApplications name replacing

def claimEmail (email : Text) (except : Option Id) : Asking Unit := do
  let taken ← look (.emailTaken email)
  if taken.any fun id => some id ≠ except then fail emailTaken
  else
    let applied ← look (.emailApplied email)
    if applied.isSome then fail emailTaken else return ()

def isLastAdmin (row : UserRow) : Asking Bool := do
  if row.isAdmin then
    let count ← look .adminCount
    return count ≤ 1
  else return false

def insert (new : NewUser) : Asking UserRow := ask (.users (.insert new))

def busyFailure : Failure :=
  .conflict "user_busy" "another change to this account is still running"

def refuseIfBusy (row : UserRow) : Asking Unit :=
  if row.busy then fail busyFailure else pure ()

def change (id : Id) (changes : List Change) : Asking Unit := do
  let _ ← ask (.users (.change id changes))
  return ()

def provision (row : UserRow) : Asking Unit := do
  let created ← (ask (.world .helper)).attempt
  match created with
  | .ok _ =>
    let _ ← (ask (.world .helper)).attempt
    change row.id [.system .ready]
  | .error _ => change row.id [.system .error]

def LIFETIME : Nat := 30 * 24 * 60 * 60 * 1000

def openSession (userId : Id) (generation : Nat) (now : Timestamp) : Asking Unit :=
  ask (.sessions (.open userId generation (now + LIFETIME)))

def unauthenticated : Failure := ⟨401, "unauthenticated", "sign in first"⟩

def caller (cookie : Nat) (now : Timestamp) : Asking UserRow := do
  match ← look (.session cookie) with
  | some session =>
    if session.expiresAt ≤ now then fail unauthenticated
    else match ← look (.findUser session.userId) with
      | some row => return row
      | none => fail unauthenticated
  | none => fail unauthenticated

def admin (cookie : Nat) (now : Timestamp) : Asking UserRow := do
  let row ← caller cookie now
  if !row.isAdmin then fail ⟨403, "forbidden", "you may not do that"⟩ else return row

def refuse : Failure := ⟨401, "invalid_credentials", "wrong name or password"⟩

def refuseHalfAnAccount : RegistrationState → Failure
  | .emailUnverified =>
    ⟨403, "email_unverified", "check your inbox: your address has not been confirmed yet"⟩
  | .awaitingApproval =>
    ⟨403, "approval_pending", "an administrator still has to let this account in"⟩

def credentials (username password : Text) : Asking UserRow := do
  match ← look (.userByName username) with
  | some row => if ← ask (.verify password row) then return row else fail refuse
  | none =>
    match ← look (.credentials username) with
    | some (hash, pending) =>
      if verify password hash then fail (refuseHalfAnAccount pending) else fail refuse
    | none => fail refuse

def login (username password : Text) (now : Timestamp) : Asking Unit := do
  ask (.world .brake)
  let row ← credentials username password
  ask (.sessions (.purgeExpired now))
  openSession row.id row.generation now
  change row.id [.lastLogin now]

def changePassword (cookie : Nat) (currentPassword newPassword : Text) (now : Timestamp) :
    Asking Unit := do
  let row ← caller cookie now
  let fits ← ask (.verify currentPassword row)
  if !fits then
    fail ⟨403, "wrong_password", "the current password does not match"⟩
  else
    let hash ← hash newPassword
    let generation ← ask
      (.users (.change row.id [.password hash, .mustChangePassword false]))
    ask (.sessions (.closeAllOf row.id none))
    ask (.resets (.forgetAll row.id))
    openSession row.id generation now

def confirm (token : Nat) (chosen : Text) (now : Timestamp) : Asking Unit := do
  ask (.world .brake)
  match ← look (.living token now) with
  | none => fail (.badRequest "invalid_reset_token" "this link is no longer valid")
  | some (user, _) =>
    let hash ← hash chosen
    change user [.password hash, .mustChangePassword false]
    ask (.resets (.spend token now))
    ask (.resets (.forgetOthers user token))
    ask (.sessions (.closeAllOf user none))
    let _ ← look (.findUser user)

structure CreateUserRequest where
  username : Text
  password : Text
  panelRole : PanelRole
  email : Option Text := none
  mustChangePassword : Option Bool := none
  withLimits : Bool := false

/-- `claim_email` for an address that a body may name. -/
def claimAddress (email : Option Text) (except : Option Id) : Asking Unit :=
  match email with
  | some address => claimEmail address except
  | none => pure ()

def wantedLimits (body : CreateUserRequest) : Asking Unit :=
  if body.panelRole = .admin && body.withLimits then
    fail (.invalidRequest "an administrator has no limits")
  else if body.withLimits then pure ()
  else do let _ ← look .switches

def createUser (cookie : Nat) (body : CreateUserRequest) (now : Timestamp) : Asking Unit := do
  let _ ← admin cookie now
  let username := trim body.username
  claimName username none
  claimAddress body.email none
  let hash ← hash body.password
  wantedLimits body
  let row ← insert
    { username
      email := body.email
      origin := .admin
      passwordHash := hash
      role := body.panelRole
      mustChangePassword := body.mustChangePassword.getD true }
  provision row
  let _ ← look (.ownedServers row.id)

structure UpdateUserRequest where
  username : Option Text := none
  panelRole : Option PanelRole := none
  password : Option Text := none
  email : Option (Option Text) := none
  mustChangePassword : Option Bool := none

def UpdateUserRequest.changes (body : UpdateUserRequest) (hash : Option Hash) : List Change :=
  (body.username.map fun name => Change.username (trim name)).toList ++
    (hash.map Change.password).toList ++ (body.panelRole.map Change.role).toList ++
    (body.email.map Change.email).toList ++
    (body.mustChangePassword.map Change.mustChangePassword).toList

def settleCgroup (row : UserRow) : Asking Unit := do
  if row.systemState ≠ .ready then return ()
  else match ← (ask (.world .helper)).attempt with
    | .ok _ => return ()
    | .error _ => change row.id []

def claimUsername (username : Option Text) (except : Option Id) : Asking Unit :=
  match username with
  | some wanted => claimName (trim wanted) except
  | none => pure ()

def demotesLast (body : UpdateUserRequest) (row : UserRow) : Asking Bool :=
  if body.panelRole = some .user then isLastAdmin row else pure false

def hashOf (body : UpdateUserRequest) : Asking (Option Hash) :=
  match body.password with
  | some password => do return some (← hash password)
  | none => pure none

def settleNewRole (body : UpdateUserRequest) (row : UserRow) : Asking Unit :=
  match body.panelRole with
  | some role => if role ≠ row.role then settleCgroup row else pure ()
  | none => pure ()

/-- A new password ends the sessions and the reset links, a new address the reset links. -/
def forgetOld (body : UpdateUserRequest) (row : UserRow) : Asking Unit :=
  if body.password.isSome then do
    ask (.sessions (.closeAllOf row.id none))
    ask (.resets (.forgetAll row.id))
  else if body.email.any fun wanted => wanted ≠ row.email then ask (.resets (.forgetAll row.id))
  else pure ()

def updateUser (cookie : Nat) (userId : Id) (body : UpdateUserRequest) (now : Timestamp) :
    Asking Unit := do
  let _ ← admin cookie now
  let row ← load userId
  refuseIfBusy row
  claimUsername body.username (some row.id)
  claimAddress (body.email.getD none) (some row.id)
  let last ← demotesLast body row
  if last then
    fail (.conflict "last_admin" "a panel without an administrator cannot get one back")
  else
    let hash ← hashOf body
    change row.id (body.changes hash)
    settleNewRole body row
    forgetOld body row
    let _ ← load row.id

inductive DeleteUserServers
  | delete | transfer
  deriving DecidableEq

structure DeleteQuery where
  servers : Option DeleteUserServers := none
  transferTo : Option Id := none

def invalidTransferTarget : Failure :=
  .badRequest "invalid_transfer_target" "no one to hand the servers to"

def transferTarget (query : DeleteQuery) (leaving : UserRow) : Asking UserRow := do
  match query.transferTo with
  | none => fail invalidTransferTarget
  | some wanted =>
    match ← look (.findUser wanted) with
    | none => fail invalidTransferTarget
    | some target =>
      if target.id = leaving.id || target.systemState ≠ .ready then fail invalidTransferTarget
      else
        refuseIfBusy target
        return target

/-- The directories are moved one by one; when one does not move, those that have go back. -/
def moveAll (leaving receiver : Id) : List Id → List Id → Asking (List Id)
  | [], moved => return moved.reverse
  | server :: rest, moved => do
    let there ← look (.dirExists leaving server)
    if !there then moveAll leaving receiver rest moved
    else match ← (ask (.servers (.moves server leaving receiver))).attempt with
      | .ok _ => moveAll leaving receiver rest (server :: moved)
      | .error failure =>
        Request.each (fun done => do
          let _ ← (ask (.servers (.moves done receiver leaving))).attempt) moved.reverse
        fail failure

def setBusy (id : Id) (busy : Bool) : Asking Unit := change id [.busy busy]

def handOver (leaving receiver : UserRow) (owned : List Id) : Asking Unit := do
  Request.each (fun _ => do let _ ← (ask (.world .playit)).attempt) owned
  let moved ← moveAll leaving.id receiver.id owned []
  ask (.servers (.giveAll leaving.id receiver.id))
  setBusy receiver.id true
  ask (.spawn (.settles receiver.id moved))

def handOverTo (leaving : UserRow) (owned : List Id) (decision : Option DeleteUserServers)
    (receiver : Option UserRow) : Asking Unit :=
  match decision, receiver with
  | some .transfer, some receiver => handOver leaving receiver owned
  | _, _ => pure ()

def removeServers (leaving : UserRow) (decision : Option DeleteUserServers) : Asking Unit :=
  if decision = some .delete then ask (.servers (.removeAll leaving.id)) else pure ()

def disposeOf (leaving : UserRow) (owned : List Id) (decision : Option DeleteUserServers)
    (receiver : Option UserRow) : Asking Unit := do
  let live ← look .liveServers
  if owned.any live.contains then
    fail (.conflict "servers_running"
      "stop the servers of this account first; we shoot nothing down")
  else
    handOverTo leaving owned decision receiver
    let _ ← (ask (.world .playit)).attempt
    let _ ← (ask (.world .drive)).attempt
    removeServers leaving decision
    ask (.users (.remove leaving.id))
    ask (.spawn (.clears leaving.id (if decision = some .delete then owned else [])))

def decisionFor (owned : List Id) (query : DeleteQuery) : Asking (Option DeleteUserServers) :=
  if owned.isEmpty then pure none
  else match query.servers with
    | none => fail (.conflict "user_has_servers"
        "say what should happen to the servers: ?servers=delete or ?servers=transfer")
    | some decision => pure (some decision)

def receiverFor (row : UserRow) (decision : Option DeleteUserServers) (query : DeleteQuery) :
    Asking (Option UserRow) :=
  if decision = some .transfer then do return some (← transferTarget query row) else pure none

def disposeOrRelease (row : UserRow) (owned : List Id) (decision : Option DeleteUserServers)
    (receiver : Option UserRow) : Asking Unit := do
  match ← (disposeOf row owned decision receiver).attempt with
  | .ok _ => return ()
  | .error failure =>
    setBusy row.id false
    fail failure

def deleteUser (cookie : Nat) (userId : Id) (query : DeleteQuery) (now : Timestamp) :
    Asking Unit := do
  let admin ← admin cookie now
  let row ← load userId
  if row.id = admin.id then
    fail ⟨403, "cannot_delete_self", "an administrator cannot delete himself"⟩
  else
    refuseIfBusy row
    if ← isLastAdmin row then
      fail (.conflict "last_admin" "this is the last administrator")
    else
      let owned ← look (.ownedServers row.id)
      let decision ← decisionFor owned query
      let receiver ← receiverFor row decision query
      let claimed ← ask (.users (.claimBusy row.id))
      if !claimed then fail busyFailure else disposeOrRelease row owned decision receiver

def Job.body : Job → Asking Unit
  | .settles receiver moved => do
    Request.each (fun _ => do let _ ← (ask (.world .helper)).attempt) moved
    let _ ← (setBusy receiver false).attempt
  | .clears user backups => do
    Request.each (fun server => do
      let _ ← (ask (.servers (.removesBackups server))).attempt) backups
    let _ ← (ask (.servers (.removesHome user))).attempt

def TOKEN_LIFE : Nat := 24 * 60 * 60 * 1000

def TOKENS_PER_APPLICATION : Nat := 5

def BLOCK_AFTER_REJECTION : Nat := 30 * 24 * 60 * 60 * 1000

def KEEP_UNVERIFIED : Nat := 7 * 24 * 60 * 60 * 1000

def KEEP_WAITING : Nat := 30 * 24 * 60 * 60 * 1000

def requireOpen : Asking Bool := do
  let switches ← look .switches
  if !(switches.registrationEnabled && switches.mailCanLink) then
    fail (.conflict "registration_disabled" "this panel does not take sign-ups at the moment")
  else return switches.registrationRequiresApproval

def isBlocked (email : Text) (now : Timestamp) : Asking Bool := do
  match ← look (.blockedUntil email) with
  | some none => return true
  | some (some until?) => return now < until?
  | none => return false

/-- An application that is not confirmed is taken over; otherwise there is a new one. -/
def file (unconfirmed : Option Id) (new : NewApplication) (now : Timestamp) :
    Asking (Option Id) := do
  match unconfirmed with
  | some id =>
    let taken ← ask (.registrations (.takeOver id new now))
    return taken.map fun _ => id
  | none => return some (← ask (.registrations (.insert new now)))

def apply (username email chosen : Text) (now : Timestamp) : Asking Unit := do
  let _ ← requireOpen
  let username := trim username
  checkStrength chosen
  checkUsername username
  ask (.world .brake)
  let open' ← look (.registrationByEmail email)
  let unconfirmed := (open'.filter fun row => row.state = .emailUnverified).map Row.id
  claimNameForSignUp username unconfirmed
  let hash ← hash chosen
  if ← isBlocked email now then return ()
  else if (← look (.userByEmail email)).isSome then
    let _ ← (ask (.world .mail)).attempt
    return ()
  else if open'.any fun row => row.state = .awaitingApproval then return ()
  else
    let new : NewApplication :=
      { username, email, passwordHash := hash, tokenExpiresAt := now + TOKEN_LIFE }
    match ← (file unconfirmed new now).attempt with
    | .error failure => if failure.code = "username_taken" then fail failure else return ()
    | .ok none => return ()
    | .ok (some id) =>
      match ← (ask (.world .mail)).attempt with
      | .error _ => ask (.registrations (.remove id))
      | .ok _ => return ()

def deadLink : Failure :=
  .notFound "invalid_token"
    "this confirmation link is not valid. If you have already confirmed, sign in."

def takenMeanwhile (username : Text) (failure : Failure) : Failure :=
  if failure.code = "username_taken" then
    .conflict "username_taken"
      (String.ofList username ++ " has been taken in the meantime; please sign up again")
  else failure

def admitSignUp (row : Row) (hash : Hash) : Asking Unit := do
  match ← (claimNameInUsers row.username none).attempt with
  | .error failure => fail (takenMeanwhile row.username failure)
  | .ok _ =>
    let _ ← look .switches
    let user ← insert
      { username := row.username
        email := some row.email
        origin := .registration
        passwordHash := hash
        role := .user
        mustChangePassword := false
        application := some row.filing }
    ask (.registrations (.remove row.id))
    provision user
    let _ ← look (.ownedServers user.id)

def verifyEmail (token : Nat) (now : Timestamp) : Asking Unit := do
  let requiresApproval ← requireOpen
  ask (.world .brake)
  match ← look (.registrationByToken token) with
  | none => fail deadLink
  | some row =>
    if row.state = .awaitingApproval then return ()
    else if row.tokenExpiresAt ≤ now then
      fail ⟨410, "token_expired", "this confirmation link has run out; ask for a new one"⟩
    else if !requiresApproval then
      match ← look (.passwordHashForToken row.id token) with
      | none => fail deadLink
      | some hash => admitSignUp row hash
    else if ← ask (.registrations (.markVerified row.id token)) then return ()
    else
      match ← look (.registrationByToken token) with
      | some _ => return ()
      | none => fail deadLink

def mintAndSend (row : Row) (now : Timestamp) : Asking Unit := do
  match ← (ask (.world .brake)).attempt with
  | .error _ => return ()
  | .ok _ =>
    if TOKENS_PER_APPLICATION ≤ row.tokensSent then return ()
    else
      match ← (ask (.registrations (.replaceToken row.id (now + TOKEN_LIFE)))).attempt with
      | .ok (some _) =>
        let _ ← (ask (.world .mail)).attempt
        return ()
      | _ => return ()

def resend (email : Text) (now : Timestamp) : Asking Unit := do
  let _ ← requireOpen
  match ← look (.registrationByEmail email) with
  | none => return ()
  | some row => if row.state ≠ .emailUnverified then return () else mintAndSend row now

def application (id : Id) : Asking Row := do
  match ← look (.registrationById id) with
  | some row => return row
  | none => fail (.notFound "registration_not_found" "no such application")

def approve (cookie : Nat) (id : Id) (now : Timestamp) : Asking Unit := do
  let _ ← admin cookie now
  let row ← application id
  if row.state ≠ .awaitingApproval then
    fail (.conflict "invalid_state" "this application has not confirmed its address yet")
  else
    match ← look (.passwordHash row.id) with
    | none => fail (.notFound "registration_not_found" "no such application")
    | some hash =>
      admitSignUp row hash
      let _ ← (ask (.world .mail)).attempt

def reject (cookie : Nat) (id : Id) (now : Timestamp) : Asking Unit := do
  let _ ← admin cookie now
  let row ← application id
  ask (.registrations (.remove row.id))
  ask (.blocks (.block row.email (some (now + BLOCK_AFTER_REJECTION))))
  let _ ← (ask (.world .mail)).attempt

def sweep (now : Timestamp) : Asking Unit := do
  ask (.registrations (.sweep .emailUnverified (now - KEEP_UNVERIFIED)))
  ask (.registrations (.sweep .awaitingApproval (now - KEEP_WAITING)))
  ask (.blocks (.sweep now))

end CraftPanel.Accounts
