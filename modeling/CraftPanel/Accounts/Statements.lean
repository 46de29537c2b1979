import CraftPanel.Accounts.Tables
import CraftPanel.Framework.Requests

/-!
# Statements over the accounts

What a request of `api/session.rs`, `api/admin.rs`, `auth/reset.rs` or `registration/mod.rs` does at
once: a query, a change of one table (the updates of one transaction are one statement), something
drawn at random, a run of argon2 over the hash of an account, or a call of the mail service, of the
helper or of the brakes. What is drawn comes from a counter, so that no two are alike. The servers
of the accounts, their directories, processes and open operations stand beside the tables.
-/

namespace CraftPanel.Accounts

open Framework Settings

/-- The columns of `panel_settings` that signing up goes by, and whether a mail can carry a link. -/
structure Switches where
  registrationEnabled : Bool := false
  registrationRequiresApproval : Bool := true
  mailCanLink : Bool := false

structure Server where
  id : Id
  ownerId : Id

/-- `dirs` holds `users/<owner>/servers/<server>`, `live` the servers whose supervisor is attached,
`operations` the servers of the open operations. -/
structure Servers where
  rows : Table Server.id := Table.empty
  dirs : List (Id × Id) := []
  backups : List Id := []
  processes : List Id := []
  live : List Id := []
  operations : List Id := []

structure Store where
  users : UserTable := {}
  registrations : RegistrationTable := .empty
  blocks : List Block := []
  sessions : List Session := []
  resets : List ResetRow := []
  switches : Switches := {}
  servers : Servers := {}
  counter : Nat := 0

inductive Query
  | findUser (id : Id)
  | userByName (username : Text)
  | userByEmail (email : Text)
  | nameTaken (name : Text)
  | emailTaken (email : Text)
  | namePromised (name : Text)
  | emailApplied (email : Text)
  | adminCount
  | ownedServers (owner : Id)
  | switches
  | registrationById (id : Id)
  | registrationByEmail (email : Text)
  | registrationByToken (token : Nat)
  | credentials (username : Text)
  | passwordHash (id : Id)
  | passwordHashForToken (id : Id) (token : Nat)
  | blockedUntil (email : Text)
  | session (token : Nat)
  | living (token : Nat) (now : Timestamp)
  | dirExists (owner server : Id)
  | liveServers

namespace Query

abbrev Answer : Query → Type
  | findUser _ | userByName _ | userByEmail _ => Option UserRow
  | nameTaken _ | emailTaken _ | namePromised _ => Option Id
  | emailApplied _ => Option Text
  | adminCount => Nat
  | ownedServers _ | liveServers => List Id
  | switches => Switches
  | registrationById _ | registrationByEmail _ | registrationByToken _ => Option Row
  | credentials _ => Option (Hash × RegistrationState)
  | passwordHash _ | passwordHashForToken _ _ => Option Hash
  | blockedUntil _ => Option (Option Timestamp)
  | session _ => Option Session
  | living _ _ => Option (Id × Text)
  | dirExists _ _ => Bool

def answer (store : Store) : (query : Query) → query.Answer
  | findUser id => store.users.find? id
  | userByName username => store.users.byName username
  | userByEmail email => store.users.byEmail email
  | nameTaken name => (store.users.byName name).map UserRow.id
  | emailTaken email => (store.users.byEmail email).map UserRow.id
  | namePromised name => (store.registrations.byName name).map fun row => row.id
  | emailApplied email => (store.registrations.byEmail email).map fun row => row.email
  | adminCount => store.users.adminCount
  | ownedServers owner => (store.servers.rows.select fun server => server.ownerId = owner).map
      Server.id
  | switches => store.switches
  | registrationById id => (store.registrations.find? id).map fun row => row.toRow
  | registrationByEmail email => (store.registrations.byEmail email).map fun row => row.toRow
  | registrationByToken token => (store.registrations.byToken token).map fun row => row.toRow
  | credentials username => (store.registrations.byName username).map fun row =>
      (row.passwordHash, row.state)
  | passwordHash id => (store.registrations.find? id).map RegistrationRow.passwordHash
  | passwordHashForToken id token => ((store.registrations.find? id).filter fun row =>
      row.token = token).map RegistrationRow.passwordHash
  | blockedUntil email => (store.blocks.find? fun block => block.email = email).map Block.until?
  | session token => store.sessions.find? fun session => session.token = token
  | living token now => do
      let reset ← store.resets.find? fun reset =>
        reset.token = token && reset.usedAt.isNone && now < reset.expiresAt
      let user ← store.users.find? reset.userId
      return (user.id, user.username)
  | dirExists owner server => store.servers.dirs.contains (owner, server)
  | liveServers => store.servers.live

end Query

/-- One `UPDATE users SET … WHERE id = ?`. -/
inductive Change
  | username (name : Text)
  | password (hash : Hash)
  | role (wanted : PanelRole)
  | email (address : Option Text)
  | mustChangePassword (must : Bool)
  | busy (taken : Bool)
  | lastLogin (at' : Timestamp)
  | system (state : SystemUserState)

namespace Change

def apply (row : UserRow) : Change → UserRow
  | username name => { row with username := name }
  | password hash => { row with passwordHash := hash, generation := row.generation + 1 }
  | role wanted => { row with role := wanted }
  | email address => { row with email := address }
  | mustChangePassword must => { row with mustChangePassword := must }
  | busy taken => { row with busy := taken }
  | lastLogin at' => { row with lastLoginAt := some at' }
  | system state => { row with systemState := state }

def applyAll (changes : List Change) (row : UserRow) : UserRow := changes.foldl apply row

theorem id_applyAll (changes : List Change) (row : UserRow) :
    (applyAll changes row).id = row.id := by
  induction changes generalizing row with
  | nil => rfl
  | cons change changes ih =>
    rw [applyAll, List.foldl_cons]
    refine (ih (apply row change)).trans ?_
    cases change <;> rfl

end Change

structure NewUser where
  username : Text
  email : Option Text
  origin : AccountOrigin
  passwordHash : Hash
  role : PanelRole
  mustChangePassword : Bool
  application : Option Nat := none

def NewUser.row (new : NewUser) (id : Id) : UserRow where
  id
  username := new.username
  email := new.email
  origin := new.origin
  passwordHash := new.passwordHash
  role := new.role
  systemState := .provisioning
  busy := false
  mustChangePassword := new.mustChangePassword
  lastLoginAt := none
  generation := 0
  application := new.application

/-- What comes back from `change` is the number of the password the account has by then. -/
inductive UserWrite
  | insert (new : NewUser)
  | change (id : Id) (changes : List Change)
  | claimBusy (id : Id)
  | remove (id : Id)

abbrev UserWrite.Answer : UserWrite → Type
  | insert _ => UserRow
  | remove _ => Unit
  | change _ _ => Nat
  | claimBusy _ => Bool

inductive SessionWrite
  | open (user : Id) (generation : Nat) (expiresAt : Timestamp)
  | close (id : Id)
  | closeAllOf (user : Id) (except : Option Id)
  | purgeExpired (now : Timestamp)

inductive ResetWrite
  | forgetAll (user : Id)
  | forgetOthers (user : Id) (keep : Nat)
  | spend (token : Nat) (now : Timestamp)

structure NewApplication where
  username : Text
  email : Text
  passwordHash : Hash
  tokenExpiresAt : Timestamp

/-- What comes back from `takeOver` is the filing that has taken the row over. -/
inductive RegistrationWrite
  | insert (new : NewApplication) (now : Timestamp)
  | takeOver (id : Id) (new : NewApplication) (now : Timestamp)
  | replaceToken (id : Id) (expiresAt : Timestamp)
  | markVerified (id : Id) (token : Nat)
  | remove (id : Id)
  | sweep (state : RegistrationState) (before : Timestamp)

abbrev RegistrationWrite.Answer : RegistrationWrite → Type
  | insert _ _ => Id
  | remove _ | sweep _ _ => Unit
  | takeOver _ _ _ => Option Nat
  | markVerified _ _ => Bool
  | replaceToken _ _ => Option Text

inductive BlockWrite
  | block (email : Text) (until? : Option Timestamp)
  | sweep (now : Timestamp)

inductive ServerWrite
  | giveAll (leaving receiver : Id)
  | removeAll (leaving : Id)
  | moves (server leaving receiver : Id)
  | removesBackups (server : Id)
  | removesHome (user : Id)

/-- What is asked of somebody else: the brakes, the mail service, the helper, Drive and the tunnel
agent. -/
inductive World
  | brake | mail | helper | drive | playit
  deriving DecidableEq

/-- What a request leaves to a task of its own. -/
inductive Job
  | settles (receiver : Id) (moved : List Id)
  | clears (user : Id) (backups : List Id)

inductive Statement
  | read (query : Query)
  | users (write : UserWrite)
  | sessions (write : SessionWrite)
  | resets (write : ResetWrite)
  | registrations (write : RegistrationWrite)
  | blocks (write : BlockWrite)
  | servers (write : ServerWrite)
  | draw
  | verify (password : Text) (row : UserRow)
  | world (asked : World)
  | spawn (job : Job)

abbrev Answer : Statement → Type
  | .read query => query.Answer
  | .users write => write.Answer
  | .registrations write => write.Answer
  | .draw => Nat
  | .verify _ _ => Bool
  | .sessions _ | .resets _ | .blocks _ | .servers _ | .world _ | .spawn _ => Unit

def UserTable.write (users : UserTable) (fresh : Nat) :
    (write : UserWrite) → Except Failure (UserTable × write.Answer)
  | .insert new => (users.insert (new.row fresh)).map fun after => (after, new.row fresh)
  | .change id changes =>
    (users.modify id (Change.applyAll changes) (Change.id_applyAll changes)).map fun after =>
      (after, ((after.find? id).map UserRow.generation).getD 0)
  | .claimBusy id =>
    (users.modify id (fun row => Change.apply row (.busy true)) fun _ => rfl).map fun after =>
      (after, (users.find? id).any fun row => !row.busy)
  | .remove id => .ok (users.remove id, ())

def writeSessions (users : UserTable) (sessions : List Session) (fresh : Nat) :
    SessionWrite → Except Failure (List Session)
  | .open user generation expiresAt =>
    if (users.find? user).isNone then .error .internal
    else .ok (sessions ++ [{ id := fresh, userId := user, token := fresh, expiresAt, generation }])
  | .close id => .ok (sessions.filter fun session => session.id ≠ id)
  | .closeAllOf user except => .ok (sessions.filter fun session =>
      session.userId ≠ user || some session.id = except)
  | .purgeExpired now => .ok (sessions.filter fun session => now < session.expiresAt)

def writeResets (resets : List ResetRow) : ResetWrite → List ResetRow
  | .forgetAll user => resets.filter fun reset => reset.userId ≠ user
  | .forgetOthers user keep => resets.filter fun reset => reset.userId ≠ user || reset.token = keep
  | .spend token now => resets.map fun reset =>
      if reset.token = token then { reset with usedAt := some now } else reset

/-- The row of an application, whose token is drawn as the statement is made. -/
def newRow (id : Id) (new : NewApplication) (token : Nat) (now : Timestamp) : RegistrationRow where
  id
  username := new.username
  email := new.email
  state := .emailUnverified
  tokenExpiresAt := new.tokenExpiresAt
  tokensSent := 1
  createdAt := now
  filing := token
  passwordHash := new.passwordHash
  token

/-- The rows that `take_over` writes. -/
def isOpenFor (new : NewApplication) (row : RegistrationRow) : Bool :=
  row.email = new.email && row.state = .emailUnverified

/-- The rows that `mark_verified` writes. -/
def isUnverifiedWith (token : Nat) (row : RegistrationRow) : Bool :=
  row.token = token && row.state = .emailUnverified

def RegistrationTable.write (registrations : RegistrationTable) (fresh : Nat) :
    (write : RegistrationWrite) → Except Failure (RegistrationTable × write.Answer)
  | .insert new now =>
    (registrations.insert (newRow fresh new fresh now)).map fun after => (after, fresh)
  | .takeOver id new now =>
    (registrations.modify id
        (fun row => if isOpenFor new row then newRow row.id new fresh now else row)
        fun row => by split <;> rfl).map fun after =>
      (after, if (registrations.find? id).any (isOpenFor new) then some fresh else none)
  | .replaceToken id expiresAt =>
    (registrations.modify id
        (fun row =>
          { row with
            token := fresh
            tokenExpiresAt := expiresAt
            tokensSent := row.tokensSent + 1 })
        fun _ => rfl).map fun after =>
      (after, (registrations.find? id).map fun row => row.username)
  | .markVerified id token =>
    (registrations.modify id
        (fun row => if isUnverifiedWith token row then { row with state := .awaitingApproval }
          else row)
        fun row => by split <;> rfl).map fun after =>
      (after, (registrations.find? id).any (isUnverifiedWith token))
  | .remove id => .ok (registrations.discard fun row => row.id = id, ())
  | .sweep state before =>
    .ok (registrations.discard fun row => row.state = state && row.createdAt < before, ())

def writeBlocks (blocks : List Block) : BlockWrite → List Block
  | .block email until? => ⟨email, until?⟩ :: blocks.filter fun block => block.email ≠ email
  | .sweep now => blocks.filter fun block => block.until?.all fun until? => now < until?

def Servers.write (servers : Servers) (users : UserTable) : ServerWrite → Except Failure Servers
  | .giveAll leaving receiver =>
    if (users.find? receiver).isNone then .error .internal
    else .ok
      { servers with
        rows := servers.rows.map
          (fun server => if server.ownerId = leaving then { server with ownerId := receiver }
            else server)
          fun server => by split <;> rfl }
  | .removeAll leaving => .ok
    { servers with rows := servers.rows.discard fun server => server.ownerId = leaving }
  | .moves server leaving receiver =>
    if servers.dirs.contains (leaving, server) then .ok
      { servers with dirs := (receiver, server) :: servers.dirs.erase (leaving, server) }
    else .error .internal
  | .removesBackups server => .ok
    { servers with backups := servers.backups.filter fun id => id ≠ server }
  | .removesHome user => .ok { servers with dirs := servers.dirs.filter fun dir => dir.1 ≠ user }

namespace Store

variable (store : Store)

/-- The foreign key of `servers` restricts, those of `sessions` and `password_resets` cascade. -/
def restricts : UserWrite → Bool
  | .remove id => store.servers.rows.rows.any fun server => server.ownerId = id
  | _ => false

def cascade : UserWrite → Store
  | .remove id =>
    { store with
      sessions := store.sessions.filter fun session => session.userId ≠ id
      resets := store.resets.filter fun reset => reset.userId ≠ id }
  | _ => store

/-- Identifiers, tokens and salts are drawn from the counter by the statement that they are for. -/
def perform : (statement : Statement) → Except Failure (Store × Answer statement)
  | .read query => .ok (store, query.answer store)
  | .users write =>
    if store.restricts write then .error .internal
    else (store.users.write store.counter write).map fun done =>
      ({ store.cascade write with users := done.1, counter := store.counter + 1 }, done.2)
  | .sessions write =>
    (writeSessions store.users store.sessions store.counter write).map fun sessions =>
      ({ store with sessions, counter := store.counter + 1 }, ())
  | .resets write => .ok ({ store with resets := writeResets store.resets write }, ())
  | .registrations write =>
    (store.registrations.write store.counter write).map fun done =>
      ({ store with registrations := done.1, counter := store.counter + 1 }, done.2)
  | .blocks write => .ok ({ store with blocks := writeBlocks store.blocks write }, ())
  | .servers write =>
    (store.servers.write store.users write).map fun servers => ({ store with servers }, ())
  | .verify password row => .ok (store, verify password row.passwordHash)
  | .draw => .ok ({ store with counter := store.counter + 1 }, store.counter)
  | .world _ => .ok (store, ())
  | .spawn _ => .ok (store, ())

end Store

def Statement.isLocal : Statement → Bool
  | .draw | .verify _ _ | .spawn _ => true
  | _ => false

def execute (store : Store) (statement : Statement) (fails : Bool) :
    Store × Except Failure (Answer statement) :=
  if fails && !statement.isLocal then (store, .error .internal)
  else match store.perform statement with
    | .ok (after, answer) => (after, .ok answer)
    | .error failure => (store, .error failure)

section Execute

variable {store after : Store} {statement : Statement} {fails : Bool} {answer : Answer statement}

theorem execute_cases (store : Store) (statement : Statement) (fails : Bool) :
    (∃ failure, execute store statement fails = (store, .error failure)) ∨
      ∃ after answer, store.perform statement = .ok (after, answer) ∧
        execute store statement fails = (after, .ok answer) := by
  unfold execute
  split
  · exact .inl ⟨_, rfl⟩
  · cases h : store.perform statement with
    | error failure => exact .inl ⟨failure, rfl⟩
    | ok done => exact .inr ⟨done.1, done.2, rfl, rfl⟩

theorem execute_keeps {I : Store → Prop} (h : I store)
    (hperform : ∀ after answer, store.perform statement = .ok (after, answer) → I after) :
    I (execute store statement fails).1 := by
  rcases execute_cases store statement fails with ⟨failure, heq⟩ | ⟨after, answer, hok, heq⟩
  · rw [heq]
    exact h
  · rw [heq]
    exact hperform after answer hok

theorem map_eq_ok {α β : Type} {x : Except Failure α} {f : α → β} {b : β}
    (h : x.map f = .ok b) : ∃ a, x = .ok a ∧ f a = b := by
  cases x with
  | error failure => cases h
  | ok a => exact ⟨a, rfl, Except.ok.inj h⟩

/-- The rows that a write puts in, each with what the write answers. -/
inductive RegistrationTable.Writes (registrations : RegistrationTable) (fresh : Nat) :
    (write : RegistrationWrite) → write.Answer → RegistrationRow → Prop
  | insert new now : Writes registrations fresh (.insert new now) fresh (newRow fresh new fresh now)
  | takeOver {old} new now (hold : old ∈ registrations.rows)
    (hstate : old.state = .emailUnverified) :
    Writes registrations fresh (.takeOver old.id new now) (some fresh) (newRow old.id new fresh now)
  | replaceToken {old answer} expiresAt (hold : old ∈ registrations.rows) :
    Writes registrations fresh (.replaceToken old.id expiresAt) answer
      { old with token := fresh, tokenExpiresAt := expiresAt, tokensSent := old.tokensSent + 1 }
  | markVerified {old} (hold : old ∈ registrations.rows) :
    Writes registrations fresh (.markVerified old.id old.token) true
      { old with state := .awaitingApproval }

theorem RegistrationTable.mem_write {registrations after : RegistrationTable} {fresh : Nat}
    {write : RegistrationWrite} {answer : write.Answer} {now : RegistrationRow}
    (h : registrations.write fresh write = .ok (after, answer)) (hnow : now ∈ after.rows) :
    now ∈ registrations.rows ∨ registrations.Writes fresh write answer now := by
  have hfind : ∀ {old : RegistrationRow}, old ∈ registrations.rows →
      registrations.find? old.id = some old := Table.find?_of_mem
  cases write with
  | insert new when =>
    obtain ⟨_, hinsert, heq⟩ := map_eq_ok h
    cases heq
    rw [rows, Table.rows_of_insert (table_insert hinsert)] at hnow
    rcases List.mem_append.mp hnow with hold | hnew
    · exact .inl hold
    · rw [List.mem_singleton.mp hnew]
      exact .inr (.insert new when)
  | takeOver id new when =>
    obtain ⟨_, hmodify, heq⟩ := map_eq_ok h
    cases heq
    rw [rows, table_modify hmodify] at hnow
    obtain ⟨old, hold, rfl | ⟨rfl, rfl⟩⟩ := Table.mem_modify _ hnow
    · exact .inl hold
    rw [hfind hold, Option.any_some]
    split
    · next hopen =>
      rw [isOpenFor, Bool.and_eq_true, decide_eq_true_eq, decide_eq_true_eq] at hopen
      exact .inr (.takeOver new when hold hopen.2)
    · exact .inl hold
  | replaceToken id expiresAt =>
    obtain ⟨_, hmodify, heq⟩ := map_eq_ok h
    cases heq
    rw [rows, table_modify hmodify] at hnow
    obtain ⟨old, hold, rfl | ⟨rfl, rfl⟩⟩ := Table.mem_modify _ hnow
    · exact .inl hold
    · exact .inr (.replaceToken expiresAt hold)
  | markVerified id token =>
    obtain ⟨_, hmodify, heq⟩ := map_eq_ok h
    cases heq
    rw [rows, table_modify hmodify] at hnow
    obtain ⟨old, hold, rfl | ⟨rfl, rfl⟩⟩ := Table.mem_modify _ hnow
    · exact .inl hold
    rw [hfind hold, Option.any_some]
    split
    · next hmarked =>
      rw [hmarked]
      obtain ⟨rfl, -⟩ : old.token = token ∧ old.state = .emailUnverified := by
        simpa [isUnverifiedWith] using hmarked
      exact .inr (.markVerified hold)
    · exact .inl hold
  | remove | sweep =>
    cases h
    exact .inl (List.mem_of_mem_filter hnow)

theorem perform_users {write : UserWrite} {answer : write.Answer}
    (h : store.perform (.users write) = .ok (after, answer)) :
    store.restricts write = false ∧ ∃ users,
      store.users.write store.counter write = .ok (users, answer) ∧
        after = { store.cascade write with users, counter := store.counter + 1 } := by
  simp only [Store.perform] at h
  split at h
  · cases h
  next hfree =>
  obtain ⟨done, hdone, hafter⟩ := map_eq_ok h
  cases hafter
  exact ⟨by simpa using hfree, done.1, hdone, rfl⟩

theorem perform_sessions {write : SessionWrite} {answer : Unit}
    (h : store.perform (.sessions write) = .ok (after, answer)) :
    ∃ sessions, writeSessions store.users store.sessions store.counter write = .ok sessions ∧
      after = { store with sessions, counter := store.counter + 1 } := by
  obtain ⟨sessions, hwrite, hafter⟩ := map_eq_ok h
  cases hafter
  exact ⟨sessions, hwrite, rfl⟩

theorem perform_registrations {write : RegistrationWrite} {answer : write.Answer}
    (h : store.perform (.registrations write) = .ok (after, answer)) :
    ∃ registrations,
      store.registrations.write store.counter write = .ok (registrations, answer) ∧
        after = { store with registrations, counter := store.counter + 1 } := by
  obtain ⟨done, hwrite, hafter⟩ := map_eq_ok h
  cases hafter
  exact ⟨done.1, hwrite, rfl⟩

theorem counter_perform {answer : Answer statement}
    (h : store.perform statement = .ok (after, answer)) : store.counter ≤ after.counter := by
  cases statement with
  | users write =>
    obtain ⟨-, left, -, rfl⟩ := perform_users h
    cases write <;> exact Nat.le_succ _
  | draw =>
    cases h
    exact Nat.le_succ _
  | sessions | registrations =>
    obtain ⟨_, -, hafter⟩ := map_eq_ok h
    cases hafter
    exact Nat.le_succ _
  | servers =>
    obtain ⟨_, -, hafter⟩ := map_eq_ok h
    cases hafter
    exact Nat.le_refl _
  | read | resets | blocks | verify | world | spawn =>
    cases h
    exact Nat.le_refl _

theorem users_perform (h : store.perform statement = .ok (after, answer))
    (hother : ∀ write, statement ≠ .users write) : after.users = store.users := by
  cases statement with
  | users write => exact absurd rfl (hother write)
  | read | resets | blocks | draw | verify | world | spawn => cases h; rfl
  | sessions | registrations | servers =>
    obtain ⟨done, -, hafter⟩ := map_eq_ok h
    cases hafter
    rfl

theorem registrations_perform (h : store.perform statement = .ok (after, answer))
    (hother : ∀ write, statement ≠ .registrations write) :
    after.registrations = store.registrations := by
  cases statement with
  | registrations write => exact absurd rfl (hother write)
  | users write =>
    obtain ⟨-, _, -, rfl⟩ := perform_users h
    cases write <;> rfl
  | read | resets | blocks | draw | verify | world | spawn => cases h; rfl
  | sessions | servers =>
    obtain ⟨done, -, hafter⟩ := map_eq_ok h
    cases hafter
    rfl

end Execute

end CraftPanel.Accounts
