import CraftPanel.Framework.Table
import CraftPanel.Settings.Failure
import CraftPanel.Settings.Runtimes

/-!
# The tables of the accounts

The columns of `users`, `registrations`, `registration_blocks`, `sessions` and `password_resets`
that signing in, signing up and the administration of accounts go by, with their unique indexes.
A hash is its password and its salt, a token or a cookie stands for its digest, and an address is
what `address::normalise` made of it.
-/

namespace CraftPanel.Accounts

open Framework Settings

inductive PanelRole
  | admin | user
  deriving DecidableEq

inductive AccountOrigin
  | admin | registration
  deriving DecidableEq

inductive SystemUserState
  | provisioning | ready | error
  deriving DecidableEq

inductive RegistrationState
  | emailUnverified | awaitingApproval
  deriving DecidableEq

structure Hash where
  password : Text
  salt : Nat

def verify (password : Text) (stored : Hash) : Bool := stored.password = password

/-- A row of `users`. `generation` and `application` are no columns: how many passwords the account
has had, and the sign-up it was made from. -/
structure UserRow where
  id : Id
  username : Text
  email : Option Text := none
  origin : AccountOrigin := .admin
  passwordHash : Hash
  role : PanelRole := .user
  systemState : SystemUserState := .provisioning
  busy : Bool := false
  mustChangePassword : Bool := false
  lastLoginAt : Option Timestamp := none
  generation : Nat := 0
  application : Option Nat := none

namespace UserRow

def isAdmin (row : UserRow) : Bool := row.role = .admin

end UserRow

/-- `registration::store::Row`. `filing` is no column: the first token of the applicant whose
sign-up the row is, for a row can be taken over by another one. -/
structure Row where
  id : Id
  username : Text
  email : Text
  state : RegistrationState := .emailUnverified
  tokenExpiresAt : Timestamp
  tokensSent : Nat := 1
  createdAt : Timestamp
  filing : Nat

/-- A row of `registrations`. -/
structure RegistrationRow extends Row where
  passwordHash : Hash
  token : Nat

structure Block where
  email : Text
  until? : Option Timestamp

/-- A row of `sessions`. `generation` is no column: the password, by its number, on the strength of
which the session was opened. -/
structure Session where
  id : Id
  userId : Id
  token : Nat
  expiresAt : Timestamp
  generation : Nat

structure ResetRow where
  userId : Id
  token : Nat
  expiresAt : Timestamp
  usedAt : Option Timestamp := none

def nameTaken (name : Text) : Failure :=
  .conflict "username_taken" (String.ofList name ++ " is taken")

def emailTaken : Failure :=
  .conflict "email_taken" "that address is already on an account or an open sign-up"

/-- The rows of `users` with the unique indexes on the name and on the address. -/
structure UserTable where
  table : Table UserRow.id := Table.empty
  usernames : (table.rows.map UserRow.username).Nodup := by decide
  emails : (table.rows.filterMap UserRow.email).Nodup := by decide

namespace UserTable

def single (row : UserRow) : UserTable where
  table := ⟨[row], List.nodup_singleton _⟩
  usernames := List.nodup_singleton _
  emails := by cases h : row.email <;> simp [h]

variable (users : UserTable)

abbrev rows : List UserRow := users.table.rows

def find? (id : Id) : Option UserRow := users.table.find? id

def byName (username : Text) : Option UserRow :=
  users.rows.find? fun row => row.username = username

def byEmail (email : Text) : Option UserRow :=
  users.rows.find? fun row => row.email = some email

def adminCount : Nat := users.table.count UserRow.isAdmin

/-- What a statement leaves behind, unless an index refuses it, in the words of `map_taken`. -/
def ofTable (table : Table UserRow.id) : Except Failure UserTable :=
  if hnames : (table.rows.map UserRow.username).Nodup then
    if hemails : (table.rows.filterMap UserRow.email).Nodup then .ok ⟨table, hnames, hemails⟩
    else .error emailTaken
  else .error (nameTaken "that name".toList)

def insert (row : UserRow) : Except Failure UserTable :=
  match users.table.insert row with
  | none => .error .internal
  | some table => ofTable table

def modify (id : Id) (f : UserRow → UserRow) (hf : ∀ row, (f row).id = row.id) :
    Except Failure UserTable :=
  ofTable (users.table.modify id f hf)

def remove (id : Id) : UserTable where
  table := users.table.erase id
  usernames := users.usernames.sublist (List.filter_sublist.map _)
  emails := users.emails.sublist (List.filter_sublist.filterMap _)

variable {users} {after : UserTable} {row : UserRow} {id : Id} {f : UserRow → UserRow}
  {hf : ∀ row, (f row).id = row.id}

theorem table_ofTable {table : Table UserRow.id} (h : ofTable table = .ok after) :
    after.table = table := by
  unfold ofTable at h
  split at h
  · split at h
    · cases h
      rfl
    · cases h
  · cases h

theorem table_modify (h : users.modify id f hf = .ok after) :
    after.table = users.table.modify id f hf :=
  table_ofTable h

theorem table_insert (h : users.insert row = .ok after) :
    users.table.insert row = some after.table := by
  unfold insert at h
  split at h
  · cases h
  · next table htable => rw [htable, table_ofTable h]

end UserTable

/-- The rows of `registrations` with the unique indexes on the name, the address and the token. -/
structure RegistrationTable where
  table : Table fun row : RegistrationRow => row.id := Table.empty
  usernames : (table.rows.map fun row => row.username).Nodup := by decide
  emails : (table.rows.map fun row => row.email).Nodup := by decide
  tokens : (table.rows.map fun row => row.token).Nodup := by decide

namespace RegistrationTable

def empty : RegistrationTable := {}

variable (registrations : RegistrationTable)

abbrev rows : List RegistrationRow := registrations.table.rows

def find? (id : Id) : Option RegistrationRow := registrations.table.find? id

def byName (username : Text) : Option RegistrationRow :=
  registrations.rows.find? fun row => row.username = username

def byEmail (email : Text) : Option RegistrationRow :=
  registrations.rows.find? fun row => row.email = email

def byToken (token : Nat) : Option RegistrationRow :=
  registrations.rows.find? fun row => row.token = token

/-- What a statement leaves behind, unless an index refuses it; `map_taken` has no words for
that. -/
def ofTable (table : Table fun row : RegistrationRow => row.id) :
    Except Failure RegistrationTable :=
  if h : (table.rows.map fun row => row.username).Nodup ∧
      (table.rows.map fun row => row.email).Nodup ∧ (table.rows.map fun row => row.token).Nodup then
    .ok ⟨table, h.1, h.2.1, h.2.2⟩
  else .error .internal

def insert (row : RegistrationRow) : Except Failure RegistrationTable :=
  match registrations.table.insert row with
  | none => .error .internal
  | some table => ofTable table

def modify (id : Id) (f : RegistrationRow → RegistrationRow) (hf : ∀ row, (f row).id = row.id) :
    Except Failure RegistrationTable :=
  ofTable (registrations.table.modify id f hf)

def discard (gone : RegistrationRow → Bool) : RegistrationTable where
  table := registrations.table.discard gone
  usernames := registrations.usernames.sublist (List.filter_sublist.map _)
  emails := registrations.emails.sublist (List.filter_sublist.map _)
  tokens := registrations.tokens.sublist (List.filter_sublist.map _)

variable {registrations} {after : RegistrationTable} {row : RegistrationRow} {id : Id}
  {f : RegistrationRow → RegistrationRow} {hf : ∀ row, (f row).id = row.id}

theorem table_ofTable {table : Table fun row : RegistrationRow => row.id}
    (h : ofTable table = .ok after) : after.table = table := by
  unfold ofTable at h
  split at h
  · cases h
    rfl
  · cases h

theorem table_modify (h : registrations.modify id f hf = .ok after) :
    after.table = registrations.table.modify id f hf :=
  table_ofTable h

theorem table_insert (h : registrations.insert row = .ok after) :
    registrations.table.insert row = some after.table := by
  unfold insert at h
  split at h
  · cases h
  · next table htable => rw [htable, table_ofTable h]

end RegistrationTable

end CraftPanel.Accounts
