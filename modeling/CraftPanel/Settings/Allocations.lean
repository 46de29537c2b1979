import Mathlib.Data.List.Sort
import CraftPanel.Framework.Checked
import CraftPanel.Framework.Machine
import CraftPanel.Framework.Table
import CraftPanel.Settings.Failure

/-!
# The ports of a server

`settings/allocations.rs` and the two transactions of `servers/manager.rs` that write
`allocations`. The unique indexes and the foreign key of the schema are fields of the database, so
a statement that would break one is refused; a request is one step for each statement or
transaction it commits, and `remove` is two.
-/

namespace CraftPanel.Settings.Allocations

open Framework

abbrev Port := Nat

def PER_SERVER : Nat := 8

def MIN_PORT : Port := 1024

def MAX_NAME : Nat := 32

structure ServerRow where
  id : Id
  status : ServerStatus := .installing
  deriving DecidableEq

structure AllocationRow where
  port : Port
  serverId : Id
  name : List Char := []
  isPrimary : Bool := false

/-- `port INTEGER PRIMARY KEY` is the key of the table, the other two are its constraints. -/
structure Database where
  servers : Table ServerRow.id := Table.empty
  allocations : Table AllocationRow.port := Table.empty
  /-- `server_id REFERENCES servers(id)`. -/
  belongs : ∀ a ∈ allocations.rows, (servers.find? a.serverId).isSome := by
    intro a ha
    cases ha
  /-- `UNIQUE INDEX allocations_one_primary_per_server … WHERE is_primary = 1`. -/
  onePrimary : ∀ a ∈ allocations.rows, ∀ b ∈ allocations.rows, a.isPrimary → b.isPrimary →
      a.serverId = b.serverId → a.port = b.port := by
    intro a ha
    cases ha

inductive Violation
  | unique | foreignKey
  deriving DecidableEq

structure PortRange where
  start : Port
  last : Port

namespace PortRange

/-- `range.from..=range.to`. -/
def ports (range : PortRange) : List Port :=
  List.range' range.start (range.last + 1 - range.start)

def contains (range : PortRange) (port : Port) : Bool := range.start ≤ port && port ≤ range.last

end PortRange

structure CreateAllocationRequest where
  name : List Char
  port : Option Int := none

structure Allocation where
  port : Port
  name : List Char

namespace Database

variable (db : Database)

def primaryOf (server : Id) (row : AllocationRow) : Bool := row.serverId = server && row.isPrimary

def portOf (server : Id) (row : AllocationRow) : Bool := row.serverId = server

def held (server : Id) : Nat := db.allocations.count (portOf server)

def primaries (server : Id) : Nat := db.allocations.count (primaryOf server)

/-- `WHERE server_id = ? AND port = ?`. -/
def find (server : Id) (port : Port) : Option AllocationRow :=
  (db.allocations.find? port).filter (portOf server)

def commit (servers : Table ServerRow.id) (allocations : Table AllocationRow.port) :
    Except Violation Database :=
  if hone : ∀ a ∈ allocations.rows, ∀ b ∈ allocations.rows, a.isPrimary → b.isPrimary →
      a.serverId = b.serverId → a.port = b.port then
    if hbelongs : ∀ a ∈ allocations.rows, (servers.find? a.serverId).isSome then
      .ok ⟨servers, allocations, hbelongs, hone⟩
    else .error .foreignKey
  else .error .unique

/-- `INSERT INTO allocations`. -/
def insertAllocation (row : AllocationRow) : Except Violation Database :=
  match db.allocations.insert row with
  | none => .error .unique
  | some allocations => commit db.servers allocations

/-- `INSERT INTO servers`. -/
def insertServer (row : ServerRow) : Except Violation Database :=
  match db.servers.insert row with
  | none => .error .unique
  | some servers => commit servers db.allocations

def isDeleting (server : Id) : Bool :=
  (db.servers.find? server).any fun row => row.status = .deleting

end Database

def checkName (name : List Char) : Except Failure (List Char) :=
  let trimmed := trim name
  if trimmed.isEmpty || MAX_NAME < trimmed.length then
    .error (.badRequest "invalid_name" s!"a port name is 1 to {MAX_NAME} characters")
  else if trimmed.any isControl then
    .error (.badRequest "invalid_name" "a port name has no control characters")
  else .ok trimmed

def unknown (port : Port) : Failure :=
  .notFound "allocation_not_found" s!"this server has no port {port}"

/-- The first port of the range that no row and no other process of the machine has. -/
def nextFree (db : Database) (range : PortRange) (busy : List Port) : Except Failure Port :=
  let taken := (db.allocations.select fun row => range.contains row.port).map AllocationRow.port
  match range.ports.find? fun port => !taken.contains port && !busy.contains port with
  | some port => .ok port
  | none => .error (.conflict "port_pool_exhausted" "no port of the pool is free")

/-- The port a request asks for, checked. `busy` are the ports another process of the machine
listens on. -/
def askedPort (asked : Int) (pool : PortRange) (callerIsAdmin : Bool) (busy : List Port) :
    Except Failure Port :=
  if asked < MIN_PORT ∨ 65535 < asked then
    .error (.badRequest "invalid_port" s!"{asked} is outside 1024-65535")
  else
    let wanted := asked.toNat
    if !pool.contains wanted && !callerIsAdmin then
      .error ⟨403, "port_out_of_pool", s!"{wanted} is not one of the ports this panel hands out"⟩
    else if busy.contains wanted then
      .error (.conflict "port_unavailable" s!"another process on this machine holds {wanted}")
    else .ok wanted

def takenHere (port : Port) : Violation → Failure
  | .unique => .conflict "port_in_use" s!"{port} belongs to another server here"
  | .foreignKey => .internal

/-- `create`, one transaction. -/
def create (db : Database) (server : Id) (pool : PortRange) (request : CreateAllocationRequest)
    (callerIsAdmin : Bool) (busy : List Port) : Except Failure (Database × Allocation) := do
  let name ← checkName request.name
  refuse (PER_SERVER ≤ db.held server)
    (.conflict "allocation_limit" s!"a server keeps at most {PER_SERVER} ports")
  let port ← request.port.elim (nextFree db pool busy)
    fun asked => askedPort asked pool callerIsAdmin busy
  let db ← (db.insertAllocation { port, serverId := server, name }).mapError (takenHere port)
  return (db, ⟨port, name⟩)

/-- `UPDATE allocations SET name = ? WHERE server_id = ? AND port = ?`. -/
def named (server : Id) (port : Port) (name : List Char) (row : AllocationRow) : AllocationRow :=
  if row.serverId = server && row.port = port then { row with name } else row

theorem named_port (server : Id) (port : Port) (name : List Char) (row : AllocationRow) :
    (named server port name row).port = row.port := by
  unfold named
  split <;> rfl

def rename (db : Database) (server : Id) (port : Port) (name : List Char) :
    Except Failure (Database × Allocation) := do
  let name ← checkName name
  refuse (db.find server port = none) (unknown port)
  let db ← (Database.commit db.servers (db.allocations.map (named server port name)
    (named_port server port name))).mapError fun _ => .internal
  return (db, ⟨port, name⟩)

/-- The first statement of `remove`: whether the port may go. -/
def mayRemove (db : Database) (server : Id) (port : Port) : Except Failure Unit :=
  match db.find server port with
  | none => .error (unknown port)
  | some row =>
    if row.isPrimary then
      .error (.conflict "primary_allocation" "the primary port is swapped, not deleted")
    else .ok ()

/-- The second: `DELETE FROM allocations WHERE server_id = ? AND port = ?`. -/
def remove (db : Database) (server : Id) (port : Port) : Except Violation Database :=
  Database.commit db.servers
    (db.allocations.discard fun row => row.serverId = server && row.port = port)

/-- `UPDATE allocations SET is_primary = 0 WHERE server_id = ? AND is_primary = 1`. -/
def clearPrimary (server : Id) (row : AllocationRow) : AllocationRow :=
  if row.serverId = server && row.isPrimary then { row with isPrimary := false } else row

/-- `UPDATE allocations SET is_primary = 1 WHERE server_id = ? AND port = ?`. -/
def markPrimary (server : Id) (port : Port) (row : AllocationRow) : AllocationRow :=
  if row.serverId = server && row.port = port then { row with isPrimary := true } else row

theorem clearPrimary_port (server : Id) (row : AllocationRow) :
    (clearPrimary server row).port = row.port := by
  unfold clearPrimary
  split <;> rfl

theorem markPrimary_port (server : Id) (port : Port) (row : AllocationRow) :
    (markPrimary server port row).port = row.port := by
  unfold markPrimary
  split <;> rfl

/-- `set_primary`, one transaction. `published` says that the server has a row in
`playit_tunnels`. -/
def setPrimary (db : Database) (server : Id) (port : Port) (published : Bool) :
    Except Failure Database := do
  refuse (db.find server port = none) (unknown port)
  refuse ((db.find server port).any AllocationRow.isPrimary)
    (.conflict "already_primary" s!"{port} is already primary")
  refuse published
    (.conflict "playit_tunnel_exists"
      ("this server has a public address through playit.gg; give that address back " ++
        "before swapping the primary port"))
  let db ← (Database.commit db.servers (db.allocations.map (clearPrimary server)
    (clearPrimary_port server))).mapError fun _ => .internal
  (Database.commit db.servers (db.allocations.map (markPrimary server port)
    (markPrimary_port server port))).mapError fun _ => .internal

/-- The loop of `next_free_port` over the ports of the pool and the taken ones, both ascending. -/
def firstGap : List Port → List Port → Option Port
  | [], _ => none
  | candidate :: _, [] => some candidate
  | candidate :: candidates, port :: used =>
    if port = candidate then firstGap candidates used else some candidate

def nextFreePort (db : Database) (pool : PortRange) : Except Failure Port :=
  let taken := (db.allocations.select fun row => pool.contains row.port).map AllocationRow.port
  match firstGap pool.ports (taken.insertionSort (· ≤ ·)) with
  | some port => .ok port
  | none => .error (.conflict "port_pool_exhausted" "the port pool has nothing free left")

def takenPort : Violation → Failure
  | .unique => .conflict "port_in_use" "that port belongs to another server"
  | .foreignKey => .internal

/-- The rows that `create` of `servers/manager.rs` inserts in one immediate transaction. -/
def createServer (db : Database) (server : Id) (wish : Option Port) (pool : PortRange) :
    Except Failure Database := do
  refuse (wish.any (· < MIN_PORT)) (.badRequest "invalid_port" "a port is 1024 to 65535")
  let port ← wish.elim (nextFreePort db pool) .ok
  let db ← (db.insertServer { id := server, status := .installing }).mapError fun _ => .internal
  let name := "primary".toList
  (db.insertAllocation { port, serverId := server, name, isPrimary := true }).mapError takenPort

def condemned (row : ServerRow) : ServerRow := { row with status := .deleting }

theorem condemned_id (row : ServerRow) : (condemned row).id = row.id := rfl

/-- The transaction of `delete`: the row says that it goes, and its ports are free. -/
def deleteServer (db : Database) (server : Id) : Except Violation Database :=
  Database.commit (db.servers.modify server condemned condemned_id)
    (db.allocations.discard (Database.portOf server))

/-- `DELETE FROM servers WHERE id = ?`, and `ON DELETE CASCADE`. -/
def eraseServer (db : Database) (server : Id) : Except Violation Database :=
  Database.commit (db.servers.erase server) (db.allocations.discard (Database.portOf server))

/-- The statements with which the creating operation ends. -/
inductive Settling
  /-- The last statement of the job. -/
  | available
  /-- `mark_broken`, `… AND status <> 'deleting'`. -/
  | broken
  /-- `clean_up_after`, once the panel was restarted. -/
  | interrupted
  deriving DecidableEq

def Settling.status : Settling → ServerStatus
  | .available => .available
  | .broken | .interrupted => .broken

def Settling.spares : Settling → Bool
  | .broken => true
  | .available | .interrupted => false

def Settling.apply (settling : Settling) (row : ServerRow) : ServerRow :=
  if settling.spares && row.status = .deleting then row
  else { row with status := settling.status }

theorem Settling.apply_id (settling : Settling) (row : ServerRow) :
    (settling.apply row).id = row.id := by
  unfold Settling.apply
  split <;> rfl

def settleServer (db : Database) (server : Id) (settling : Settling) :
    Except Violation Database :=
  Database.commit (db.servers.modify server settling.apply settling.apply_id) db.allocations

/-- `removals` are the requests that have found their port not to be the primary one. -/
structure System where
  db : Database := {}
  removals : List (Id × Port) := []

inductive Event
  | createsServer (server : Id) (wish : Option Port) (pool : PortRange)
  | settles (server : Id) (settling : Settling)
  | adds (server : Id) (pool : PortRange) (request : CreateAllocationRequest)
      (callerIsAdmin : Bool) (busy : List Port)
  | renames (server : Id) (port : Port) (name : List Char)
  | looks (server : Id) (port : Port)
  | removes (k : Nat)
  | swaps (server : Id) (port : Port) (published : Bool)
  | deletes (server : Id)
  | erases (server : Id)

namespace System

variable (s : System)

def committing {ε : Type} (outcome : Except ε Database) : System :=
  match outcome with
  | .ok db => { s with db }
  | .error _ => s

def step : Event → Option System
  | .createsServer server wish pool => some (s.committing (createServer s.db server wish pool))
  | .settles server settling => some (s.committing (settleServer s.db server settling))
  | .adds server pool request callerIsAdmin busy =>
    some (s.committing ((create s.db server pool request callerIsAdmin busy).map Prod.fst))
  | .renames server port name => some (s.committing ((rename s.db server port name).map Prod.fst))
  | .looks server port => match mayRemove s.db server port with
    | .ok () => some { s with removals := s.removals ++ [(server, port)] }
    | .error _ => some s
  | .removes k => match s.removals[k]? with
    | none => none
    | some (server, port) =>
      some { s.committing (remove s.db server port) with removals := s.removals.eraseIdx k }
  | .swaps server port published => some (s.committing (setPrimary s.db server port published))
  | .deletes server => some (s.committing (deleteServer s.db server))
  | .erases server => some (s.committing (eraseServer s.db server))

end System

def machine : Machine System Event := ⟨System.step⟩

/-- Every server that is not being deleted has one primary port and no more ports than it may, and
no port is another server's too. -/
structure Allotted (db : Database) : Prop where
  primary : ∀ row ∈ db.servers.rows, row.status ≠ .deleting → db.primaries row.id = 1
  held : ∀ row ∈ db.servers.rows, row.status ≠ .deleting → db.held row.id ≤ PER_SERVER
  apart : ∀ a ∈ db.allocations.rows, ∀ b ∈ db.allocations.rows,
    a.port = b.port → a.serverId = b.serverId

/-- The port that a removal has found not to be primary still is not when it goes, or its server is
going too; and no creation ends on a server that has been deleted in the meantime. -/
def heeds (s : System) : Event → Bool
  | .removes k => s.removals[k]?.all fun found =>
      s.db.isDeleting found.1 || !(s.db.find found.1 found.2).any AllocationRow.isPrimary
  | .settles server settling =>
      settling.spares || !s.db.isDeleting server || s.db.primaries server = 1
  | _ => true

section Steps

variable {db t : Database} {server : Id} {port : Port}

theorem commit_ok {servers : Table ServerRow.id} {allocations : Table AllocationRow.port}
    (h : Database.commit servers allocations = .ok t) :
    t.servers = servers ∧ t.allocations = allocations := by
  unfold Database.commit at h
  split at h
  · split at h
    · cases h
      exact ⟨rfl, rfl⟩
    · cases h
  · cases h

theorem insertAllocation_ok {row : AllocationRow} (h : db.insertAllocation row = .ok t) :
    t.servers = db.servers ∧ db.allocations.insert row = some t.allocations := by
  unfold Database.insertAllocation at h
  split at h
  · cases h
  next allocations hinsert =>
  obtain ⟨hservers, hallocations⟩ := commit_ok h
  rw [hallocations]
  exact ⟨hservers, hinsert⟩

theorem insertServer_ok {row : ServerRow} (h : db.insertServer row = .ok t) :
    db.servers.insert row = some t.servers ∧ t.allocations = db.allocations := by
  unfold Database.insertServer at h
  split at h
  · cases h
  next servers hinsert =>
  obtain ⟨hservers, hallocations⟩ := commit_ok h
  rw [hservers]
  exact ⟨hinsert, hallocations⟩

theorem create_ok {pool : PortRange} {request : CreateAllocationRequest} {callerIsAdmin : Bool}
    {busy : List Port} {made : Allocation}
    (h : create db server pool request callerIsAdmin busy = .ok (t, made)) :
    db.held server < PER_SERVER ∧ t.servers = db.servers ∧
      db.allocations.insert ⟨made.port, server, made.name, false⟩ = some t.allocations := by
  obtain ⟨name, -, h⟩ := bind_ok.mp h
  obtain ⟨_, hheld, h⟩ := bind_ok.mp h
  obtain ⟨port, -, h⟩ := bind_ok.mp h
  obtain ⟨after, hinsert, h⟩ := bind_ok.mp h
  obtain ⟨rfl, rfl⟩ := Prod.mk.inj (pure_ok.mp h)
  exact ⟨not_le.mp (refuse_ok.mp hheld), insertAllocation_ok (mapError_ok.mp hinsert)⟩

theorem rename_ok {name : List Char} {made : Allocation}
    (h : rename db server port name = .ok (t, made)) :
    t.servers = db.servers ∧ t.allocations =
      db.allocations.map (named server port made.name) (named_port server port made.name) := by
  obtain ⟨checked, -, h⟩ := bind_ok.mp h
  obtain ⟨-, -, h⟩ := bind_ok.mp h
  obtain ⟨after, hcommit, h⟩ := bind_ok.mp h
  obtain ⟨rfl, rfl⟩ := Prod.mk.inj (pure_ok.mp h)
  exact commit_ok (mapError_ok.mp hcommit)

theorem setPrimary_ok {published : Bool} (h : setPrimary db server port published = .ok t) :
    (∃ row, db.find server port = some row) ∧ t.servers = db.servers ∧
      t.allocations = (db.allocations.map (clearPrimary server) (clearPrimary_port server)).map
        (markPrimary server port) (markPrimary_port server port) := by
  obtain ⟨_, hfound, h⟩ := bind_ok.mp h
  obtain ⟨-, -, h⟩ := bind_ok.mp h
  obtain ⟨-, -, h⟩ := bind_ok.mp h
  obtain ⟨cleared, hclear, h⟩ := bind_ok.mp h
  obtain ⟨hservers, hallocations⟩ := commit_ok (mapError_ok.mp hclear)
  obtain ⟨hservers', hallocations'⟩ := commit_ok (mapError_ok.mp h)
  rw [hservers] at hservers'
  rw [hallocations] at hallocations'
  exact ⟨Option.ne_none_iff_exists'.mp (refuse_ok.mp hfound), hservers', hallocations'⟩

theorem createServer_ok {wish : Option Port} {pool : PortRange}
    (h : createServer db server wish pool = .ok t) :
    ∃ port, db.servers.insert { id := server, status := .installing } = some t.servers ∧
      db.allocations.insert ⟨port, server, "primary".toList, true⟩ = some t.allocations := by
  obtain ⟨-, -, h⟩ := bind_ok.mp h
  obtain ⟨port, -, h⟩ := bind_ok.mp h
  obtain ⟨between, hserver, h⟩ := bind_ok.mp h
  obtain ⟨hservers, hallocations⟩ := insertServer_ok (mapError_ok.mp hserver)
  obtain ⟨hservers', hallocations'⟩ := insertAllocation_ok (mapError_ok.mp h)
  rw [hallocations] at hallocations'
  rw [← hservers'] at hservers
  exact ⟨port, hservers, hallocations'⟩

/-- The bound is kept for servers that are being deleted too. -/
def Bounded (db : Database) : Prop := ∀ server, db.held server ≤ PER_SERVER

theorem primaries_eq_one :
    db.primaries server = 1 ↔ ∃ row ∈ db.allocations.rows, Database.primaryOf server row := by
  apply Table.count_eq_one_iff
  intro _ ha _ hb hpa hpb
  simp only [Database.primaryOf, Bool.and_eq_true, decide_eq_true_eq] at hpa hpb
  exact db.onePrimary _ ha _ hb hpa.2 hpb.2 (hpa.1.trans hpb.1.symm)

theorem ports_apart {a b : AllocationRow} (ha : a ∈ db.allocations.rows)
    (hb : b ∈ db.allocations.rows) (hport : a.port = b.port) : a = b := by
  have hfound := Table.find?_of_mem ha
  rw [hport, Table.find?_of_mem hb] at hfound
  exact (Option.some.inj hfound).symm

theorem Bounded.allotted (hbounded : Bounded db)
    (h : ∀ row ∈ db.servers.rows, row.status ≠ .deleting → db.primaries row.id = 1) :
    Allotted db where
  primary := h
  held := fun row _ _ => hbounded row.id
  apart := fun _ ha _ hb hport => congrArg AllocationRow.serverId (ports_apart ha hb hport)

/-- What every transaction but two leaves: the bound, and to each server that is not being deleted
the primary port it had. -/
structure Keeps (db t : Database) : Prop where
  bounded : Bounded db → Bounded t
  primary : ∀ row ∈ t.servers.rows, row.status ≠ .deleting →
    (∃ old ∈ db.servers.rows, old.id = row.id ∧ old.status ≠ .deleting ∧
      (db.primaries row.id = 1 → t.primaries row.id = 1)) ∨ t.primaries row.id = 1

theorem Keeps.allotted (h : Keeps db t) (hbounded : Bounded db) (hdb : Allotted db) :
    Allotted t := by
  apply (h.bounded hbounded).allotted
  intro row hrow hstatus
  rcases h.primary row hrow hstatus with ⟨old, hold, hid, hlives, hkeeps⟩ | hhas
  · apply hkeeps
    rw [← hid]
    exact hdb.primary old hold hlives
  · exact hhas

theorem keeps_of_servers (hservers : t.servers = db.servers)
    (hheld : ∀ server, db.held server ≤ PER_SERVER → t.held server ≤ PER_SERVER)
    (hprimary : ∀ server, db.primaries server = 1 → t.primaries server = 1) : Keeps db t where
  bounded := fun h server => hheld server (h server)
  primary := by
    intro row hrow hstatus
    rw [hservers] at hrow
    exact .inl ⟨row, hrow, rfl, hstatus, hprimary row.id⟩

theorem Keeps.refl : Keeps db db := keeps_of_servers rfl (fun _ h => h) fun _ h => h

theorem primaries_insert {row : AllocationRow} (h : db.allocations.insert row = some t.allocations)
    (hone : db.primaries server = 1) : t.primaries server = 1 := by
  obtain ⟨held, hheld, hprimary⟩ := primaries_eq_one.mp hone
  refine primaries_eq_one.mpr ⟨held, ?_, hprimary⟩
  rw [Table.rows_of_insert h]
  exact List.mem_append_left _ hheld

theorem keeps_create {pool : PortRange} {request : CreateAllocationRequest} {callerIsAdmin : Bool}
    {busy : List Port} {made : Allocation}
    (h : create db server pool request callerIsAdmin busy = .ok (t, made)) : Keeps db t := by
  obtain ⟨hroom, hservers, hinsert⟩ := create_ok h
  apply keeps_of_servers hservers
  · intro other hheld
    have hcount : t.held other = db.held other + if server = other then 1 else 0 := by
      simpa [Database.held, Database.portOf] using
        Table.count_insert (p := Database.portOf other) hinsert
    rw [hcount]
    by_cases hsame : server = other
    · subst hsame
      rw [if_pos rfl]
      omega
    · rw [if_neg hsame]
      exact hheld
  · exact fun _ => primaries_insert hinsert

theorem keeps_rename {name : List Char} {made : Allocation}
    (h : rename db server port name = .ok (t, made)) : Keeps db t := by
  obtain ⟨hservers, hallocations⟩ := rename_ok h
  have hcount : ∀ test : AllocationRow → Bool,
      (∀ row, test (named server port made.name row) = test row) →
      t.allocations.count test = db.allocations.count test := by
    intro test htest
    rw [hallocations]
    exact Table.count_map fun row _ => htest row
  apply keeps_of_servers hservers
  · intro other hheld
    have hsame : t.held other = db.held other := by
      apply hcount
      intro row
      unfold named Database.portOf
      split <;> rfl
    omega
  · intro other hone
    have hsame : t.primaries other = db.primaries other := by
      apply hcount
      intro row
      unfold named Database.primaryOf
      split <;> rfl
    omega

theorem find_some {row : AllocationRow} (h : db.find server port = some row) :
    row ∈ db.allocations.rows ∧ row.serverId = server ∧ row.port = port := by
  obtain ⟨hfind, hserver⟩ := Option.filter_eq_some_iff.mp h
  exact ⟨Table.find?_mem hfind, by simpa [Database.portOf] using hserver, Table.find?_key hfind⟩

theorem keeps_setPrimary {published : Bool} (h : setPrimary db server port published = .ok t) :
    Keeps db t := by
  obtain ⟨⟨found, hfound⟩, hservers, hallocations⟩ := setPrimary_ok h
  have hswap : ∀ row ∈ db.allocations.rows,
      markPrimary server port (clearPrimary server row) ∈ t.allocations.rows := by
    intro row hrow
    rw [hallocations]
    exact List.mem_map_of_mem (List.mem_map_of_mem hrow)
  apply keeps_of_servers hservers
  · intro other hheld
    have hsame : t.held other = db.held other := by
      rw [Database.held, hallocations, Table.count_map, Table.count_map]
      · rfl
      · intro row _
        unfold clearPrimary Database.portOf
        split <;> rfl
      · intro row _
        unfold markPrimary Database.portOf
        split <;> rfl
    omega
  · intro other hone
    obtain ⟨old, hold, hprimary⟩ := primaries_eq_one.mp hone
    by_cases hother : other = server
    · -- The port that is swapped in is the primary one, whichever it was before.
      obtain ⟨hrow, hserver, hport⟩ := find_some hfound
      refine primaries_eq_one.mpr ⟨_, hswap found hrow, ?_⟩
      unfold clearPrimary markPrimary Database.primaryOf
      grind
    · refine primaries_eq_one.mpr ⟨_, hswap old hold, ?_⟩
      unfold clearPrimary markPrimary
      unfold Database.primaryOf at hprimary ⊢
      grind

theorem held_eq_zero (habsent : server ∉ db.servers.rows.map ServerRow.id) : db.held server = 0 := by
  apply Table.count_eq_zero.mpr
  intro row hrow
  have hsome := db.belongs row hrow
  by_contra hport
  have hserver : row.serverId = server := by simpa [Database.portOf] using hport
  rw [hserver, Table.find?_none.mpr habsent] at hsome
  cases hsome

theorem keeps_createServer {wish : Option Port} {pool : PortRange}
    (h : createServer db server wish pool = .ok t) : Keeps db t := by
  obtain ⟨port, hserver, hinsert⟩ := createServer_ok h
  have hcount (other : Id) : t.held other = db.held other + if server = other then 1 else 0 := by
    simpa [Database.held, Database.portOf] using
      Table.count_insert (p := Database.portOf other) hinsert
  constructor
  · intro hbounded other
    rw [hcount]
    by_cases hsame : server = other
    · subst hsame
      rw [held_eq_zero (Table.fresh_of_insert hserver), if_pos rfl]
      decide
    · rw [if_neg hsame]
      exact hbounded other
  · intro row hrow hstatus
    rw [Table.rows_of_insert hserver] at hrow
    rcases List.mem_append.mp hrow with hold | hnew
    · exact .inl ⟨row, hold, rfl, hstatus, primaries_insert hinsert⟩
    obtain rfl := List.mem_singleton.mp hnew
    right
    refine primaries_eq_one.mpr ⟨⟨port, server, "primary".toList, true⟩, ?_, ?_⟩
    · rw [Table.rows_of_insert hinsert]
      exact List.mem_append_right _ List.mem_cons_self
    · simp [Database.primaryOf]

theorem held_discard (hallocations : t.allocations = db.allocations.discard (Database.portOf server))
    (hbounded : Bounded db) : Bounded t := by
  intro other
  have hle : t.held other ≤ db.held other := by
    rw [Database.held, hallocations]
    exact Table.count_discard_le _
  have := hbounded other
  omega

theorem primaries_discard
    (hallocations : t.allocations = db.allocations.discard (Database.portOf server)) {other : Id}
    (hother : other ≠ server) (hone : db.primaries other = 1) : t.primaries other = 1 := by
  obtain ⟨row, hrow, hprimary⟩ := primaries_eq_one.mp hone
  refine primaries_eq_one.mpr ⟨row, ?_, hprimary⟩
  rw [hallocations]
  apply List.mem_filter.mpr ⟨hrow, _⟩
  unfold Database.primaryOf at hprimary
  unfold Database.portOf
  grind

theorem keeps_deleteServer (h : deleteServer db server = .ok t) : Keeps db t := by
  obtain ⟨hservers, hallocations⟩ := commit_ok h
  constructor
  · exact held_discard hallocations
  · intro row hrow hstatus
    rw [hservers] at hrow
    obtain ⟨old, hold, rfl | ⟨-, rfl⟩⟩ := Table.mem_modify condemned_id hrow
    · left
      refine ⟨row, hold, rfl, hstatus, primaries_discard hallocations ?_⟩
      -- The row of the server itself is not what the update left.
      rintro rfl
      have hupdated := Table.find?_of_mem hrow
      rw [Table.find?_modify_same, Table.find?_of_mem hold] at hupdated
      have hsame := Option.some.inj hupdated
      rw [← hsame] at hstatus
      exact hstatus rfl
    · exact absurd rfl hstatus

theorem keeps_eraseServer (h : eraseServer db server = .ok t) : Keeps db t := by
  obtain ⟨hservers, hallocations⟩ := commit_ok h
  constructor
  · exact held_discard hallocations
  · intro row hrow hstatus
    rw [hservers] at hrow
    obtain ⟨hold, hne⟩ := List.mem_filter.mp hrow
    left
    exact ⟨row, hold, rfl, hstatus, primaries_discard hallocations (by simpa using hne)⟩

theorem mem_remove (h : remove db server port = .ok t) {row : AllocationRow}
    (hrow : row ∈ db.allocations.rows) (hstays : db.find server port ≠ some row) :
    row ∈ t.allocations.rows := by
  obtain ⟨-, hallocations⟩ := commit_ok h
  rw [hallocations]
  apply List.mem_filter.mpr ⟨hrow, _⟩
  by_contra hgone
  apply hstays
  obtain ⟨hserver, hport⟩ : row.serverId = server ∧ row.port = port := by simpa using hgone
  have hfind := Table.find?_of_mem hrow
  rw [hport] at hfind
  simp [Database.find, hfind, Database.portOf, hserver]

theorem bounded_remove (h : remove db server port = .ok t) (hbounded : Bounded db) :
    Bounded t := by
  obtain ⟨-, hallocations⟩ := commit_ok h
  intro other
  have hle : t.held other ≤ db.held other := by
    rw [Database.held, hallocations]
    exact Table.count_discard_le _
  have := hbounded other
  omega

theorem keeps_remove (h : remove db server port = .ok t)
    (hheeds : (db.find server port).any AllocationRow.isPrimary = false) : Keeps db t := by
  constructor
  · exact bounded_remove h
  · intro row hrow hstatus
    rw [(commit_ok h).1] at hrow
    left
    refine ⟨row, hrow, rfl, hstatus, fun hone => ?_⟩
    obtain ⟨held, hheld, hprimary⟩ := primaries_eq_one.mp hone
    refine primaries_eq_one.mpr ⟨held, mem_remove h hheld ?_, hprimary⟩
    intro hfound
    rw [hfound] at hheeds
    unfold Database.primaryOf at hprimary
    simp_all

theorem isDeleting_iff :
    db.isDeleting server = true ↔ ∃ row ∈ db.servers.rows, row.id = server ∧ row.status = .deleting := by
  unfold Database.isDeleting
  cases hfind : db.servers.find? server with
  | none =>
    refine iff_of_false (by simp) ?_
    rintro ⟨row, hrow, rfl, -⟩
    rw [Table.find?_of_mem hrow] at hfind
    cases hfind
  | some row =>
    have hid := Table.find?_key hfind
    constructor
    · intro hstatus
      exact ⟨row, Table.find?_mem hfind, hid, by simpa using hstatus⟩
    · rintro ⟨other, hother, rfl, hstatus⟩
      rw [Table.find?_of_mem hother] at hfind
      cases hfind
      simpa using hstatus

theorem commit_of {servers : Table ServerRow.id} {allocations : Table AllocationRow.port}
    (hone : ∀ a ∈ allocations.rows, ∀ b ∈ allocations.rows, a.isPrimary → b.isPrimary →
      a.serverId = b.serverId → a.port = b.port)
    (hbelongs : ∀ a ∈ allocations.rows, (servers.find? a.serverId).isSome) :
    ∃ t, Database.commit servers allocations = .ok t := by
  rw [Database.commit, dif_pos hone, dif_pos hbelongs]
  exact ⟨_, rfl⟩

theorem remove_commits : ∃ t, remove db server port = .ok t := by
  have hsub : ∀ row ∈ (db.allocations.discard fun row =>
      row.serverId = server && row.port = port).rows, row ∈ db.allocations.rows :=
    fun _ hrow => List.mem_of_mem_filter hrow
  apply commit_of
  · exact fun a ha b hb => db.onePrimary a (hsub a ha) b (hsub b hb)
  · exact fun a ha => db.belongs a (hsub a ha)

theorem settleServer_commits {settling : Settling} :
    ∃ t, settleServer db server settling = .ok t := by
  apply commit_of db.onePrimary
  intro a ha
  rw [Table.find?_modify]
  have := db.belongs a ha
  split
  · simpa using this
  · exact this

theorem allotted_remove_iff (h : remove db server port = .ok t) (hbounded : Bounded db)
    (hdb : Allotted db) :
    (db.isDeleting server || !(db.find server port).any AllocationRow.isPrimary) = true ↔
      Allotted t := by
  cases hprimary : (db.find server port).any AllocationRow.isPrimary with
  | false => exact iff_of_true (by simp) ((keeps_remove h hprimary).allotted hbounded hdb)
  | true =>
    obtain ⟨gone, hfound, hgone⟩ := (Option.any_eq_true _ _).mp hprimary
    obtain ⟨hrow, hserver, hport⟩ := find_some hfound
    obtain ⟨hservers, hallocations⟩ := commit_ok h
    simp only [Bool.not_true, Bool.or_false, isDeleting_iff]
    constructor
    · rintro ⟨dying, hdying, hid, hstatus⟩
      apply (bounded_remove h hbounded).allotted
      intro row hlives hlive
      rw [hservers] at hlives
      have hother : row.id ≠ server := by
        intro hsame
        have hfind := Table.find?_of_mem hlives
        rw [hsame, ← hid, Table.find?_of_mem hdying] at hfind
        cases hfind
        exact hlive hstatus
      obtain ⟨held, hheld, hpasses⟩ := primaries_eq_one.mp (hdb.primary row hlives hlive)
      refine primaries_eq_one.mpr ⟨held, mem_remove h hheld ?_, hpasses⟩
      rintro hsame
      have hthis := (find_some hsame).2.1
      unfold Database.primaryOf at hpasses
      grind
    · intro hafter
      -- The server has lost its only primary port, so its row must be one that goes.
      obtain ⟨row, hlives⟩ := Option.isSome_iff_exists.mp (db.belongs gone hrow)
      have hmem := Table.find?_mem hlives
      have hid : row.id = server := (Table.find?_key hlives).trans hserver
      refine ⟨row, hmem, hid, ?_⟩
      by_contra hlive
      have hone := hafter.primary row (hservers ▸ hmem) hlive
      obtain ⟨other, hother, hpasses⟩ := primaries_eq_one.mp hone
      rw [hallocations] at hother
      obtain ⟨hin, hkept⟩ := List.mem_filter.mp hother
      obtain ⟨hof, hmarked⟩ : other.serverId = row.id ∧ other.isPrimary = true := by
        simpa [Database.primaryOf] using hpasses
      have hsame := db.onePrimary other hin gone hrow hmarked hgone (by rw [hof, hid, hserver])
      simp [hof, hid, hsame, hport] at hkept

theorem settled_status {settling : Settling} {row : ServerRow}
    (hlive : (settling.apply row).status ≠ .deleting) :
    row.status ≠ .deleting ∨ settling.spares = false := by
  unfold Settling.apply at hlive
  grind

theorem allotted_settle_iff {settling : Settling} (h : settleServer db server settling = .ok t)
    (hbounded : Bounded db) (hdb : Allotted db) :
    (settling.spares || !db.isDeleting server || db.primaries server = 1) = true ↔
      Allotted t := by
  obtain ⟨hservers, hallocations⟩ := commit_ok h
  have hprimaries : ∀ other, t.primaries other = db.primaries other := by
    intro other
    rw [Database.primaries, hallocations]
    rfl
  have hheld : Bounded t := by
    intro other
    rw [Database.held, hallocations]
    exact hbounded other
  constructor
  · intro hheeds
    apply hheld.allotted
    intro row hrow hlive
    rw [hprimaries]
    rw [hservers] at hrow
    obtain ⟨old, hold, rfl | ⟨hid, rfl⟩⟩ := Table.mem_modify settling.apply_id hrow
    · exact hdb.primary row hold hlive
    rw [settling.apply_id]
    by_cases hdeleting : old.status = .deleting
    · have hdies : db.isDeleting server = true := isDeleting_iff.mpr ⟨old, hold, hid, hdeleting⟩
      have hwrites := (settled_status hlive).resolve_left (not_not.mpr hdeleting)
      rw [hid]
      simpa [hwrites, hdies] using hheeds
    · exact hdb.primary old hold hdeleting
  · intro hafter
    by_contra hnot
    obtain ⟨⟨hwrites, hdies⟩, hnone⟩ : (settling.spares = false ∧ db.isDeleting server = true) ∧
        db.primaries server ≠ 1 := by simpa using hnot
    obtain ⟨old, hold, hid, -⟩ := isDeleting_iff.mp hdies
    have hrow : settling.apply old ∈ t.servers.rows := by
      have hfind := Table.find?_modify_same db.servers old.id settling.apply settling.apply_id
      rw [Table.find?_of_mem hold] at hfind
      rw [hservers, ← hid]
      exact Table.find?_mem hfind
    have hlive : (settling.apply old).status ≠ .deleting := by
      unfold Settling.apply Settling.status
      cases settling <;> simp_all [Settling.spares]
    have hone := hafter.primary _ hrow hlive
    rw [settling.apply_id, hid, hprimaries] at hone
    exact hnone hone

end Steps

section Runs

variable {s t : System}

theorem keeps_committing {ε : Type} {outcome : Except ε Database}
    (h : ∀ db, outcome = .ok db → Keeps s.db db) : Keeps s.db (s.committing outcome).db := by
  cases outcome with
  | error e => exact Keeps.refl
  | ok db => exact h db rfl

theorem step_cases {e : Event} (h : machine.step s e = some t) :
    Keeps s.db t.db ∧ heeds s e = true ∨
      (∃ k server port, e = .removes k ∧ s.removals[k]? = some (server, port) ∧
        remove s.db server port = .ok t.db) ∨
      ∃ server settling, e = .settles server settling ∧
        settleServer s.db server settling = .ok t.db := by
  cases e with
  | createsServer server wish pool =>
    cases h
    exact .inl ⟨keeps_committing fun _ => keeps_createServer, rfl⟩
  | adds server pool request callerIsAdmin busy =>
    cases h
    refine .inl ⟨keeps_committing fun db hdb => ?_, rfl⟩
    obtain ⟨⟨after, made⟩, hmade, rfl⟩ := map_ok.mp hdb
    exact keeps_create hmade
  | renames server port name =>
    cases h
    refine .inl ⟨keeps_committing fun db hdb => ?_, rfl⟩
    obtain ⟨⟨after, made⟩, hmade, rfl⟩ := map_ok.mp hdb
    exact keeps_rename hmade
  | swaps server port published =>
    cases h
    exact .inl ⟨keeps_committing fun _ => keeps_setPrimary, rfl⟩
  | deletes server =>
    cases h
    exact .inl ⟨keeps_committing fun _ => keeps_deleteServer, rfl⟩
  | erases server =>
    cases h
    exact .inl ⟨keeps_committing fun _ => keeps_eraseServer, rfl⟩
  | looks server port =>
    simp only [machine, System.step] at h
    split at h
    · cases h
      exact .inl ⟨Keeps.refl, rfl⟩
    · cases h
      exact .inl ⟨Keeps.refl, rfl⟩
  | removes k =>
    simp only [machine, System.step] at h
    split at h
    · cases h
    next server port hfound =>
    cases h
    obtain ⟨db, hdb⟩ : ∃ db, remove s.db server port = .ok db := remove_commits
    refine .inr (.inl ⟨k, server, port, rfl, hfound, ?_⟩)
    rw [hdb]
    rfl
  | settles server settling =>
    cases h
    obtain ⟨db, hdb⟩ : ∃ db, settleServer s.db server settling = .ok db := settleServer_commits
    refine .inr (.inr ⟨server, settling, rfl, ?_⟩)
    rw [hdb]
    rfl

theorem bounded_step {e : Event} (hbounded : Bounded s.db) (h : machine.step s e = some t) :
    Bounded t.db := by
  rcases step_cases h with ⟨hkeeps, -⟩ | ⟨k, server, port, -, -, hdb⟩ | ⟨server, settling, -, hdb⟩
  · exact hkeeps.bounded hbounded
  · exact bounded_remove hdb hbounded
  · intro other
    rw [Database.held, (commit_ok hdb).2]
    exact hbounded other

theorem allotted_step_iff {e : Event} (hbounded : Bounded s.db) (hs : Allotted s.db)
    (h : machine.step s e = some t) : heeds s e = true ↔ Allotted t.db := by
  rcases step_cases h with ⟨hkeeps, hheeds⟩ | ⟨k, server, port, rfl, hfound, hdb⟩ |
    ⟨server, settling, rfl, hdb⟩
  · exact iff_of_true hheeds (hkeeps.allotted hbounded hs)
  · rw [← allotted_remove_iff hdb hbounded hs]
    simp [heeds, hfound]
  · rw [← allotted_settle_iff hdb hbounded hs]
    simp [heeds]

end Runs

/-- However the requests interleave: the runs in which no removal deletes a port that has become
the primary one, and no creation ends on a server that is being deleted, are the runs in which
every server that is not being deleted always has one primary port and at most `PER_SERVER`. -/
theorem ports_are_allotted_iff {s : System} {es : List Event} (hrun : machine.exec {} es = some s) :
    machine.Meets (fun s e => heeds s e = true) {} es ↔
      ∀ earlier u, earlier <+: es → machine.exec {} earlier = some u → Allotted u.db := by
  apply machine.meets_iff_always (I := fun s => Bounded s.db) bounded_step allotted_step_iff _ _ hrun
  · intro server
    exact Nat.zero_le _
  · constructor <;> intro row hrow <;> cases hrow

def pool : PortRange := ⟨25565, 25600⟩

/-- A server is created and given a second port, which is swapped in; the first one is removed. -/
def swappedFirst : List Event :=
  [.createsServer 1 none pool, .settles 1 .available, .adds 1 pool ⟨"voice".toList, none⟩ false [],
    .swaps 1 25566 false, .looks 1 25565, .removes 0]

theorem ports_are_allotted_swapped :
    (∃ s, machine.exec {} swappedFirst = some s ∧ s.db.primaries 1 = 1 ∧ s.db.held 1 = 1) ∧
      ∀ earlier u, earlier <+: swappedFirst → machine.exec {} earlier = some u → Allotted u.db := by
  have hok : machine.Meets (fun s e => heeds s e = true) {} swappedFirst := by decide +kernel
  have hend : machine.Ends {} swappedFirst fun s => s.db.primaries 1 = 1 ∧ s.db.held 1 = 1 := by
    decide +kernel
  obtain ⟨s, hrun, hports⟩ := hend
  exact ⟨⟨s, hrun, hports⟩, (ports_are_allotted_iff hrun).mp hok⟩

/-- The second port becomes the primary one between the two statements of its removal. -/
theorem swapped_port_is_removed :
    ¬ ∀ (es : List Event) (s : System), machine.exec {} es = some s → Allotted s.db := by
  intro hall
  have hend : machine.Ends {} [.createsServer 1 none pool, .settles 1 .available,
      .adds 1 pool ⟨"voice".toList, none⟩ false [], .looks 1 25566, .swaps 1 25566 false,
      .removes 0] fun s => s.db.servers.rows = [⟨1, .available⟩] ∧ s.db.primaries 1 = 0 := by
    decide +kernel
  obtain ⟨s, hrun, hrows, hnone⟩ := hend
  have hone := (hall _ s hrun).primary ⟨1, .available⟩ (hrows ▸ List.mem_cons_self) (by decide)
  rw [hnone] at hone
  cases hone

end CraftPanel.Settings.Allocations
