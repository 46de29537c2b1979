import CraftPanel.Framework.Moving
import CraftPanel.Ops.Writes

/-!
# Deleting a server

`delete`, `run`, `remove`, `resume_deletes` of `servers/manager.rs` beside everything else that
writes operations. The status of the server and the operation of its delete are written by
different statements at both ends of a run. The runs that leave no server behind in `deleting`
without a delete that goes on or has failed are the runs that are not cut between them.
-/

namespace CraftPanel.Servers.Deleting

open Framework Ops

/-- The task of a delete: the handler between its two statements, a run of `remove`, and a run
with an error that it has yet to write down. -/
inductive Task
  | requested (server : Id) (keepBackups : Bool) (caller : Id)
  | removing (operation server : Id)
  | removed (operation server : Id)
  | finished (operation server : Id)
  | failing (operation server : Id) (error : OperationError)

structure System where
  ops : Ops.System
  tasks : List Task := []
  /-- What `resume_deletes` has read and not come to yet. -/
  resuming : List (Id × OperationState) := []
  /-- The ids that operations were given so far. -/
  issued : List Id := []
  /-- The servers that hold a port, that have a directory, and that have one for backups. -/
  allocations : List Id := []
  trees : List Id := []
  backupTrees : List Id := []

inductive Event
  | deletes (server caller : Id) (keepBackups : Bool) (current : RunState) (now : Timestamp)
  | creates (i : Nat) (id : Id) (now : Timestamp) (ok : Bool)
  | runs (id : Id) (now : Timestamp)
  | resumeReads
  | resumes (now : Timestamp)
  | removes (i : Nat) (outcome : Option OperationError)
  | finishes (i : Nat) (now : Timestamp) (outcome : Option OperationError)
  | erases (i : Nat) (outcome : Option OperationError)
  | fails (i : Nat) (now : Timestamp) (ok : Bool)
  | crashes
  | other (e : Ops.Event)
  | marks (server : Id) (status : ServerStatus)
  | purges (before : Timestamp)
  | drops (server : Id)

def inputText (keepBackups : Bool) : String :=
  if keepBackups then "\x7b\"keep_backups\":true\x7d" else "\x7b\"keep_backups\":false\x7d"

/-- What `input` reads back: backups are kept unless the request said otherwise. -/
def keepsBackups (row : OperationRow) : Bool := row.input ≠ some (inputText false)

def newDelete (server caller : Id) (keepBackups : Bool) : NewOperation where
  serverId := server
  kind := .serverDelete
  startedBy := some caller
  input := some (inputText keepBackups)

def internalError : OperationError := ⟨"loader_install_failed", "internal error", .internal⟩

/-- `ON DELETE SET NULL` for the backups that go with their server. -/
def dropTargets (gone : List Id) (row : OperationRow) : OperationRow :=
  if row.targetId.any (· ∈ gone) then { row with targetId := none } else row

theorem dropTargets_id (gone : List Id) (row : OperationRow) :
    (dropTargets gone row).id = row.id := by
  unfold dropTargets
  split <;> rfl

/-- `DELETE FROM servers WHERE id = ?` with the schema's foreign keys. -/
def eraseServer (db : Database) (server : Id) : Database :=
  let backups := (db.backups.select (·.serverId = server)).map (·.id)
  let runs := (db.operations.select (·.serverId = server)).map (·.id)
  { db with
    servers := db.servers.erase server
    backups := db.backups.discard (·.serverId = server)
    uploads := db.uploads.discard (·.backupId ∈ backups)
    operations := (((db.operations.discard (·.serverId = server)).map (dropParent runs)
      (dropParent_id runs)).map (dropTargets backups) (dropTargets_id backups)) }

namespace System

variable (s : System)

def withDb (db : Database) : System := { s with ops := { s.ops with db } }

/-- The first transaction of `delete`, under the server's gate. -/
def deletes (server caller : Id) (keepBackups : Bool) (current : RunState) (now : Timestamp) :
    System :=
  match guardWrite s.ops.db server, s.ops.db.servers.find? server with
  | .ok (), some _ =>
    if current.isLive then s
    else { s.withDb (s.ops.db.updateServer server
        (fun row => { row with status := .deleting, updatedAt := now }) fun _ => rfl) with
      allocations := s.allocations.filter (· ≠ server)
      tasks := s.tasks ++ [.requested server keepBackups caller] }
  | _, _ => s

/-- `create`, or the request is given up before it. -/
def creates (i : Nat) (id : Id) (now : Timestamp) (ok : Bool) : Option System :=
  match s.tasks[i]? with
  | some (.requested server keepBackups caller) =>
    if id ∈ s.issued then none
    else
      let rest := { s with tasks := s.tasks.eraseIdx i, issued := id :: s.issued }
      some (if ok then rest.withDb (after s.ops.db (insert (newDelete server caller keepBackups) id now))
        else rest)
  | _ => none

/-- `run` of an operation that is a delete. -/
def runs (id : Id) (now : Timestamp) : Option System :=
  match s.ops.db.operations.find? id with
  | some row =>
    if row.kind = .serverDelete then
      match begin id now s.ops.db with
      | .ok (db, some _) => some { s.withDb db with
          tasks := s.tasks ++ [.removing id row.serverId] }
      | _ => some s
    else none
  | none => some s

def resumeReads : Option System :=
  match s.resuming with
  | [] => some { s with resuming :=
      ((s.ops.db.operations.select fun row => row.kind = .serverDelete && row.state.isOpen).mergeSort
        fun a b => a.id ≤ b.id).map fun row => (row.id, row.state) }
  | _ => none

/-- A queued delete is begun, one that was under way goes on where it can be found. -/
def resumes (now : Timestamp) : Option System :=
  match s.resuming with
  | (id, state) :: rest =>
    let next := { s with resuming := rest }
    if state = .queued then next.runs id now
    else match s.ops.db.operations.find? id with
      | some row => some { next with tasks := s.tasks ++ [.removing id row.serverId] }
      | none => some next
  | [] => none

def setTask (i : Nat) (task : Task) : System := { s with tasks := s.tasks.set i task }

/-- `remove` up to the end of its work on the disk. -/
def removes (i : Nat) (outcome : Option OperationError) : Option System :=
  match s.tasks[i]? with
  | some (.removing id server) =>
    match outcome, s.ops.db.servers.find? server with
    | some error, _ => some (s.setTask i (.failing id server error))
    | none, none => some (s.setTask i (.failing id server internalError))
    | none, some _ => some { s.setTask i (.removed id server) with
        trees := s.trees.filter (· ≠ server)
        backupTrees := if (s.ops.db.operations.find? id).all keepsBackups then s.backupTrees
          else s.backupTrees.filter (· ≠ server) }
  | _ => none

def finishes (i : Nat) (now : Timestamp) (outcome : Option OperationError) : Option System :=
  match s.tasks[i]? with
  | some (.removed id server) =>
    match outcome, Ops.finish id now s.ops.db with
    | none, .ok (db, _) => some ((s.withDb db).setTask i (.finished id server))
    | none, .error _ => some (s.setTask i (.failing id server internalError))
    | some error, _ => some (s.setTask i (.failing id server error))
  | _ => none

def erases (i : Nat) (outcome : Option OperationError) : Option System :=
  match s.tasks[i]? with
  | some (.finished id server) =>
    match outcome with
    | none => some { s.withDb (eraseServer s.ops.db server) with tasks := s.tasks.eraseIdx i }
    | some error => some (s.setTask i (.failing id server error))
  | _ => none

def fails (i : Nat) (now : Timestamp) (ok : Bool) : Option System :=
  match s.tasks[i]? with
  | some (.failing id _ error) =>
    let rest := { s with tasks := s.tasks.eraseIdx i }
    some (if ok then rest.withDb (after s.ops.db (Ops.fail id error now)) else rest)
  | _ => none

/-- A run or a handler of anything else settles no delete, and every row gets an id of its own. -/
def isOther : Ops.Event → Bool
  | .begin id _ | .finish id _ | .fail id _ _ | .cancelled id _ =>
    (s.ops.db.operations.find? id).all (·.kind ≠ .serverDelete)
  | .create new id _ => new.kind ≠ .serverDelete && id ∉ s.issued
  | .handlerMoves _ fresh _ _ => fresh ∉ s.issued
  | _ => true

def issues : Ops.Event → List Id
  | .create _ id _ => [id]
  | .handlerMoves _ fresh _ _ => [fresh]
  | _ => []

def step : Event → Option System
  | .deletes server caller keepBackups current now =>
    some (s.deletes server caller keepBackups current now)
  | .creates i id now ok => s.creates i id now ok
  | .runs id now => s.runs id now
  | .resumeReads => s.resumeReads
  | .resumes now => s.resumes now
  | .removes i outcome => s.removes i outcome
  | .finishes i now outcome => s.finishes i now outcome
  | .erases i outcome => s.erases i outcome
  | .fails i now ok => s.fails i now ok
  | .crashes => some { s with ops := { db := s.ops.db }, tasks := [], resuming := [] }
  | .other e => if s.isOther e then
      (s.ops.step e).map fun ops => { s with ops, issued := issues e ++ s.issued }
    else none
  | .marks server status => if status = .deleting then none
    else some (s.withDb (s.ops.db.updateServer server (fun row => { row with status }) fun _ => rfl))
  | .purges before => some (s.withDb (purgeFinished before s.ops.db))
  | .drops server => some (s.withDb (eraseServer s.ops.db server))

end System

def machine : Machine System Event := ⟨System.step⟩

/-- The server whose delete stands between writing its status and creating its operation, or
between finishing its operation and deleting its row. -/
def Task.between : Task → Option Id
  | .requested server _ _ | .finished _ server | .failing _ server _ => some server
  | .removing _ _ | .removed _ _ => none

/-- There is a delete of the server that is open, or that shows as failed. -/
def Pends (db : Database) (server : Id) : Prop :=
  ∃ id row, db.operations.find? id = some row ∧ row.serverId = server ∧
    row.kind = .serverDelete ∧ isPending row = true

def Held (db : Database) (tasks : List Task) (server : Id) : Prop :=
  Pends db server ∨ ∃ task ∈ tasks, task.between = some server

/-- Every server in `deleting` has a delete that can be resumed or tried again, unless one of the
panel's own tasks is just between two statements for it. -/
def NoneHangs (s : System) : Prop :=
  ∀ server, statusOf s.ops.db server = some .deleting → Held s.ops.db s.tasks server

/-- Of the tasks that go, those that stand between two statements leave their servers with another
delete that is open or has failed. -/
def LetGo (s : System) (remaining : List Task) : Prop :=
  ∀ task ∈ s.tasks, ∀ server, task.between = some server →
    statusOf s.ops.db server = some .deleting → Held s.ops.db remaining server

def System.findsRow (s : System) (i : Nat) : Bool :=
  match s.tasks[i]? with
  | some (.failing id _ _) => (s.ops.db.operations.find? id).isSome
  | _ => true

/-- Neither does the panel stop, nor does a statement fail, with a delete between two
statements. -/
def NotCut (s : System) : Event → Prop
  | .crashes => LetGo s []
  | .creates i _ _ ok => ok = true ∨ LetGo s (s.tasks.eraseIdx i)
  | .fails i _ ok => (ok && s.findsRow i) = true ∨ LetGo s (s.tasks.eraseIdx i)
  | _ => True

instance (db : Database) (server : Id) : Decidable (Pends db server) :=
  decidable_of_iff (∃ row ∈ db.operations.rows, row.serverId = server ∧ row.kind = .serverDelete ∧
      isPending row = true)
    ⟨fun ⟨row, hrow, hpending⟩ => ⟨row.id, row, Table.find?_of_mem hrow, hpending⟩,
      fun ⟨_, row, hrow, hpending⟩ => ⟨row, Table.find?_mem hrow, hpending⟩⟩

instance (db : Database) (tasks : List Task) (server : Id) : Decidable (Held db tasks server) :=
  inferInstanceAs (Decidable (_ ∨ _))

instance (s : System) (remaining : List Task) : Decidable (LetGo s remaining) :=
  inferInstanceAs (Decidable (∀ task ∈ s.tasks, ∀ server ∈ task.between,
    statusOf s.ops.db server = some .deleting → Held s.ops.db remaining server))

instance (s : System) (e : Event) : Decidable (NotCut s e) := by
  cases e <;> unfold NotCut <;> infer_instance

def Task.run : Task → Option (Id × Id)
  | .requested _ _ _ => none
  | .removing id server | .removed id server | .finished id server | .failing id server _ =>
    some (id, server)

/-- An id that was given out, with what holds of its row as long as there is one. -/
def Known (s : System) (id : Id) (P : OperationKind → Id → Prop) : Prop :=
  id ∈ s.issued ∧ ∀ row, s.ops.db.operations.find? id = some row → P row.kind row.serverId

/-- What the tasks remember of the operations they were started for stays true of the rows. -/
structure Inv (s : System) : Prop where
  issued : ∀ id row, s.ops.db.operations.find? id = some row → id ∈ s.issued
  tasks : ∀ task ∈ s.tasks, ∀ id server, task.run = some (id, server) →
    Known s id fun kind of => kind = .serverDelete ∧ of = server
  resuming : ∀ id state, (id, state) ∈ s.resuming → Known s id fun kind _ => kind = .serverDelete
  cancels : ∀ seen, .cancel seen ∈ s.ops.handlers → Known s seen.id fun kind _ => kind ≠ .serverDelete

/-- Rows may go, and new ones get new ids: none changes its kind or its server. -/
structure Lasts (s t : System) : Prop where
  issued : ∀ id ∈ s.issued, id ∈ t.issued
  known : ∀ id row', t.ops.db.operations.find? id = some row' → id ∈ t.issued
  rows : ∀ id ∈ s.issued, ∀ row', t.ops.db.operations.find? id = some row' →
    ∃ row, s.ops.db.operations.find? id = some row ∧ row'.kind = row.kind ∧
      row'.serverId = row.serverId

section Lasting

variable {s t : System}

theorem Known.lasts {id : Id} {P : OperationKind → Id → Prop} (h : Known s id P)
    (hlasts : Lasts s t) : Known t id P := by
  obtain ⟨hissued, hrow⟩ := h
  refine ⟨hlasts.issued id hissued, fun row' hrow' => ?_⟩
  obtain ⟨row, hfind, hkind, hserver⟩ := hlasts.rows id hissued row' hrow'
  rw [hkind, hserver]
  exact hrow row hfind

theorem lasts_of_same (hinv : Inv s) (hissued : ∀ id ∈ s.issued, id ∈ t.issued)
    (hops : t.ops.db.operations = s.ops.db.operations) : Lasts s t where
  issued := hissued
  known id row' hrow' := hissued id (hinv.issued id row' (hops ▸ hrow'))
  rows _ _ row' hrow' := ⟨row', hops ▸ hrow', rfl, rfl⟩

theorem lasts_of_filtered (hinv : Inv s) (hissued : t.issued = s.issued)
    {keep : OperationRow → Bool} {f : OperationRow → OperationRow}
    (hf : ∀ r, (f r).kind = r.kind ∧ (f r).serverId = r.serverId)
    (hops : ∀ id, t.ops.db.operations.find? id =
      ((s.ops.db.operations.find? id).filter keep).map f) : Lasts s t := by
  have hold : ∀ id row', t.ops.db.operations.find? id = some row' →
      ∃ row, s.ops.db.operations.find? id = some row ∧ row'.kind = row.kind ∧
        row'.serverId = row.serverId := by
    intro id row' hrow'
    rw [hops] at hrow'
    obtain ⟨row, hfilter, rfl⟩ := Option.map_eq_some_iff.mp hrow'
    exact ⟨row, (Option.filter_eq_some_iff.mp hfilter).1, hf row⟩
  constructor
  · exact fun id hid => hissued ▸ hid
  · intro id row' hrow'
    obtain ⟨row, hrow, -⟩ := hold id row' hrow'
    exact hissued ▸ hinv.issued id row hrow
  · exact fun id _ row' hrow' => hold id row' hrow'

theorem lasts_of_writes {e : Ops.Event} (hinv : Inv s) (hwrites : Writes s.ops e t.ops.db)
    (hissued : t.issued = System.issues e ++ s.issued)
    (hfresh : ∀ id ∈ System.issues e, id ∉ s.issued) : Lasts s t := by
  have hnew : ∀ id new now, (e = .create new id now ∨ ∃ i carried, e = .handlerMoves i id carried now) →
      id ∈ System.issues e := by
    rintro id new now (rfl | ⟨i, carried, rfl⟩) <;> simp [System.issues]
  constructor
  · intro id hid
    rw [hissued]
    exact List.mem_append_right _ hid
  · intro id row' hrow'
    rw [hissued]
    rcases hwrites.row_before hrow' with ⟨row, hrow, -⟩ | ⟨new, now, hcreates⟩
    · exact List.mem_append_right _ (hinv.issued id row hrow)
    · exact List.mem_append_left _ (hnew id new now hcreates)
  · intro id hid row' hrow'
    rcases hwrites.row_before hrow' with hrow | ⟨new, now, hcreates⟩
    · exact hrow
    · exact absurd hid (hfresh id (hnew id new now hcreates))

theorem Inv.lasts (hinv : Inv s) (hlasts : Lasts s t)
    (htasks : ∀ task ∈ t.tasks, ∀ id server, task.run = some (id, server) →
      (∃ old ∈ s.tasks, old.run = some (id, server)) ∨
        Known t id fun kind of => kind = .serverDelete ∧ of = server)
    (hresuming : ∀ id state, (id, state) ∈ t.resuming →
      (id, state) ∈ s.resuming ∨ Known t id fun kind _ => kind = .serverDelete)
    (hcancels : ∀ seen, .cancel seen ∈ t.ops.handlers → .cancel seen ∈ s.ops.handlers ∨
      Known t seen.id fun kind _ => kind ≠ .serverDelete) : Inv t where
  issued := hlasts.known
  tasks task htask id server hrun := by
    rcases htasks task htask id server hrun with ⟨old, hold, hsame⟩ | hknown
    · exact (hinv.tasks old hold id server hsame).lasts hlasts
    · exact hknown
  resuming id state hmem := by
    rcases hresuming id state hmem with hold | hknown
    · exact (hinv.resuming id state hold).lasts hlasts
    · exact hknown
  cancels seen hmem := by
    rcases hcancels seen hmem with hold | hknown
    · exact (hinv.cancels seen hold).lasts hlasts
    · exact hknown

end Lasting

section Holding

variable {s t : System} {db db' : Database} {tasks : List Task} {server : Id}

/-- What one step has to show: it sends no server on its way that it does not hold, and whatever
held a server before still does, or something else holds it. -/
theorem NoneHangs.step (h : NoneHangs s)
    (hstatus : ∀ server, statusOf t.ops.db server = some .deleting →
      statusOf s.ops.db server = some .deleting ∨ Held t.ops.db t.tasks server)
    (hpends : ∀ server, Pends s.ops.db server → statusOf t.ops.db server = some .deleting →
      Held t.ops.db t.tasks server)
    (htasks : ∀ task ∈ s.tasks, ∀ server, task.between = some server →
      statusOf t.ops.db server = some .deleting → Held t.ops.db t.tasks server) :
    NoneHangs t := by
  intro server hdeleting
  rcases hstatus server hdeleting with hbefore | hheld
  · rcases h server hbefore with hpending | ⟨task, htask, hbetween⟩
    · exact hpends server hpending hdeleting
    · exact htasks task htask server hbetween hdeleting
  · exact hheld

theorem Pends.writes {e : Ops.Event} (hwrites : Writes s.ops e db')
    (hends : ∀ id row, s.ops.db.operations.find? id = some row → row.kind = .serverDelete →
      ¬ endsWell s.ops e id) (h : Pends s.ops.db server) : Pends db' server := by
  obtain ⟨id, row, hrow, hserver, hkind, hpending⟩ := h
  obtain ⟨row', hrow', hkind', hserver', hpending'⟩ :=
    hwrites.pending hrow hpending (hends id row hrow hkind)
  exact ⟨id, row', hrow', hserver'.trans hserver, hkind'.trans hkind, hpending'⟩

theorem find?_eraseServer (id : Id) : (eraseServer db server).operations.find? id =
    ((db.operations.find? id).filter fun row => !decide (row.serverId = server)).map fun row =>
      dropTargets ((db.backups.select (·.serverId = server)).map (·.id))
        (dropParent ((db.operations.select (·.serverId = server)).map (·.id)) row) := by
  simp only [eraseServer, Table.find?_map, Table.find?_discard, Option.map_map]
  rfl

theorem dropped_same (backups runs : List Id) (row : OperationRow) :
    (dropTargets backups (dropParent runs row)).kind = row.kind ∧
      (dropTargets backups (dropParent runs row)).serverId = row.serverId ∧
      (dropTargets backups (dropParent runs row)).state = row.state := by
  unfold dropTargets dropParent
  split <;> split <;> exact ⟨rfl, rfl, rfl⟩

theorem statusOf_eraseServer (other : Id) : statusOf (eraseServer db server) other =
    if other = server then none else statusOf db other := by
  unfold statusOf eraseServer
  by_cases hother : other = server
  · subst hother
    simp
  · simp only [if_neg hother]
    rw [Table.find?_erase_ne _ hother]

theorem Pends.eraseServer {other : Id} (hne : other ≠ server) (h : Pends db other) :
    Pends (eraseServer db server) other := by
  obtain ⟨id, row, hrow, hserver, hkind, hpending⟩ := h
  obtain ⟨hkind', hserver', hstate'⟩ := dropped_same
    ((db.backups.select (·.serverId = server)).map (·.id))
    ((db.operations.select (·.serverId = server)).map (·.id)) row
  refine ⟨id, _, ?_, hserver'.trans hserver, hkind'.trans hkind, ?_⟩
  · rw [find?_eraseServer, hrow, Option.filter_some_pos (by simp [hserver, hne])]
    rfl
  · simpa [isPending, hstate'] using hpending

theorem find?_purgeFinished (before : Timestamp) (id : Id) :
    (purgeFinished before db).operations.find? id =
      ((db.operations.find? id).filter fun row => !isOutdated db before row).map
        (dropParent ((db.operations.select (isOutdated db before)).map (·.id))) := by
  simp only [purgeFinished, Table.find?_map, Table.find?_discard]

theorem Pends.purgeFinished {before : Timestamp} (hdeleting : statusOf db server = some .deleting)
    (h : Pends db server) : Pends (purgeFinished before db) server := by
  obtain ⟨id, row, hrow, hserver, hkind, hpending⟩ := h
  have hkeep : isOutdated db before row = false := by
    unfold isOutdated isStandingFailure
    have hserver' : (db.servers.find? row.serverId).any (·.status = .deleting) = true := by
      rw [hserver]
      unfold statusOf at hdeleting
      cases hfind : db.servers.find? server <;> simp_all
    rw [hserver', hkind]
    cases hstate : row.state <;> simp_all [isPending, OperationState.isOpen, OperationState.isTerminal]
  refine ⟨id, dropParent ((db.operations.select (isOutdated db before)).map (·.id)) row, ?_, ?_⟩
  · rw [find?_purgeFinished, hrow, Option.filter_some_pos (by simp [hkeep])]
    rfl
  · unfold dropParent
    split <;> exact ⟨hserver, hkind, hpending⟩

end Holding

section Steps

variable {s t : System} {e : Ops.Event} {i : Nat} {id : Id} {now : Timestamp}

theorem not_endsWell (hinv : Inv s) (hfinish : ∀ time, e ≠ .finish id time)
    (hcancelled : ∀ time, e ≠ .cancelled id time) {row : OperationRow}
    (hrow : s.ops.db.operations.find? id = some row) (hkind : row.kind = .serverDelete) :
    ¬ endsWell s.ops e id := by
  rintro (⟨time, he | he⟩ | ⟨seen, hseen, rfl, -⟩)
  · exact hfinish time he
  · exact hcancelled time he
  · exact (hinv.cancels seen hseen).2 row hrow hkind

theorem not_endsWell_of_isOther (hinv : Inv s) (hother : s.isOther e = true) {row : OperationRow}
    (hrow : s.ops.db.operations.find? id = some row) (hkind : row.kind = .serverDelete) :
    ¬ endsWell s.ops e id := by
  refine not_endsWell hinv (fun time he => ?_) (fun time he => ?_) hrow hkind
  all_goals
    subst he
    simp [System.isOther, hrow, hkind] at hother

theorem isOther_fresh (hother : s.isOther e = true) : ∀ j ∈ System.issues e, j ∉ s.issued := by
  intro j hj
  cases e <;> simp_all [System.issues, System.isOther]

theorem runs_cases (h : s.runs id now = some t) :
    t = s ∨ ∃ row db, s.ops.db.operations.find? id = some row ∧ row.kind = .serverDelete ∧
      db = after s.ops.db (begin id now) ∧
      t = { s.withDb db with tasks := s.tasks ++ [.removing id row.serverId] } := by
  unfold System.runs at h
  split at h
  · rename_i row hrow
    split at h
    · rename_i hkind
      split at h
      · rename_i db started htx
        cases h
        exact .inr ⟨row, db, hrow, hkind, (after_of_ok htx).symm, rfl⟩
      · exact .inl (Option.some.inj h).symm
    · simp at h
  · exact .inl (Option.some.inj h).symm

theorem mem_resuming_of_reads {state : OperationState} (h : s.resumeReads = some t)
    (hmem : (id, state) ∈ t.resuming) : ∃ row, s.ops.db.operations.find? id = some row ∧
      row.kind = .serverDelete := by
  unfold System.resumeReads at h
  split at h
  · cases h
    obtain ⟨row, hrow, heq⟩ := List.mem_map.mp hmem
    cases heq
    have hselected := List.mem_filter.mp (List.mem_mergeSort.mp hrow)
    have hkind : row.kind = .serverDelete := by simpa using (Bool.and_eq_true_iff.mp hselected.2).1
    exact ⟨row, Table.find?_of_mem hselected.1, hkind⟩
  · simp at h

theorem inv_of_runs (hinv : Inv s) (h : s.runs id now = some t) : Inv t := by
  rcases runs_cases h with rfl | ⟨row, db, hrow, hkind, rfl, rfl⟩
  · exact hinv
  have hlasts : Lasts s { s.withDb (after s.ops.db (begin id now)) with
      tasks := s.tasks ++ [.removing id row.serverId] } :=
    lasts_of_writes hinv (.begins id now rfl) rfl (by simp [System.issues])
  have hknown : Known s id fun kind of => kind = .serverDelete ∧ of = row.serverId := by
    refine ⟨hinv.issued id row hrow, fun other hother => ?_⟩
    obtain rfl := Option.some.inj (hrow.symm.trans hother)
    exact ⟨hkind, rfl⟩
  refine hinv.lasts hlasts (fun task htask j server hrun => ?_) (fun _ _ => .inl) fun _ => .inl
  rcases List.mem_append.mp htask with hold | hnew
  · exact .inl ⟨task, hold, hrun⟩
  · obtain rfl := List.mem_singleton.mp hnew
    cases hrun
    exact .inr (hknown.lasts hlasts)

theorem Inv.keeps (hinv : Inv s) (hlasts : Lasts s t) (htasks : t.tasks.Sublist s.tasks)
    (hresuming : t.resuming.Sublist s.resuming) (hhandlers : t.ops.handlers.Sublist s.ops.handlers) :
    Inv t := by
  refine hinv.lasts hlasts (fun task htask j server hrun => ?_) ?_ ?_
  · exact .inl ⟨task, htasks.subset htask, hrun⟩
  · exact fun _ _ hmem => .inl (hresuming.subset hmem)
  · exact fun _ hmem => .inl (hhandlers.subset hmem)

theorem Inv.moves {old new : Task} (hinv : Inv s) (hlasts : Lasts s t)
    (hi : s.tasks[i]? = some old) (htasks : t.tasks = s.tasks.set i new) (hsame : new.run = old.run)
    (hresuming : t.resuming = s.resuming) (hhandlers : t.ops.handlers = s.ops.handlers) : Inv t := by
  refine hinv.lasts hlasts (fun task htask j server hrun => ?_) ?_ ?_
  · rcases List.mem_or_eq_of_mem_set (htasks ▸ htask) with hold | rfl
    · exact .inl ⟨task, hold, hrun⟩
    · exact .inl ⟨old, List.mem_of_getElem? hi, hsame ▸ hrun⟩
  · exact fun _ _ hmem => .inl (hresuming ▸ hmem)
  · exact fun _ hmem => .inl (hhandlers ▸ hmem)

theorem inv_deletes (hinv : Inv s) (server caller : Id) (keepBackups : Bool) (current : RunState) :
    Inv (s.deletes server caller keepBackups current now) := by
  unfold System.deletes
  split
  · split
    · exact hinv
    refine hinv.lasts (lasts_of_same hinv (fun _ hid => hid) rfl) (fun task htask j of hrun => ?_)
      (fun _ _ => .inl) fun _ => .inl
    rcases List.mem_append.mp htask with hold | hnew
    · exact .inl ⟨task, hold, hrun⟩
    · obtain rfl := List.mem_singleton.mp hnew
      simp [Task.run] at hrun
  · exact hinv

theorem lasts_creates (hinv : Inv s) {server caller : Id} {keepBackups : Bool}
    (hfresh : id ∉ s.issued) (tasks : List Task) :
    Lasts s ({ s with tasks, issued := id :: s.issued }.withDb
      (after s.ops.db (insert (newDelete server caller keepBackups) id now))) := by
  refine lasts_of_writes (e := .create (newDelete server caller keepBackups) id now) hinv
    (.inserts _ id now (.inl rfl)) rfl ?_
  simpa [System.issues] using hfresh

theorem inv_creates {ok : Bool} (hinv : Inv s) (h : s.creates i id now ok = some t) : Inv t := by
  unfold System.creates at h
  split at h
  · split at h
    · simp at h
    rename_i hfresh
    cases h
    split
    · exact hinv.keeps (lasts_creates hinv hfresh _) (List.eraseIdx_sublist _ _) (.refl _) (.refl _)
    · exact hinv.keeps (lasts_of_same hinv (fun _ => List.mem_cons_of_mem _) rfl)
        (List.eraseIdx_sublist _ _) (.refl _) (.refl _)
  · simp at h

theorem inv_resumeReads (hinv : Inv s) (h : s.resumeReads = some t) : Inv t := by
  have hmem : ∀ j state, (j, state) ∈ t.resuming →
      ∃ row, s.ops.db.operations.find? j = some row ∧ row.kind = .serverDelete :=
    fun _ _ => mem_resuming_of_reads h
  unfold System.resumeReads at h
  split at h
  · cases h
    refine hinv.lasts (lasts_of_same hinv (fun _ hid => hid) rfl) (fun task htask j server hrun => ?_)
      (fun j state hin => .inr ?_) fun _ => .inl
    · exact .inl ⟨task, htask, hrun⟩
    obtain ⟨row, hrow, hkind⟩ := hmem j state hin
    refine ⟨hinv.issued j row hrow, fun other hother => ?_⟩
    obtain rfl := Option.some.inj (hrow.symm.trans hother)
    exact hkind
  · simp at h

theorem inv_resumes (hinv : Inv s) (h : s.resumes now = some t) : Inv t := by
  unfold System.resumes at h
  split at h
  · rename_i id state rest hresuming
    have hnext : Inv { s with resuming := rest } := by
      refine hinv.keeps (lasts_of_same hinv (fun _ hid => hid) rfl) (.refl _) ?_ (.refl _)
      rw [hresuming]
      exact List.sublist_cons_self _ _
    split at h
    · exact inv_of_runs hnext h
    split at h
    · rename_i row hrow
      cases h
      have hknown := hinv.resuming id state (hresuming ▸ List.mem_cons_self)
      refine hnext.lasts (lasts_of_same hnext (fun _ hid => hid) rfl)
        (fun task htask j server hrun => ?_) (fun _ _ => .inl) fun _ => .inl
      rcases List.mem_append.mp htask with hold | hnew
      · exact .inl ⟨task, hold, hrun⟩
      obtain rfl := List.mem_singleton.mp hnew
      cases hrun
      refine .inr ⟨hknown.1, fun other hother => ?_⟩
      obtain rfl := Option.some.inj (hrow.symm.trans hother)
      exact ⟨hknown.2 row hrow, rfl⟩
    · cases h
      exact hnext
  · simp at h

variable {outcome : Option OperationError}

theorem inv_removes (hinv : Inv s)
    (h : s.removes i outcome = some t) : Inv t := by
  unfold System.removes at h
  split at h
  · rename_i id server hi
    split at h <;>
      (cases h
       exact hinv.moves (lasts_of_same hinv (fun _ hid => hid) rfl) hi rfl rfl rfl rfl)
  · simp at h

theorem lasts_settle (hinv : Inv s) (state : OperationState) (error : Option OperationError)
    (hevent : ∃ e : Ops.Event, s.ops.settles e = some id ∧ System.issues e = [] ∧
      (state = .failed ∨ e = .finish id now)) (hops : t.ops.db = after s.ops.db (settle id state error now))
    (hissued : t.issued = s.issued) : Lasts s t := by
  obtain ⟨e, hsettles, hissues, hstate⟩ := hevent
  refine lasts_of_writes (e := e) hinv ?_ (by rw [hissues, hissued]; rfl) (by simp [hissues])
  rw [hops]
  exact .settles id state error now hsettles (hstate.imp_right .inl)

theorem lasts_finish (hinv : Inv s) (hops : t.ops.db = after s.ops.db (finish id now))
    (hissued : t.issued = s.issued) : Lasts s t :=
  lasts_settle hinv .done none ⟨.finish id now, rfl, rfl, .inr rfl⟩ hops hissued

theorem lasts_fail (hinv : Inv s) {error : OperationError}
    (hops : t.ops.db = after s.ops.db (Ops.fail id error now)) (hissued : t.issued = s.issued) :
    Lasts s t :=
  lasts_settle hinv .failed (some error) ⟨.fail id error now, rfl, rfl, .inl rfl⟩ hops hissued

theorem inv_finishes (hinv : Inv s)
    (h : s.finishes i now outcome = some t) : Inv t := by
  unfold System.finishes at h
  split at h
  · rename_i id server hi
    split at h
    · rename_i htx
      cases h
      have hlasts := lasts_finish hinv (t := (s.withDb _).setTask i (.finished id server))
        (after_of_ok htx).symm rfl
      exact hinv.moves hlasts hi rfl rfl rfl rfl
    · cases h
      exact hinv.moves (lasts_of_same hinv (fun _ hid => hid) rfl) hi rfl rfl rfl rfl
    · cases h
      exact hinv.moves (lasts_of_same hinv (fun _ hid => hid) rfl) hi rfl rfl rfl rfl
  · simp at h

theorem lasts_erase (hinv : Inv s) {server : Id} (hops : t.ops.db = eraseServer s.ops.db server)
    (hissued : t.issued = s.issued) : Lasts s t := by
  refine lasts_of_filtered hinv hissued (fun r => ?_) fun id => hops ▸ find?_eraseServer id
  obtain ⟨hkind, hserver, -⟩ := dropped_same
    ((s.ops.db.backups.select (·.serverId = server)).map (·.id))
    ((s.ops.db.operations.select (·.serverId = server)).map (·.id)) r
  exact ⟨hkind, hserver⟩

theorem inv_erases (hinv : Inv s)
    (h : s.erases i outcome = some t) : Inv t := by
  unfold System.erases at h
  split at h
  · rename_i id server hi
    split at h
    · cases h
      exact hinv.keeps (lasts_erase hinv rfl rfl) (List.eraseIdx_sublist _ _) (.refl _) (.refl _)
    · cases h
      exact hinv.moves (lasts_of_same hinv (fun _ hid => hid) rfl) hi rfl rfl rfl rfl
  · simp at h

theorem inv_fails {ok : Bool} (hinv : Inv s) (h : s.fails i now ok = some t) : Inv t := by
  unfold System.fails at h
  split at h
  · cases h
    split
    · exact hinv.keeps (lasts_fail hinv rfl rfl) (List.eraseIdx_sublist _ _) (.refl _) (.refl _)
    · exact hinv.keeps (lasts_of_same hinv (fun _ hid => hid) rfl) (List.eraseIdx_sublist _ _) (.refl _)
        (.refl _)
  · simp at h

theorem inv_other (hinv : Inv s) (h : (if s.isOther e then
      (s.ops.step e).map fun ops => { s with ops, issued := System.issues e ++ s.issued }
    else none) = some t) : Inv t := by
  split at h
  · rename_i hother
    obtain ⟨ops, hstep, rfl⟩ := Option.map_eq_some_iff.mp h
    have hlasts : Lasts s { s with ops, issued := System.issues e ++ s.issued } :=
      lasts_of_writes hinv (writes_step hstep) rfl (isOther_fresh hother)
    refine hinv.lasts hlasts (fun task htask j server hrun => .inl ⟨task, htask, hrun⟩)
      (fun _ _ => .inl) fun seen hmem => ?_
    rcases cancels_step hstep hmem with hold | ⟨j, hrow, hmay⟩
    · exact .inl hold
    have hid := Table.find?_key hrow
    have hknown : Known s seen.id fun kind _ => kind ≠ .serverDelete := by
      refine ⟨hid ▸ hinv.issued j seen hrow, fun other hfind => ?_⟩
      rw [hid, hrow] at hfind
      cases hfind
      intro hkind
      simp [mayCancel, hkind, OperationKind.isCancellable] at hmay
    exact .inr (hknown.lasts hlasts)
  · simp at h

theorem lasts_purge (hinv : Inv s) {before : Timestamp}
    (hops : t.ops.db = purgeFinished before s.ops.db) (hissued : t.issued = s.issued) :
    Lasts s t := by
  refine lasts_of_filtered hinv hissued (fun r => ?_) fun id => hops ▸ find?_purgeFinished before id
  unfold dropParent
  split <;> exact ⟨rfl, rfl⟩

theorem inv_step {e : Event} (hinv : Inv s) (h : machine.step s e = some t) : Inv t := by
  cases e with
  | deletes server caller keepBackups current now =>
    cases h
    exact inv_deletes hinv ..
  | creates k id now ok => exact inv_creates hinv h
  | runs id now => exact inv_of_runs hinv h
  | resumeReads => exact inv_resumeReads hinv h
  | resumes now => exact inv_resumes hinv h
  | removes k outcome => exact inv_removes hinv h
  | finishes k now outcome => exact inv_finishes hinv h
  | erases k outcome => exact inv_erases hinv h
  | fails k now ok => exact inv_fails hinv h
  | crashes =>
    cases h
    exact hinv.keeps (lasts_of_same hinv (fun _ hid => hid) rfl) (List.nil_sublist _) (List.nil_sublist _)
      (List.nil_sublist _)
  | other e => exact inv_other hinv h
  | marks server status =>
    simp only [machine, System.step] at h
    split at h
    · simp at h
    · cases h
      exact hinv.keeps (lasts_of_same hinv (fun _ hid => hid) rfl) (.refl _) (.refl _) (.refl _)
  | purges before =>
    cases h
    exact hinv.keeps (lasts_purge hinv rfl rfl) (.refl _) (.refl _) (.refl _)
  | drops server =>
    cases h
    exact hinv.keeps (lasts_erase hinv rfl rfl) (.refl _) (.refl _) (.refl _)

theorem letGo_iff (hnone : NoneHangs s) {remaining : List Task} (hdb : t.ops.db = s.ops.db)
    (htasks : t.tasks = remaining) : LetGo s remaining ↔ NoneHangs t := by
  constructor
  · intro hlet server hdeleting
    rw [hdb] at hdeleting
    rw [hdb, htasks]
    rcases hnone server hdeleting with hpends | ⟨task, htask, hbetween⟩
    · exact .inl hpends
    · exact hlet task htask server hbetween hdeleting
  · intro hafter task _ server _ hdeleting
    have hheld := hafter server (hdb.symm ▸ hdeleting)
    rwa [hdb, htasks] at hheld

theorem NoneHangs.keeps (hnone : NoneHangs s)
    (hstatus : ∀ server, statusOf t.ops.db server = some .deleting →
      statusOf s.ops.db server = some .deleting)
    (hpends : ∀ server, Pends s.ops.db server → statusOf t.ops.db server = some .deleting →
      Pends t.ops.db server)
    (htasks : ∀ task ∈ s.tasks, task ∈ t.tasks ∨ task.between = none) : NoneHangs t := by
  refine hnone.step (fun server hdeleting => .inl (hstatus server hdeleting))
    (fun server hpending hdeleting => .inl (hpends server hpending hdeleting))
    fun task htask server hbetween _ => .inr ?_
  rcases htasks task htask with hstays | hnot
  · exact ⟨task, hstays, hbetween⟩
  · simp [hnot] at hbetween

theorem NoneHangs.moves {old new : Task} (hnone : NoneHangs s) (hdb : t.ops.db = s.ops.db)
    (hi : s.tasks[i]? = some old) (htasks : t.tasks = s.tasks.set i new)
    (hbetween : ∀ server, old.between = some server → new.between = some server) : NoneHangs t := by
  refine hnone.step (fun server hdeleting => .inl (hdb ▸ hdeleting))
    (fun server hpending _ => .inl (hdb.symm ▸ hpending)) fun task htask server hold _ => .inr ?_
  have hlt := (List.getElem?_eq_some_iff.mp hi).1
  rcases mem_set_of_mem (c := new) hi htask with hstays | rfl
  · exact ⟨task, htasks ▸ hstays, hold⟩
  · exact ⟨new, htasks ▸ List.mem_set hlt _, hbetween server hold⟩

theorem noneHangs_deletes (hnone : NoneHangs s) (server caller : Id) (keepBackups : Bool)
    (current : RunState) : NoneHangs (s.deletes server caller keepBackups current now) := by
  unfold System.deletes
  split
  · split
    · exact hnone
    refine hnone.step (fun other hdeleting => ?_) (fun _ hpending _ => .inl hpending)
      fun task htask other hbetween _ => .inr ⟨task, List.mem_append_left _ htask, hbetween⟩
    by_cases hother : other = server
    · exact .inr (.inr ⟨_, List.mem_append_right _ (List.mem_singleton_self _), hother ▸ rfl⟩)
    · left
      simpa [statusOf, System.withDb, Database.updateServer, Table.find?_modify, hother]
        using hdeleting
  · exact hnone

theorem insert_fresh (now : Timestamp) (hinv : Inv s) (hfresh : id ∉ s.issued) (server caller : Id)
    (keepBackups : Bool) :
    ∃ db, after s.ops.db (insert (newDelete server caller keepBackups) id now) = db ∧
      db.operations.find? id = some ((newDelete server caller keepBackups).row id now) := by
  refine ⟨_, rfl, ?_⟩
  have hcollides : collides s.ops.db (newDelete server caller keepBackups) = false := rfl
  cases hinsert : s.ops.db.operations.insert ((newDelete server caller keepBackups).row id now) with
  | none =>
    unfold Table.insert at hinsert
    split at hinsert
    · rename_i hmem
      obtain ⟨row, hrow, hid⟩ := List.mem_map.mp hmem
      have hfind := Table.find?_of_mem hrow
      rw [hid] at hfind
      exact absurd (hinv.issued id row hfind) hfresh
    · simp at hinsert
  | some operations =>
    have hmade : ∃ db' row, insert (newDelete server caller keepBackups) id now s.ops.db =
        .ok (db', row) := by
      simp [Ops.insert, hcollides, hinsert]
    obtain ⟨db', row, htx⟩ := hmade
    rw [after_of_ok htx, find?_insert_of_ok htx, if_pos rfl]

theorem notCut_creates_iff {ok : Bool} (hinv : Inv s) (hnone : NoneHangs s)
    (h : s.creates i id now ok = some t) :
    NotCut s (.creates i id now ok) ↔ NoneHangs t := by
  unfold System.creates at h
  split at h
  · rename_i server keepBackups caller hi
    split at h
    · simp at h
    rename_i hfresh
    cases h
    cases ok with
    | false =>
      have hiff := letGo_iff hnone (t := { s with
        tasks := s.tasks.eraseIdx i, issued := id :: s.issued }) rfl rfl
      simpa [NotCut] using hiff
    | true =>
      refine iff_of_true (.inl rfl) ?_
      obtain ⟨db, hdb, hfind⟩ := insert_fresh now hinv hfresh server caller keepBackups
      have hwrites : Writes s.ops (.create (newDelete server caller keepBackups) id now) db :=
        hdb ▸ .inserts _ id now (.inl rfl)
      have hends : ∀ j row, s.ops.db.operations.find? j = some row → row.kind = .serverDelete →
          ¬ endsWell s.ops (.create (newDelete server caller keepBackups) id now) j := by
        intro j row hrow hkind
        exact not_endsWell hinv (by simp) (by simp) hrow hkind
      simp only [if_true, hdb]
      refine hnone.step (fun _ hdeleting => .inl (hwrites.deleting hdeleting))
        (fun _ hpending _ => .inl (hpending.writes hwrites hends))
        fun task htask other hbetween _ => ?_
      rcases mem_eraseIdx_of_mem hi htask with hstays | rfl
      · exact .inr ⟨task, hstays, hbetween⟩
      · cases hbetween
        exact .inl ⟨id, _, hfind, rfl, rfl, rfl⟩
  · simp at h

theorem noneHangs_runs (hinv : Inv s) (hnone : NoneHangs s) (h : s.runs id now = some t) :
    NoneHangs t := by
  rcases runs_cases h with rfl | ⟨row, db, -, -, rfl, rfl⟩
  · exact hnone
  have hwrites : Writes s.ops (.begin id now) (after s.ops.db (begin id now)) := .begins id now rfl
  refine hnone.keeps (fun _ => hwrites.deleting) (fun _ hpending _ => hpending.writes hwrites ?_)
    fun task htask => .inl (List.mem_append_left _ htask)
  intro j old hold hkind
  exact not_endsWell hinv (by simp) (by simp) hold hkind

theorem noneHangs_resumes (hinv : Inv s) (hnone : NoneHangs s) (h : s.resumes now = some t) :
    NoneHangs t := by
  unfold System.resumes at h
  split at h
  · rename_i id state rest hresuming
    have hinv' : Inv { s with resuming := rest } := by
      refine hinv.keeps (lasts_of_same hinv (fun _ hid => hid) rfl) (.refl _) ?_ (.refl _)
      rw [hresuming]
      exact List.sublist_cons_self _ _
    split at h
    · exact noneHangs_runs hinv' hnone h
    split at h
    · cases h
      exact hnone.keeps (fun _ hdeleting => hdeleting) (fun _ hpending _ => hpending)
        fun task htask => .inl (List.mem_append_left _ htask)
    · cases h
      exact hnone
  · simp at h

theorem noneHangs_removes (hnone : NoneHangs s)
    (h : s.removes i outcome = some t) : NoneHangs t := by
  unfold System.removes at h
  split at h
  · rename_i hi
    split at h <;>
      (cases h
       exact hnone.moves rfl hi rfl (by simp [Task.between]))
  · simp at h

theorem noneHangs_finishes (hinv : Inv s) (hnone : NoneHangs s)
    (h : s.finishes i now outcome = some t) : NoneHangs t := by
  unfold System.finishes at h
  split at h
  · rename_i id server hi
    split at h
    · rename_i db made htx
      cases h
      have hwrites : Writes s.ops (.finish id now) db := by
        rw [← after_of_ok htx]
        exact .settles id .done none now rfl (.inr (.inl rfl))
      have hlt := (List.getElem?_eq_some_iff.mp hi).1
      have hnew : .finished id server ∈ s.tasks.set i (.finished id server) := List.mem_set hlt _
      refine hnone.step (fun _ hdeleting => .inl (hwrites.deleting hdeleting))
        (fun other hpending _ => ?_) fun task htask other hbetween _ => .inr ?_
      · obtain ⟨j, row, hrow, hserver, hkind, hstill⟩ := hpending
        by_cases hj : j = id
        · subst hj
          have hknown := hinv.tasks _ (List.mem_of_getElem? hi) j server rfl
          have hof := (hknown.2 row hrow).2
          exact .inr ⟨_, hnew, by rw [← hserver, hof]; rfl⟩
        · have hends : ¬ endsWell s.ops (.finish id now) j := by
            refine not_endsWell hinv (fun time he => hj ?_) (by simp) hrow hkind
            exact (Ops.Event.finish.inj he).1.symm
          obtain ⟨row', hrow', hkind', hserver', hpending'⟩ := hwrites.pending hrow hstill hends
          exact .inl ⟨j, row', hrow', hserver'.trans hserver, hkind'.trans hkind, hpending'⟩
      · rcases mem_set_of_mem (c := .finished id server) hi htask with hstays | rfl
        · exact ⟨task, hstays, hbetween⟩
        · simp [Task.between] at hbetween
    · cases h
      exact hnone.moves rfl hi rfl (by simp [Task.between])
    · cases h
      exact hnone.moves rfl hi rfl (by simp [Task.between])
  · simp at h

theorem noneHangs_erased (hnone : NoneHangs s) {server : Id}
    (hops : t.ops.db = eraseServer s.ops.db server)
    (htasks : ∀ task ∈ s.tasks, task ∈ t.tasks ∨ task.between = some server) : NoneHangs t := by
  have hother : ∀ other, statusOf t.ops.db other = some .deleting → other ≠ server ∧
      statusOf s.ops.db other = some .deleting := by
    intro other hdeleting
    rw [hops, statusOf_eraseServer] at hdeleting
    split at hdeleting
    · simp at hdeleting
    · rename_i hne
      exact ⟨hne, hdeleting⟩
  refine hnone.step (fun other hdeleting => .inl (hother other hdeleting).2)
    (fun other hpending hdeleting => ?_) fun task htask other hbetween hdeleting => .inr ?_
  · exact .inl (hops ▸ hpending.eraseServer (hother other hdeleting).1)
  rcases htasks task htask with hstays | hgone
  · exact ⟨task, hstays, hbetween⟩
  · have heq : server = other := Option.some.inj (hgone.symm.trans hbetween)
    exact absurd heq.symm (hother other hdeleting).1

theorem noneHangs_erases (hnone : NoneHangs s)
    (h : s.erases i outcome = some t) : NoneHangs t := by
  unfold System.erases at h
  split at h
  · rename_i id server hi
    split at h
    · cases h
      refine noneHangs_erased hnone rfl fun task htask => ?_
      rcases mem_eraseIdx_of_mem hi htask with hstays | rfl
      · exact .inl hstays
      · exact .inr rfl
    · cases h
      exact hnone.moves rfl hi rfl (by simp [Task.between])
  · simp at h

theorem notCut_fails_iff {ok : Bool} (hinv : Inv s) (hnone : NoneHangs s)
    (h : s.fails i now ok = some t) : NotCut s (.fails i now ok) ↔ NoneHangs t := by
  unfold System.fails at h
  split at h
  · rename_i id server error hi
    cases h
    cases ok with
    | false =>
      have hiff := letGo_iff hnone (t := { s with tasks := s.tasks.eraseIdx i }) rfl rfl
      simpa [NotCut] using hiff
    | true =>
      cases hrow : s.ops.db.operations.find? id with
      | none =>
        have hsame : after s.ops.db (Ops.fail id error now) = s.ops.db := by
          simp [after, Ops.fail, settle, rewrite, hrow]
        have hiff : LetGo s (s.tasks.eraseIdx i) ↔ _ := letGo_iff hnone
          (t := { s with tasks := s.tasks.eraseIdx i }.withDb s.ops.db) rfl rfl
        simp only [if_true, hsame]
        simpa [NotCut, System.findsRow, hi, hrow] using hiff
      | some row =>
        refine iff_of_true (.inl ?_) ?_
        · simp [System.findsRow, hi, hrow]
        have hwrites : Writes s.ops (.fail id error now) (after s.ops.db (Ops.fail id error now)) :=
          .settles id .failed (some error) now rfl (.inl rfl)
        have hends : ∀ j old, s.ops.db.operations.find? j = some old → old.kind = .serverDelete →
            ¬ endsWell s.ops (.fail id error now) j := by
          intro j old hold hkind
          exact not_endsWell hinv (by simp) (by simp) hold hkind
        simp only [if_true]
        refine hnone.step (fun _ hdeleting => .inl (hwrites.deleting hdeleting))
          (fun _ hpending _ => .inl (hpending.writes hwrites hends))
          fun task htask other hbetween _ => ?_
        rcases mem_eraseIdx_of_mem hi htask with hstays | rfl
        · exact .inr ⟨task, hstays, hbetween⟩
        cases hbetween
        obtain ⟨hkind, hserver⟩ :=
          (hinv.tasks _ (List.mem_of_getElem? hi) id server rfl).2 row hrow
        refine .inl ⟨id, settledRow .failed (some error) now row, ?_, hserver, hkind, rfl⟩
        have hfind : (after s.ops.db (Ops.fail id error now)).operations.find? id =
            if id = id then
              (s.ops.db.operations.find? id).map (settledRow .failed (some error) now)
            else s.ops.db.operations.find? id := find?_after_settle .failed (some error) now
        rw [hrow, if_pos rfl] at hfind
        exact hfind
  · simp at h

theorem noneHangs_other (hinv : Inv s) (hnone : NoneHangs s) (h : (if s.isOther e then
      (s.ops.step e).map fun ops => { s with ops, issued := System.issues e ++ s.issued }
    else none) = some t) : NoneHangs t := by
  split at h
  · rename_i hother
    obtain ⟨ops, hstep, rfl⟩ := Option.map_eq_some_iff.mp h
    have hwrites := writes_step hstep
    refine hnone.keeps (fun _ => hwrites.deleting) (fun _ hpending _ => hpending.writes hwrites ?_)
      fun task htask => .inl htask
    exact fun j row hrow hkind => not_endsWell_of_isOther hinv hother hrow hkind
  · simp at h

theorem notCut_iff {e : Event} (hinv : Inv s) (hnone : NoneHangs s)
    (h : machine.step s e = some t) : NotCut s e ↔ NoneHangs t := by
  cases e with
  | creates k id now ok => exact notCut_creates_iff hinv hnone h
  | fails k now ok => exact notCut_fails_iff hinv hnone h
  | crashes =>
    cases h
    exact letGo_iff hnone rfl rfl
  | deletes server caller keepBackups current now =>
    cases h
    exact iff_of_true trivial (noneHangs_deletes hnone _ _ _ _)
  | runs id now => exact iff_of_true trivial (noneHangs_runs hinv hnone h)
  | resumeReads =>
    refine iff_of_true trivial ?_
    simp only [machine, System.step, System.resumeReads] at h
    split at h
    · cases h
      exact hnone
    · simp at h
  | resumes now => exact iff_of_true trivial (noneHangs_resumes hinv hnone h)
  | removes k outcome => exact iff_of_true trivial (noneHangs_removes hnone h)
  | finishes k now outcome => exact iff_of_true trivial (noneHangs_finishes hinv hnone h)
  | erases k outcome => exact iff_of_true trivial (noneHangs_erases hnone h)
  | other e => exact iff_of_true trivial (noneHangs_other hinv hnone h)
  | marks server status =>
    simp only [machine, System.step] at h
    split at h
    · simp at h
    rename_i hstatus
    cases h
    refine iff_of_true trivial (hnone.keeps (fun other hdeleting => ?_)
      (fun _ hpending _ => hpending) fun task htask => .inl htask)
    simp only [statusOf, System.withDb, Database.updateServer, Table.find?_modify] at hdeleting
    split at hdeleting
    · cases hfind : s.ops.db.servers.find? other <;> simp_all
    · exact hdeleting
  | purges before =>
    cases h
    exact iff_of_true trivial (hnone.keeps (fun _ hdeleting => hdeleting)
      (fun _ hpending hdeleting => hpending.purgeFinished hdeleting) fun task htask => .inl htask)
  | drops server =>
    cases h
    exact iff_of_true trivial (noneHangs_erased hnone rfl fun task htask => .inl htask)

end Steps

def idleServer : Database where
  servers := .single { id := 1, ownerId := 9 }

def started (db : Database) : System where
  ops := { db }
  issued := db.operations.rows.map (·.id)

theorem inv_started (db : Database) : Inv (started db) where
  issued id row hrow := by
    have hmem := List.mem_map_of_mem (f := (·.id)) (Table.find?_mem hrow)
    rwa [Table.find?_key hrow] at hmem
  tasks := by simp [started]
  resuming := by simp [started]
  cancels := by simp [started]

/-- However deletes, the panel's other runs, its restarts and their clean-up interleave: a run is
cut nowhere between the two statements at either end of a delete if and only if every server in
`deleting` has, at every moment, a delete that is open or has failed, or a task that is just
between two statements for it. -/
theorem deletes_are_not_left_hanging_iff {db : Database} {s : System} {es : List Event}
    (hstart : NoneHangs (started db)) (hrun : machine.exec (started db) es = some s) :
    machine.Meets NotCut (started db) es ↔
      ∀ earlier u, earlier <+: es → machine.exec (started db) earlier = some u → NoneHangs u :=
  machine.meets_iff_always inv_step (fun hinv hnone => notCut_iff hinv hnone) (inv_started db) hstart
    hrun

/-- A delete, a restart of the panel while the tree is being removed, and the delete resumed. -/
def resumedDelete : List Event :=
  [.deletes 1 9 true .stopped 0, .creates 0 7 1 true, .runs 7 2, .crashes, .other .recoveryReads,
    .resumeReads, .resumes 5, .removes 0 none, .finishes 0 6 none, .erases 0 none]

theorem deletes_are_not_left_hanging_resumed :
    (∃ s, machine.exec (started idleServer) resumedDelete = some s ∧
      statusOf s.ops.db 1 = none) ∧
      ∀ earlier u, earlier <+: resumedDelete → machine.exec (started idleServer) earlier = some u →
        NoneHangs u := by
  have hstart : NoneHangs (started idleServer) := by
    intro server hdeleting
    by_cases hserver : server = 1
    · subst hserver
      exact absurd hdeleting (by decide)
    · have hnone : idleServer.servers.find? server = none := by
        simpa [Table.find?, Table.single, idleServer] using fun heq : 1 = server => hserver heq.symm
      simp [statusOf, started, hnone] at hdeleting
  have hend : machine.Ends (started idleServer) resumedDelete fun s => statusOf s.ops.db 1 = none := by
    decide +kernel
  obtain ⟨s, hrun, hgone⟩ := hend
  have hok : machine.Meets NotCut (started idleServer) resumedDelete := by decide +kernel
  exact ⟨⟨s, hrun, hgone⟩, (deletes_are_not_left_hanging_iff hstart hrun).mp hok⟩

/-- The panel stops before the operation is created, or before the row is deleted: the next start
finds nothing to resume. -/
theorem cut_delete_hangs :
    ¬ ∀ (es : List Event) (s : System), machine.exec (started idleServer) es = some s →
      NoneHangs s := by
  intro hall
  have hend : machine.Ends (started idleServer) [.deletes 1 9 true .stopped 0, .crashes,
      .other .recoveryReads, .resumeReads] fun s => statusOf s.ops.db 1 = some .deleting ∧
        s.ops.db.operations.rows = [] ∧ s.tasks = [] := by decide +kernel
  obtain ⟨s, hrun, hdeleting, hrows, htasks⟩ := hend
  rcases hall _ s hrun 1 hdeleting with ⟨id, row, hrow, -⟩ | ⟨task, htask, -⟩
  · have hmem := Table.find?_mem hrow
    rw [hrows] at hmem
    exact absurd hmem (List.not_mem_nil)
  · rw [htasks] at htask
    exact absurd htask (List.not_mem_nil)

end CraftPanel.Servers.Deleting
