import Mathlib.Data.List.Induction
import CraftPanel.Ops.Interleaving

/-!
# The recovery pass

`recover` of `ops/mod.rs` over the loop of `ops/store.rs`: the open runs are read once, and each of
them is settled in one statement and cleaned up after in another. A second pass reads what is
still open, so it makes up for every statement the first one did not come to, but for the clean-up
of the one run that was settled already.
-/

namespace CraftPanel.Ops

open Framework

def breaks : OperationKind → Bool
  | .serverCreate | .installLoader | .repairContent | .resetServer | .installModpack
  | .changeGameVersion | .backupRestore => true
  | _ => false

/-- The clean-up of a run deletes the half-made backup, unless its upload can be carried on. -/
def takesBackup (db : Database) (row : OperationRow) (backup : Id) : Bool :=
  row.kind = .backupCreate && row.targetId = some backup && (db.uploads.find? backup).isNone

namespace Recovery

def perform (now : Timestamp) : Recovery → Database → Database
  | settle seen, db => after db (fail seen.id (interruption seen.kind seen.appliedAt.isSome) now)
  | cleanUp seen, db => cleanUpAfter db seen.kind seen.serverId seen.targetId

def settles (id : Id) : Recovery → Bool
  | settle seen => seen.id = id
  | cleanUp _ => false

def marks (server : Id) : Recovery → Bool
  | settle _ => false
  | cleanUp seen => breaks seen.kind && seen.serverId = server

def takes (db : Database) (backup : Id) : Recovery → Bool
  | settle _ => false
  | cleanUp seen => takesBackup db seen backup

end Recovery

/-- The statements of the loop, each with what the clock shows when its row is settled. -/
def pass (clock : Nat → Timestamp) (db : Database) : List (Recovery × Timestamp) :=
  (interrupted db).zipIdx.flatMap fun (row, j) =>
    [(.settle row, clock j), (.cleanUp row, clock j)]

def performAll (statements : List (Recovery × Timestamp)) (db : Database) : Database :=
  statements.foldl (fun db statement => statement.1.perform statement.2 db) db

/-- The pass as far as its `n`-th statement. -/
def recoverUpTo (n : Nat) (clock : Nat → Timestamp) (db : Database) : Database :=
  performAll ((pass clock db).take n) db

/-- The clock of a whole pass: what is purged at its end is older than all it settles. -/
structure Clock where
  reading : Nat → Timestamp
  before : Timestamp
  recent : ∀ j, before ≤ reading j

def recover (clock : Clock) (db : Database) : Database :=
  purgeFinished clock.before (performAll (pass clock.reading db) db)

def statusOf (db : Database) (server : Id) : Option ServerStatus :=
  (db.servers.find? server).map (·.status)

def outcomeOf (db : Database) (id : Id) : Option (OperationState × Option OperationError) :=
  (db.operations.find? id).map fun row => (row.state, row.error)

/-- The same server statuses, backup rows and operation states. -/
structure SameOutcome (s t : Database) : Prop where
  status : ∀ server, statusOf s server = statusOf t server
  backups : s.backups.rows = t.backups.rows
  outcome : ∀ id, outcomeOf s id = outcomeOf t id

section Statements

variable {db : Database} {id : Id}

theorem statusOf_cleanUpAfter (kind : OperationKind) (server other : Id) (target : Option Id) :
    statusOf (cleanUpAfter db kind server target) other =
      if breaks kind && server = other then (statusOf db other).map fun _ => .broken
      else statusOf db other := by
  have hupdate : ∀ (f : ServerRow → ServerRow) (hf : ∀ r, (f r).id = r.id),
      (∀ r, (f r).status = .broken) → statusOf (db.updateServer server f hf) other =
        if server = other then (statusOf db other).map fun _ => .broken else statusOf db other := by
    intro f hf hbroken
    unfold statusOf Database.updateServer
    rw [Table.find?_modify]
    by_cases hother : other = server
    · subst hother
      cases db.servers.find? other <;> simp [hbroken]
    · have hne : server ≠ other := fun heq => hother heq.symm
      simp [hother, hne]
  cases kind with
  | backupCreate =>
    simp only [cleanUpAfter, breaks]
    split
    · split <;> rfl
    · rfl
  | serverDelete | installContent | updateContent | installJava | unarchive => rfl
  | serverCreate | installLoader | repairContent | resetServer | installModpack
  | changeGameVersion | backupRestore => simpa [cleanUpAfter, breaks] using hupdate _ _ fun _ => rfl

theorem backups_cleanUpAfter (row : OperationRow) :
    (cleanUpAfter db row.kind row.serverId row.targetId).backups.rows =
      db.backups.rows.filter fun backup => !takesBackup db row backup.id := by
  have hkeep : (∀ backup, takesBackup db row backup = false) →
      db.backups.rows = db.backups.rows.filter fun backup => !takesBackup db row backup.id := by
    intro hnone
    simp [hnone]
  cases hkind : row.kind with
  | backupCreate =>
    cases htarget : row.targetId with
    | none => exact hkeep (by simp [takesBackup, htarget])
    | some backup =>
      show (if (db.uploads.find? backup).isSome then db else deleteBackup db backup).backups.rows = _
      split
      · rename_i hupload
        exact hkeep (by simp [takesBackup, htarget]; grind)
      rename_i hupload
      simp only [deleteBackup, Table.erase, takesBackup, hkind, htarget]
      apply List.filter_congr
      intro other _
      by_cases hother : other.id = backup
      · simp_all
      · have hne : backup ≠ other.id := fun heq => hother heq.symm
        simp [hother, hne]
  | _ => exact hkeep (by simp [takesBackup, hkind])

theorem uploads_cleanUpAfter (kind : OperationKind) (server backup : Id) (target : Option Id) :
    (cleanUpAfter db kind server target).uploads.find? backup = db.uploads.find? backup := by
  unfold cleanUpAfter
  split
  case h_8 =>
    split
    · rename_i gone
      split
      · rfl
      rename_i hupload
      by_cases hgone : backup = gone
      · subst hgone
        simp_all [deleteBackup]
      · exact Table.find?_erase_ne _ hgone
    · rfl
  all_goals rfl

theorem operations_cleanUpAfter (db : Database) (row : OperationRow) :
    (cleanUpAfter db row.kind row.serverId row.targetId).operations = db.operations ∨
      ∃ backup, takesBackup db row backup = true ∧
        (cleanUpAfter db row.kind row.serverId row.targetId).operations =
          db.operations.map (dropTarget backup) (dropTarget_id backup) := by
  cases hkind : row.kind with
  | backupCreate =>
    cases htarget : row.targetId with
    | none => exact .inl rfl
    | some backup =>
      by_cases hupload : (db.uploads.find? backup).isSome = true
      · exact .inl (by simp [cleanUpAfter, hupload])
      · refine .inr ⟨backup, by simp_all [takesBackup], ?_⟩
        simp [cleanUpAfter, hupload, deleteBackup]
  | _ => exact .inl rfl

theorem after_rewrite_frame (db : Database) (id : Id) (f : OperationRow → OperationRow) (hf : ∀ r, (f r).id = r.id) :
    (∀ server, statusOf (after db (rewrite id f hf)) server = statusOf db server) ∧
      (after db (rewrite id f hf)).backups = db.backups ∧
      (after db (rewrite id f hf)).uploads = db.uploads := by
  unfold after rewrite
  cases db.operations.find? id with
  | none => exact ⟨fun _ => rfl, rfl, rfl⟩
  | some row =>
    refine ⟨fun server => ?_, rfl, rfl⟩
    simp only [statusOf, bumpRevision, Database.updateServer, Database.updateOperation]
    rw [Table.find?_modify]
    split
    · cases db.servers.find? server <;> rfl
    · rfl

end Statements

def settledBy (done : List (Recovery × Timestamp)) (id : Id) : Option (Recovery × Timestamp) :=
  done.reverse.find? (·.1.settles id)

/-- What is left of a run after some statements of the loop. -/
structure Kept (db : Database) (done : List (Recovery × Timestamp)) (old new : OperationRow) :
    Prop where
  kind : new.kind = old.kind
  serverId : new.serverId = old.serverId
  appliedAt : new.appliedAt = old.appliedAt
  target : new.targetId = old.targetId ∨ new.targetId = none ∧
    ∃ backup, old.targetId = some backup ∧ done.any (·.1.takes db backup) = true
  unsettled : settledBy done old.id = none →
    new.state = old.state ∧ new.error = old.error ∧ new.finishedAt = old.finishedAt
  settled : ∀ seen now, settledBy done old.id = some (.settle seen, now) →
    new.state = .failed ∧ new.error = some (interruption seen.kind seen.appliedAt.isSome) ∧
      new.finishedAt = some now

/-- What some statements of the loop make of the database, in terms of the one they began with. -/
structure Reached (db : Database) (done : List (Recovery × Timestamp)) (s : Database) : Prop where
  status : ∀ server, statusOf s server =
    if done.any (·.1.marks server) then (statusOf db server).map fun _ => .broken
    else statusOf db server
  uploads : ∀ backup, s.uploads.find? backup = db.uploads.find? backup
  backups : s.backups.rows = db.backups.rows.filter fun row => !done.any (·.1.takes db row.id)
  absent : ∀ id, db.operations.find? id = none → s.operations.find? id = none
  row : ∀ {id old}, db.operations.find? id = some old →
    ∃ new, s.operations.find? id = some new ∧ Kept db done old new

section Loop

variable {db s : Database} {done : List (Recovery × Timestamp)} {seen : OperationRow}
  {now : Timestamp}

theorem Reached.refl (db : Database) : Reached db [] db where
  status _ := rfl
  uploads _ := rfl
  backups := by simp
  absent _ h := h
  row h := ⟨_, h, rfl, rfl, rfl, .inl rfl, fun _ => ⟨rfl, rfl, rfl⟩, by simp [settledBy]⟩

theorem settledBy_settle (id : Id) : settledBy (done ++ [(.settle seen, now)]) id =
    if seen.id = id then some (.settle seen, now) else settledBy done id := by
  simp only [settledBy, List.reverse_append, List.reverse_singleton, List.singleton_append,
    List.find?_cons, Recovery.settles]
  by_cases hid : seen.id = id <;> simp [hid]

theorem settledBy_cleanUp (id : Id) :
    settledBy (done ++ [(.cleanUp seen, now)]) id = settledBy done id := by
  simp [settledBy, Recovery.settles]

theorem find?_perform_settle (id : Id) :
    (Recovery.perform now (.settle seen) s).operations.find? id = if id = seen.id then
      (s.operations.find? id).map
        (settledRow .failed (some (interruption seen.kind seen.appliedAt.isSome)) now)
      else s.operations.find? id :=
  find?_after_settle _ _ now

theorem Reached.settle (h : Reached db done s) :
    Reached db (done ++ [(.settle seen, now)]) (Recovery.perform now (.settle seen) s) := by
  have hframe := after_rewrite_frame s seen.id
    (settledRow .failed (some (interruption seen.kind seen.appliedAt.isSome)) now) fun _ => rfl
  obtain ⟨hstatus, hbackups, huploads⟩ := hframe
  have hmarks : ∀ server, (done ++ [(Recovery.settle seen, now)]).any (·.1.marks server) =
      done.any (·.1.marks server) := by simp [Recovery.marks]
  have htakes : ∀ backup, (done ++ [(Recovery.settle seen, now)]).any (·.1.takes db backup) =
      done.any (·.1.takes db backup) := by simp [Recovery.takes]
  constructor
  case status =>
    intro server
    rw [hmarks, ← h.status server]
    exact hstatus server
  case uploads =>
    intro backup
    rw [← h.uploads backup]
    exact congrArg (·.find? backup) huploads
  case backups =>
    simp only [htakes]
    rw [← h.backups]
    exact congrArg (·.rows) hbackups
  case absent =>
    intro id hnone
    simp [find?_perform_settle, h.absent id hnone]
  case row =>
    intro id old hold
    obtain ⟨new, hnew, hkept⟩ := h.row hold
    have hid := Table.find?_key hold
    by_cases hseen : seen.id = id
    · refine ⟨settledRow .failed (some (interruption seen.kind seen.appliedAt.isSome)) now new,
        ?_, hkept.kind, hkept.serverId, hkept.appliedAt, ?_, ?_, ?_⟩
      · rw [find?_perform_settle, hnew, if_pos hseen.symm]
        rfl
      · simp only [htakes]
        exact hkept.target
      · simp [settledBy_settle, hid, hseen]
      intro other time hby
      rw [settledBy_settle, hid, if_pos hseen] at hby
      obtain ⟨rfl, rfl⟩ : seen = other ∧ now = time := by simpa using hby
      exact ⟨rfl, rfl, rfl⟩
    · refine ⟨new, ?_, hkept.kind, hkept.serverId, hkept.appliedAt, ?_, ?_, ?_⟩
      · rw [find?_perform_settle, hnew, if_neg fun heq => hseen heq.symm]
      · simpa only [htakes] using hkept.target
      · simpa only [settledBy_settle, hid, if_neg hseen] using hid ▸ hkept.unsettled
      · simpa only [settledBy_settle, hid, if_neg hseen] using hid ▸ hkept.settled

theorem takesBackup_congr {s : Database} (h : ∀ backup, s.uploads.find? backup = db.uploads.find? backup)
    (row : OperationRow) (backup : Id) : takesBackup s row backup = takesBackup db row backup := by
  simp [takesBackup, h]

theorem Reached.cleanUp (h : Reached db done s) :
    Reached db (done ++ [(.cleanUp seen, now)]) (Recovery.perform now (.cleanUp seen) s) := by
  have htakes := takesBackup_congr h.uploads seen
  constructor
  case status =>
    intro server
    show statusOf (cleanUpAfter s _ _ _) server = _
    rw [statusOf_cleanUpAfter, h.status server]
    have hmarks : (done ++ [(Recovery.cleanUp seen, now)]).any (·.1.marks server) =
        (done.any (·.1.marks server) || (breaks seen.kind && seen.serverId = server)) := by
      rw [List.any_append, List.any_cons, List.any_nil, Bool.or_false]
      rfl
    rw [hmarks]
    cases done.any (·.1.marks server) <;> cases (breaks seen.kind && decide (seen.serverId = server))
      <;> cases statusOf db server <;> rfl
  case uploads =>
    intro backup
    rw [← h.uploads backup]
    exact uploads_cleanUpAfter ..
  case backups =>
    show (cleanUpAfter s _ _ _).backups.rows = _
    rw [backups_cleanUpAfter, h.backups, List.filter_filter]
    apply List.filter_congr
    intro row _
    simp [Recovery.takes, htakes, Bool.and_comm]
  case absent =>
    intro id hnone
    have hs := h.absent id hnone
    show (cleanUpAfter s _ _ _).operations.find? id = none
    rcases operations_cleanUpAfter s seen with hops | ⟨backup, -, hops⟩
    · rw [hops, hs]
    · rw [hops, Table.find?_map, hs]
      rfl
  case row =>
    intro id old hold
    obtain ⟨new, hnew, hkept⟩ := h.row hold
    have hmore : ∀ backup, done.any (·.1.takes db backup) = true →
        (done ++ [(Recovery.cleanUp seen, now)]).any (·.1.takes db backup) = true := by
      intro backup hdone
      simp [hdone]
    have htarget : new.targetId = old.targetId ∨ new.targetId = none ∧
        ∃ backup, old.targetId = some backup ∧
          (done ++ [(Recovery.cleanUp seen, now)]).any (·.1.takes db backup) = true :=
      hkept.target.imp_right fun ⟨hnone, backup, hback, hdone⟩ =>
        ⟨hnone, backup, hback, hmore backup hdone⟩
    rcases operations_cleanUpAfter s seen with hops | ⟨backup, htaken, hops⟩
    · refine ⟨new, ?_, hkept.kind, hkept.serverId, hkept.appliedAt, htarget, ?_, ?_⟩
      · show (cleanUpAfter s _ _ _).operations.find? id = _
        rw [hops, hnew]
      · simpa only [settledBy_cleanUp] using hkept.unsettled
      · simpa only [settledBy_cleanUp] using hkept.settled
    have hfind : (cleanUpAfter s seen.kind seen.serverId seen.targetId).operations.find? id =
        some (dropTarget backup new) := by
      rw [hops, Table.find?_map, hnew]
      rfl
    rw [htakes] at htaken
    unfold dropTarget at hfind
    split at hfind
    · rename_i hback
      refine ⟨{ new with targetId := none }, hfind, hkept.kind, hkept.serverId, hkept.appliedAt,
        .inr ⟨rfl, ?_⟩, ?_, ?_⟩
      · rcases hkept.target with hsame | ⟨hnone, -⟩
        · exact ⟨backup, hsame ▸ hback, by simp [Recovery.takes, htaken]⟩
        · simp [hnone] at hback
      · simpa only [settledBy_cleanUp] using hkept.unsettled
      · simpa only [settledBy_cleanUp] using hkept.settled
    · refine ⟨new, hfind, hkept.kind, hkept.serverId, hkept.appliedAt, htarget, ?_, ?_⟩
      · simpa only [settledBy_cleanUp] using hkept.unsettled
      · simpa only [settledBy_cleanUp] using hkept.settled

theorem reached_performAll (db : Database) (statements : List (Recovery × Timestamp)) :
    Reached db statements (performAll statements db) := by
  induction statements using List.reverseRecOn with
  | nil => exact .refl db
  | append_singleton done statement ih =>
    have hlast : performAll (done ++ [statement]) db =
        statement.1.perform statement.2 (performAll done db) := by simp [performAll]
    rw [hlast]
    obtain ⟨recovery, now⟩ := statement
    cases recovery with
    | settle seen => exact ih.settle
    | cleanUp seen => exact ih.cleanUp

theorem exec_recoveryMoves {todo : List (Recovery × Timestamp)} {rest : List Recovery}
    {before : System} (hidle : before.recovery = todo.map Prod.fst ++ rest)
    (hthere : ∀ row now, (.settle row, now) ∈ todo →
      ∃ old, before.db.operations.find? row.id = some old) :
    machine.exec before (todo.map fun statement => .recoveryMoves statement.2) =
      some { before with db := performAll todo before.db, recovery := rest } := by
  induction todo generalizing before with
  | nil =>
    simp only [List.map_nil, List.nil_append] at hidle
    simp [performAll, ← hidle]
  | cons statement todo ih =>
    obtain ⟨recovery, now⟩ := statement
    let next : System := { before with
      db := recovery.perform now before.db, recovery := todo.map Prod.fst ++ rest }
    have hnext : machine.step before (.recoveryMoves now) = some next := by
      show before.recoveryMoves now = some next
      unfold System.recoveryMoves
      rw [hidle]
      cases recovery with
      | cleanUp seen => rfl
      | settle seen =>
        obtain ⟨old, hold⟩ := hthere seen now List.mem_cons_self
        simp only [List.map_cons, List.cons_append, next, Recovery.perform, after, fail, settle,
          rewrite, hold]
    have hstill : ∀ row time, (.settle row, time) ∈ todo →
        ∃ old, next.db.operations.find? row.id = some old := by
      intro row time hmem
      obtain ⟨old, hold⟩ := hthere row time (List.mem_cons_of_mem _ hmem)
      have hreached : Reached before.db [(recovery, now)] next.db :=
        reached_performAll before.db [(recovery, now)]
      obtain ⟨new, hnew, -⟩ := hreached.row hold
      exact ⟨new, hnew⟩
    rw [List.map_cons]
    exact (machine.exec_cons).mpr ⟨next, hnext, ih rfl hstill⟩

end Loop

section Passes

variable {db mid : Database} {done : List (Recovery × Timestamp)} {clock : Nat → Timestamp}
  {row old new : OperationRow} {now : Timestamp}

theorem mem_interrupted : row ∈ interrupted db ↔
    row ∈ db.operations.rows ∧ row.state.isOpen = true ∧ row.kind ≠ .serverDelete := by
  simp [interrupted, Table.select]

theorem interrupted_eq {other : OperationRow} (hrow : row ∈ interrupted db)
    (hother : other ∈ interrupted db) (hid : row.id = other.id) : row = other := by
  have h := Table.find?_of_mem (mem_interrupted.mp hrow).1
  rw [hid, Table.find?_of_mem (mem_interrupted.mp hother).1] at h
  exact (Option.some.inj h).symm

theorem interrupted_nodup (db : Database) : (interrupted db).Nodup := by
  have hrows : db.operations.rows.Nodup := List.Nodup.of_map _ db.operations.unique
  exact (List.mergeSort_perm _ _).nodup_iff.mpr (hrows.filter _)

theorem mem_pass {statement : Recovery} : (statement, now) ∈ pass clock db ↔
    ∃ j row, (interrupted db)[j]? = some row ∧ now = clock j ∧
      (statement = .settle row ∨ statement = .cleanUp row) := by
  simp only [pass, List.mem_flatMap, List.mem_cons, List.not_mem_nil, or_false, Prod.mk.injEq,
    Prod.exists, List.mem_zipIdx_iff_getElem?]
  constructor
  · rintro ⟨row, j, hrow, ⟨hst, hnow⟩ | ⟨hst, hnow⟩⟩
    · exact ⟨j, row, hrow, hnow, .inl hst⟩
    · exact ⟨j, row, hrow, hnow, .inr hst⟩
  · rintro ⟨j, row, hrow, hnow, hst | hst⟩
    · exact ⟨row, j, hrow, .inl ⟨hst, hnow⟩⟩
    · exact ⟨row, j, hrow, .inr ⟨hst, hnow⟩⟩

theorem interrupted_of_mem_pass {statement : Recovery} (h : (statement, now) ∈ pass clock db) :
    ∃ row ∈ interrupted db, statement = .settle row ∨ statement = .cleanUp row := by
  obtain ⟨j, row, hj, -, hst⟩ := mem_pass.mp h
  exact ⟨row, List.mem_of_getElem? hj, hst⟩

theorem pass_of_interrupted (clock : Nat → Timestamp) (h : row ∈ interrupted db) :
    ∃ j, (.settle row, clock j) ∈ pass clock db ∧ (.cleanUp row, clock j) ∈ pass clock db := by
  obtain ⟨j, hj⟩ := List.mem_iff_getElem?.mp h
  exact ⟨j, mem_pass.mpr ⟨j, row, hj, rfl, .inl rfl⟩, mem_pass.mpr ⟨j, row, hj, rfl, .inr rfl⟩⟩

theorem exec_recoverUpTo (db : Database) (clock : Nat → Timestamp) (n : Nat) :
    machine.exec { db } (.recoveryReads ::
        ((pass clock db).take n).map fun statement => .recoveryMoves statement.2) =
      some { db := recoverUpTo n clock db, recovery := ((pass clock db).drop n).map Prod.fst } := by
  have hlist : (interrupted db).flatMap (fun row => [.settle row, .cleanUp row]) =
      (pass clock db).map Prod.fst := by
    rw [pass, List.map_flatMap]
    conv => lhs; rw [← List.zipIdx_map_fst 0 (interrupted db), List.flatMap_map]
    rfl
  let reading : System := { db, recovery := (pass clock db).map Prod.fst }
  have hreads : machine.step { db } .recoveryReads = some reading := by
    show some { db := db, recovery := _ } = some reading
    rw [hlist]
  refine (machine.exec_cons).mpr ⟨reading, hreads, exec_recoveryMoves ?_ fun row now hmem => ?_⟩
  · show (pass clock db).map Prod.fst = _
    rw [← List.map_append, List.take_append_drop]
  · obtain ⟨seen, hseen, heq⟩ := interrupted_of_mem_pass ((List.take_sublist n _).subset hmem)
    obtain rfl : row = seen := by simpa using heq
    exact ⟨row, Table.find?_of_mem (mem_interrupted.mp hseen).1⟩

theorem settledBy_eq_none {id : Id} :
    settledBy done id = none ↔ ∀ seen now, (.settle seen, now) ∈ done → seen.id ≠ id := by
  simp only [settledBy, List.find?_eq_none, List.mem_reverse]
  constructor
  · intro h seen now hmem hid
    exact h _ hmem (by simp [Recovery.settles, hid])
  · rintro h ⟨statement, now⟩ hmem
    cases statement with
    | settle seen => simpa [Recovery.settles] using h seen now hmem
    | cleanUp seen => simp [Recovery.settles]

theorem settledBy_some {found : Recovery × Timestamp} {id : Id}
    (hby : settledBy done id = some found) :
    ∃ seen, found.1 = .settle seen ∧ seen.id = id ∧ (.settle seen, found.2) ∈ done := by
  obtain ⟨statement, now⟩ := found
  have hmem : (statement, now) ∈ done := List.mem_reverse.mp (List.mem_of_find?_eq_some hby)
  have hsettles : statement.settles id = true :=
    List.find?_some (p := fun found : Recovery × Timestamp => found.1.settles id) hby
  cases statement with
  | cleanUp seen => simp [Recovery.settles] at hsettles
  | settle seen => exact ⟨seen, rfl, by simpa [Recovery.settles] using hsettles, hmem⟩

theorem settledBy_of_mem (hsub : done ⊆ pass clock db) (h : (.settle row, now) ∈ done) :
    settledBy done row.id = some (.settle row, now) := by
  cases hby : settledBy done row.id with
  | none => exact absurd rfl (settledBy_eq_none.mp hby row now h)
  | some found =>
    obtain ⟨seen, hseen, hid, hmem⟩ := settledBy_some hby
    obtain ⟨i, first, hi, htime, hfirst⟩ := mem_pass.mp (hsub hmem)
    obtain ⟨j, second, hj, hnow, hsecond⟩ := mem_pass.mp (hsub h)
    obtain rfl : seen = first := by simpa using hfirst
    obtain rfl : row = second := by simpa using hsecond
    obtain rfl := interrupted_eq (List.mem_of_getElem? hi) (List.mem_of_getElem? hj) hid
    have hlt := (List.getElem?_eq_some_iff.mp hi).1
    have hij : i = j := (List.getElem?_inj hlt (interrupted_nodup db)).mp (hi.trans hj.symm)
    rw [hnow, ← hij, ← htime, ← hseen]

theorem settledBy_pass (clock : Nat → Timestamp) (h : row ∈ interrupted db) :
    ∃ j, settledBy (pass clock db) row.id = some (.settle row, clock j) := by
  obtain ⟨j, hj, -⟩ := pass_of_interrupted clock h
  exact ⟨j, settledBy_of_mem (fun _ => id) hj⟩

theorem settledBy_of_not_interrupted (hsub : done ⊆ pass clock db)
    (hold : db.operations.find? old.id = some old) (h : old ∉ interrupted db) :
    settledBy done old.id = none := by
  refine settledBy_eq_none.mpr fun seen now hmem hid => h ?_
  obtain ⟨row, hrow, heq⟩ := interrupted_of_mem_pass (hsub hmem)
  obtain rfl : seen = row := by simpa using heq
  have hseen := Table.find?_of_mem (mem_interrupted.mp hrow).1
  rw [hid, hold] at hseen
  exact Option.some.inj hseen ▸ hrow

theorem mem_interrupted_again (hmid : Reached db done mid) :
    new ∈ interrupted mid ↔ ∃ old ∈ interrupted db, settledBy done old.id = none ∧
      mid.operations.find? old.id = some new ∧ Kept db done old new := by
  constructor
  · intro h
    obtain ⟨hmem, hopen, hkind⟩ := mem_interrupted.mp h
    have hnew := Table.find?_of_mem hmem
    cases hold : db.operations.find? new.id with
    | none => simp [hmid.absent _ hold] at hnew
    | some old =>
      have hid := Table.find?_key hold
      obtain ⟨same, hsame, hkept⟩ := hmid.row hold
      obtain rfl : same = new := Option.some.inj (hsame.symm.trans hnew)
      have hunsettled : settledBy done old.id = none := by
        cases hby : settledBy done old.id with
        | none => rfl
        | some found =>
          obtain ⟨seen, hseen, -, -⟩ := settledBy_some hby
          have hfailed := (hkept.settled seen found.2 (by rw [hby, ← hseen])).1
          rw [hfailed] at hopen
          exact absurd hopen (by decide)
      refine ⟨old, ?_, hunsettled, by rw [hid]; exact hnew, hkept⟩
      refine mem_interrupted.mpr ⟨Table.find?_mem hold, ?_, ?_⟩
      · rw [← (hkept.unsettled hunsettled).1]
        exact hopen
      · rw [← hkept.kind]
        exact hkind
  · rintro ⟨old, hold, hunsettled, hnew, hkept⟩
    obtain ⟨-, hopen, hkind⟩ := mem_interrupted.mp hold
    refine mem_interrupted.mpr ⟨Table.find?_mem hnew, ?_, ?_⟩
    · rw [(hkept.unsettled hunsettled).1]
      exact hopen
    · rw [hkept.kind]
      exact hkind

/-- Every statement for this run is made in one of the two passes: its clean-up by the first, or
both by the second. -/
def isCleaned (done : List (Recovery × Timestamp)) (row : OperationRow) : Bool :=
  done.any (·.1 = .cleanUp row) || (settledBy done row.id).isNone

theorem marks_pass (clock : Nat → Timestamp) {server : Id} : (pass clock db).any (·.1.marks server) = true ↔
    ∃ row ∈ interrupted db, breaks row.kind = true ∧ row.serverId = server := by
  simp only [List.any_eq_true, Prod.exists]
  constructor
  · rintro ⟨statement, now, hmem, hmarks⟩
    obtain ⟨row, hrow, rfl | rfl⟩ := interrupted_of_mem_pass hmem
    · simp [Recovery.marks] at hmarks
    · exact ⟨row, hrow, by simpa [Recovery.marks] using hmarks⟩
  · rintro ⟨row, hrow, hmarks⟩
    obtain ⟨j, -, hmem⟩ := pass_of_interrupted clock hrow
    exact ⟨_, _, hmem, by simpa [Recovery.marks] using hmarks⟩

theorem takes_pass (clock : Nat → Timestamp) {backup : Id} : (pass clock db).any (·.1.takes db backup) = true ↔
    ∃ row ∈ interrupted db, takesBackup db row backup = true := by
  simp only [List.any_eq_true, Prod.exists]
  constructor
  · rintro ⟨statement, now, hmem, htakes⟩
    obtain ⟨row, hrow, rfl | rfl⟩ := interrupted_of_mem_pass hmem
    · simp [Recovery.takes] at htakes
    · exact ⟨row, hrow, htakes⟩
  · rintro ⟨row, hrow, htakes⟩
    obtain ⟨j, -, hmem⟩ := pass_of_interrupted clock hrow
    exact ⟨_, _, hmem, htakes⟩

theorem marks_twice {again : Nat → Timestamp} {server : Id} (hsub : done ⊆ pass clock db)
    (hmid : Reached db done mid) :
    done.any (·.1.marks server) = true ∨ (pass again mid).any (·.1.marks server) = true ↔
      ∃ row ∈ interrupted db, isCleaned done row = true ∧ breaks row.kind = true ∧
        row.serverId = server := by
  rw [marks_pass]
  constructor
  · rintro (hdone | ⟨new, hnew, hbreaks, hserver⟩)
    · obtain ⟨⟨statement, now⟩, hmem, hmarks⟩ := List.any_eq_true.mp hdone
      obtain ⟨row, hrow, rfl | rfl⟩ := interrupted_of_mem_pass (hsub hmem)
      · simp [Recovery.marks] at hmarks
      have hcleaned : isCleaned done row = true := by
        simp only [isCleaned, Bool.or_eq_true, List.any_eq_true]
        exact .inl ⟨_, hmem, by simp⟩
      exact ⟨row, hrow, hcleaned, by simpa [Recovery.marks] using hmarks⟩
    · obtain ⟨old, hold, hunsettled, -, hkept⟩ := (mem_interrupted_again hmid).mp hnew
      exact ⟨old, hold, by simp [isCleaned, hunsettled], hkept.kind ▸ hbreaks,
        hkept.serverId ▸ hserver⟩
  · rintro ⟨row, hrow, hcleaned, hbreaks, hserver⟩
    simp only [isCleaned, Bool.or_eq_true, List.any_eq_true, Option.isNone_iff_eq_none] at hcleaned
    rcases hcleaned with ⟨statement, hmem, hst⟩ | hunsettled
    · refine .inl (List.any_eq_true.mpr ⟨statement, hmem, ?_⟩)
      simp [of_decide_eq_true hst, Recovery.marks, hbreaks, hserver]
    have hold := Table.find?_of_mem (mem_interrupted.mp hrow).1
    obtain ⟨new, hnew, hkept⟩ := hmid.row hold
    exact .inr ⟨new, (mem_interrupted_again hmid).mpr ⟨row, hrow, hunsettled, hnew, hkept⟩,
      hkept.kind.symm ▸ hbreaks, hkept.serverId.trans hserver⟩

theorem takes_twice {again : Nat → Timestamp} {backup : Id} (hsub : done ⊆ pass clock db)
    (hmid : Reached db done mid) :
    done.any (·.1.takes db backup) = true ∨ (pass again mid).any (·.1.takes mid backup) = true ↔
      ∃ row ∈ interrupted db, isCleaned done row = true ∧ takesBackup db row backup = true := by
  have hcongr := takesBackup_congr hmid.uploads
  rw [takes_pass]
  constructor
  · rintro (hdone | ⟨new, hnew, htakes⟩)
    · obtain ⟨⟨statement, now⟩, hmem, htakes⟩ := List.any_eq_true.mp hdone
      obtain ⟨row, hrow, rfl | rfl⟩ := interrupted_of_mem_pass (hsub hmem)
      · simp [Recovery.takes] at htakes
      have hcleaned : isCleaned done row = true := by
        simp only [isCleaned, Bool.or_eq_true, List.any_eq_true]
        exact .inl ⟨_, hmem, by simp⟩
      exact ⟨row, hrow, hcleaned, htakes⟩
    · obtain ⟨old, hold, hunsettled, -, hkept⟩ := (mem_interrupted_again hmid).mp hnew
      refine ⟨old, hold, by simp [isCleaned, hunsettled], ?_⟩
      rw [hcongr] at htakes
      have hkind := hkept.kind
      rcases hkept.target with hsame | ⟨hnone, -⟩
      · simpa [takesBackup, hsame, hkind] using htakes
      · simp [takesBackup, hnone] at htakes
  · rintro ⟨row, hrow, hcleaned, htakes⟩
    simp only [isCleaned, Bool.or_eq_true, List.any_eq_true, Option.isNone_iff_eq_none] at hcleaned
    rcases hcleaned with ⟨statement, hmem, hst⟩ | hunsettled
    · refine .inl (List.any_eq_true.mpr ⟨statement, hmem, ?_⟩)
      simpa [of_decide_eq_true hst, Recovery.takes] using htakes
    have hold := Table.find?_of_mem (mem_interrupted.mp hrow).1
    obtain ⟨new, hnew, hkept⟩ := hmid.row hold
    rcases hkept.target with hsame | ⟨-, gone, htarget, hgone⟩
    · refine .inr ⟨new, (mem_interrupted_again hmid).mpr ⟨row, hrow, hunsettled, hnew, hkept⟩, ?_⟩
      rw [hcongr]
      simpa [takesBackup, hsame, hkept.kind] using htakes
    · have hbackup : gone = backup := by
        simp only [takesBackup, htarget] at htakes
        grind
      exact .inl (hbackup ▸ hgone)

end Passes

/-- Whatever the clean-up of an interrupted run would still do is done, by the two passes, for it or
for another run: its server is marked, its half-made backup deleted. -/
structure CleanedUp (db : Database) (done : List (Recovery × Timestamp)) : Prop where
  servers : ∀ row ∈ interrupted db, breaks row.kind = true →
    (statusOf db row.serverId).all (· = .broken) = true ∨
      ∃ other ∈ interrupted db, isCleaned done other = true ∧ breaks other.kind = true ∧
        other.serverId = row.serverId
  backups : ∀ row ∈ interrupted db, ∀ backup ∈ db.backups.rows,
    takesBackup db row backup.id = true →
      ∃ other ∈ interrupted db, isCleaned done other = true ∧
        takesBackup db other backup.id = true

section Outcome

variable {db mid fin ref : Database} {done : List (Recovery × Timestamp)}
  {first again : Nat → Timestamp} {before : Timestamp}

theorem same_status_iff (hsub : done ⊆ pass first db) (hmid : Reached db done mid)
    (hfin : Reached mid (pass again mid) fin) (href : Reached db (pass again db) ref) :
    (∀ server, statusOf fin server = statusOf ref server) ↔
      ∀ row ∈ interrupted db, breaks row.kind = true →
        (statusOf db row.serverId).all (· = .broken) = true ∨
          ∃ other ∈ interrupted db, isCleaned done other = true ∧ breaks other.kind = true ∧
            other.serverId = row.serverId := by
  have htwice : ∀ server, statusOf fin server =
      if done.any (·.1.marks server) ∨ (pass again mid).any (·.1.marks server) then
        (statusOf db server).map fun _ => .broken
      else statusOf db server := by
    intro server
    rw [hfin.status, hmid.status]
    cases done.any (·.1.marks server) <;> cases (pass again mid).any (·.1.marks server) <;>
      cases statusOf db server <;> rfl
  constructor
  · intro hsame row hrow hbreaks
    have hmarked := (marks_pass again).mpr ⟨row, hrow, hbreaks, rfl⟩
    have heq := hsame row.serverId
    rw [htwice, href.status, if_pos hmarked] at heq
    split at heq
    · rename_i hboth
      exact .inr ((marks_twice hsub hmid).mp hboth)
    · left
      rw [heq]
      cases statusOf db row.serverId <;> simp
  · intro hall server
    rw [htwice, href.status]
    by_cases hmarked : (pass again db).any (·.1.marks server) = true
    · rw [if_pos hmarked]
      obtain ⟨row, hrow, hbreaks, rfl⟩ := (marks_pass again).mp hmarked
      rcases hall row hrow hbreaks with hbroken | hother
      · split
        · rfl
        · cases hstatus : statusOf db row.serverId <;> simp_all
      · rw [if_pos ((marks_twice hsub hmid).mpr hother)]
    · rw [if_neg hmarked, if_neg]
      intro hboth
      obtain ⟨row, hrow, -, hbreaks⟩ := (marks_twice hsub hmid).mp hboth
      exact hmarked ((marks_pass again).mpr ⟨row, hrow, hbreaks⟩)

theorem same_backups_iff (hsub : done ⊆ pass first db) (hmid : Reached db done mid)
    (hfin : Reached mid (pass again mid) fin) (href : Reached db (pass again db) ref) :
    fin.backups.rows = ref.backups.rows ↔
      ∀ row ∈ interrupted db, ∀ backup ∈ db.backups.rows, takesBackup db row backup.id = true →
        ∃ other ∈ interrupted db, isCleaned done other = true ∧
          takesBackup db other backup.id = true := by
  have hmem : ∀ backup, backup ∈ fin.backups.rows ↔ backup ∈ db.backups.rows ∧
      ¬ (done.any (·.1.takes db backup.id) = true ∨
        (pass again mid).any (·.1.takes mid backup.id) = true) := by
    intro backup
    rw [hfin.backups, hmid.backups]
    simp only [List.mem_filter, Bool.not_eq_true', not_or, Bool.not_eq_true]
    tauto
  constructor
  · intro hsame row hrow backup hbackup htakes
    by_contra hnone
    have hin : backup ∈ fin.backups.rows :=
      (hmem backup).mpr ⟨hbackup, fun hboth => hnone ((takes_twice hsub hmid).mp hboth)⟩
    rw [hsame, href.backups] at hin
    have htaken := (takes_pass again).mpr ⟨row, hrow, htakes⟩
    have hkept := (List.mem_filter.mp hin).2
    rw [htaken] at hkept
    exact absurd hkept (by decide)
  · intro hall
    rw [hfin.backups, hmid.backups, href.backups, List.filter_filter]
    apply List.filter_congr
    intro backup hbackup
    have hiff : (pass again db).any (·.1.takes db backup.id) = true ↔
        done.any (·.1.takes db backup.id) = true ∨
          (pass again mid).any (·.1.takes mid backup.id) = true := by
      rw [takes_twice hsub hmid, takes_pass]
      constructor
      · rintro ⟨row, hrow, htakes⟩
        exact hall row hrow backup hbackup htakes
      · rintro ⟨row, hrow, -, htakes⟩
        exact ⟨row, hrow, htakes⟩
    rw [Bool.eq_iff_iff]
    simp only [Bool.and_eq_true, Bool.not_eq_true', ← Bool.not_eq_true]
    rw [hiff]
    tauto

theorem outcomeOf_purgeFinished (id : Id) : outcomeOf (purgeFinished before db) id =
    ((db.operations.find? id).filter fun row => !isOutdated db before row).map
      fun row => (row.state, row.error) := by
  unfold outcomeOf purgeFinished
  simp only [Table.find?_map, Table.find?_discard, Option.map_map]
  congr 1
  funext row
  simp only [Function.comp_apply, dropParent]
  split <;> rfl

theorem outcome_of_settled {row : OperationRow} {id : Id} {time : Timestamp}
    (hrow : db.operations.find? id = some row) (hstate : row.state = .failed)
    (hkind : row.kind ≠ .serverDelete) (htime : row.finishedAt = some time) :
    outcomeOf (purgeFinished before db) id =
      if before ≤ time then some (.failed, row.error) else none := by
  have houtdated : isOutdated db before row = decide (time < before) := by
    simp [isOutdated, isStandingFailure, hstate, hkind, htime, OperationState.isTerminal]
  rw [outcomeOf_purgeFinished, hrow]
  by_cases hbefore : before ≤ time
  · have hlt : ¬ time < before := Nat.not_lt.mpr hbefore
    simp [houtdated, hlt, hbefore, hstate]
  · have hlt : time < before := Nat.not_le.mp hbefore
    simp [houtdated, hlt, hbefore]

theorem outcome_of_settledBy {row : OperationRow} {time : Timestamp} (hmid : Reached db done mid)
    (hrow : row ∈ interrupted db) (hby : settledBy done row.id = some (.settle row, time)) :
    ∃ new, mid.operations.find? row.id = some new ∧ new.kind ≠ .serverDelete ∧
      new.state = .failed ∧ new.finishedAt = some time ∧
      new.error = some (interruption row.kind row.appliedAt.isSome) := by
  obtain ⟨hmem, -, hkind⟩ := mem_interrupted.mp hrow
  obtain ⟨new, hnew, hkept⟩ := hmid.row (Table.find?_of_mem hmem)
  obtain ⟨hstate, herror, htime⟩ := hkept.settled row time hby
  exact ⟨new, hnew, hkept.kind.symm ▸ hkind, hstate, htime, herror⟩

theorem outcome_once {row : OperationRow} (href : Reached db (pass again db) ref)
    (hrow : row ∈ interrupted db) (hrecent : ∀ j, before ≤ again j) :
    outcomeOf (purgeFinished before ref) row.id =
      some (.failed, some (interruption row.kind row.appliedAt.isSome)) := by
  obtain ⟨j, hby⟩ := settledBy_pass again hrow
  obtain ⟨new, hnew, hkind, hstate, htime, herror⟩ := outcome_of_settledBy href hrow hby
  rw [outcome_of_settled hnew hstate hkind htime, if_pos (hrecent j), herror]

theorem outcome_twice_settled (before : Timestamp) {row : OperationRow} {time : Timestamp} (hmid : Reached db done mid)
    (hfin : Reached mid (pass again mid) fin) (hrow : row ∈ interrupted db)
    (hby : settledBy done row.id = some (.settle row, time)) :
    outcomeOf (purgeFinished before fin) row.id =
      if before ≤ time then some (.failed, some (interruption row.kind row.appliedAt.isSome))
      else none := by
  obtain ⟨new, hnew, hkind, hstate, htime, herror⟩ := outcome_of_settledBy hmid hrow hby
  have hid := Table.find?_key hnew
  have hended : new ∉ interrupted mid := by
    intro hopen
    have hstill := (mem_interrupted.mp hopen).2.1
    rw [hstate] at hstill
    exact absurd hstill (by decide)
  have hunsettled : settledBy (pass again mid) new.id = none :=
    settledBy_of_not_interrupted (fun _ => id) (hid.symm ▸ hnew) hended
  obtain ⟨last, hlast, hkept⟩ := hfin.row hnew
  obtain ⟨hstate', herror', htime'⟩ := hkept.unsettled hunsettled
  rw [outcome_of_settled hlast (hstate'.trans hstate) (hkept.kind.symm ▸ hkind)
    (htime'.trans htime), herror', herror]

theorem outcome_twice_unsettled {row : OperationRow} (hmid : Reached db done mid)
    (hfin : Reached mid (pass again mid) fin) (hrow : row ∈ interrupted db)
    (hby : settledBy done row.id = none) (hrecent : ∀ j, before ≤ again j) :
    outcomeOf (purgeFinished before fin) row.id =
      some (.failed, some (interruption row.kind row.appliedAt.isSome)) := by
  obtain ⟨new, hnew, hkept⟩ := hmid.row (Table.find?_of_mem (mem_interrupted.mp hrow).1)
  have hopen := (mem_interrupted_again hmid).mpr ⟨row, hrow, hby, hnew, hkept⟩
  have hlast := outcome_once hfin hopen hrecent
  rw [Table.find?_key hnew, hkept.kind, hkept.appliedAt] at hlast
  exact hlast

theorem outcome_uninterrupted {id : Id} {old : OperationRow} (hsub : done ⊆ pass first db)
    (hmid : Reached db done mid) (hfin : Reached mid (pass again mid) fin)
    (href : Reached db (pass again db) ref) (hold : db.operations.find? id = some old)
    (hended : old ∉ interrupted db) (hstatus : ∀ server, statusOf fin server = statusOf ref server) :
    outcomeOf (purgeFinished before fin) id = outcomeOf (purgeFinished before ref) id := by
  obtain rfl := Table.find?_key hold
  obtain ⟨new, hnew, hkept⟩ := hmid.row hold
  obtain ⟨hstate, herror, htime⟩ :=
    hkept.unsettled (settledBy_of_not_interrupted hsub hold hended)
  have hid := Table.find?_key hnew
  have hended' : new ∉ interrupted mid := by
    intro hopen
    obtain ⟨row, hrow, -, hfind, -⟩ := (mem_interrupted_again hmid).mp hopen
    have hsame := Table.find?_of_mem (mem_interrupted.mp hrow).1
    rw [← Table.find?_key hfind, hid, hold] at hsame
    exact hended (Option.some.inj hsame ▸ hrow)
  obtain ⟨last, hlast, hkept'⟩ := hfin.row hnew
  have hunsettled' : settledBy (pass again mid) new.id = none :=
    settledBy_of_not_interrupted (fun _ => id) (hid.symm ▸ hnew) hended'
  obtain ⟨hstate', herror', htime'⟩ := hkept'.unsettled hunsettled'
  obtain ⟨once, honce, hkept₀⟩ := href.row hold
  obtain ⟨hstate₀, herror₀, htime₀⟩ := hkept₀.unsettled
    (settledBy_of_not_interrupted (fun _ => id) hold hended)
  have houtdated : isOutdated fin before last = isOutdated ref before once := by
    have hserver := hstatus old.serverId
    simp only [statusOf] at hserver
    have hdeleting : (fin.servers.find? old.serverId).any (·.status = .deleting) =
        (ref.servers.find? old.serverId).any (·.status = .deleting) := by
      cases hf : fin.servers.find? old.serverId <;> cases hr : ref.servers.find? old.serverId <;>
        simp_all
    simp only [isOutdated, isStandingFailure, hstate', hstate, hstate₀, htime', htime, htime₀,
      hkept'.kind, hkept.kind, hkept₀.kind, hkept'.serverId, hkept.serverId, hkept₀.serverId,
      hdeleting]
  rw [outcomeOf_purgeFinished, outcomeOf_purgeFinished, hlast, honce]
  simp only [Option.filter_some, houtdated]
  split
  · simp [hstate', hstate, hstate₀, herror', herror, herror₀]
  · rfl

end Outcome

/-- Wherever the recovery is interrupted: the next one ends where an uninterrupted one ends if and
only if the clean-up it can no longer see is made up for, and none of the runs that were settled
before the interruption has come of the age at which they are purged. -/
theorem recovery_repeats_iff (db : Database) (first : Nat → Timestamp) (n : Nat) (clock : Clock) :
    SameOutcome (recover clock (recoverUpTo n first db)) (recover clock db) ↔
      CleanedUp db ((pass first db).take n) ∧
        ∀ row now, (.settle row, now) ∈ (pass first db).take n → clock.before ≤ now := by
  have hsub : (pass first db).take n ⊆ pass first db := (List.take_sublist n _).subset
  have hmid : Reached db _ (recoverUpTo n first db) := reached_performAll db _
  have hfin := reached_performAll (recoverUpTo n first db)
    (pass clock.reading (recoverUpTo n first db))
  have href := reached_performAll db (pass clock.reading db)
  have hstatus := same_status_iff hsub hmid hfin href
  have hbackups := same_backups_iff hsub hmid hfin href
  constructor
  · intro hsame
    refine ⟨⟨hstatus.mp hsame.status, hbackups.mp hsame.backups⟩, fun row now hmem => ?_⟩
    obtain ⟨other, hrow, heq⟩ := interrupted_of_mem_pass (hsub hmem)
    obtain rfl : row = other := by simpa using heq
    have houtcome := hsame.outcome row.id
    have htwice := outcome_twice_settled clock.before hmid hfin hrow
      (settledBy_of_mem hsub hmem)
    have honce := outcome_once href hrow clock.recent
    by_contra hbefore
    rw [if_neg hbefore] at htwice
    exact absurd (htwice.symm.trans (houtcome.trans honce)) (by simp)
  · rintro ⟨⟨hservers, hrows⟩, hage⟩
    have hsame := hstatus.mpr hservers
    refine ⟨hsame, hbackups.mpr hrows, fun id => ?_⟩
    cases hold : db.operations.find? id with
    | none =>
      have hnone := hfin.absent id (hmid.absent id hold)
      have hnone' := href.absent id hold
      show outcomeOf (purgeFinished _ _) id = outcomeOf (purgeFinished _ _) id
      rw [outcomeOf_purgeFinished, outcomeOf_purgeFinished, hnone, hnone']
      rfl
    | some old =>
      by_cases hopen : old ∈ interrupted db
      · obtain rfl := Table.find?_key hold
        have honce := outcome_once href hopen clock.recent
        refine Eq.trans ?_ honce.symm
        cases hby : settledBy ((pass first db).take n) old.id with
        | none => exact outcome_twice_unsettled hmid hfin hopen hby clock.recent
        | some found =>
          obtain ⟨seen, -, hid, hmem⟩ := settledBy_some hby
          obtain ⟨other, hrow, heq⟩ := interrupted_of_mem_pass (hsub hmem)
          obtain rfl : seen = other := by simpa using heq
          obtain rfl := interrupted_eq hrow hopen hid
          have htwice := outcome_twice_settled clock.before hmid hfin hopen
            (settledBy_of_mem hsub hmem)
          rwa [if_pos (hage _ _ hmem)] at htwice
      · exact outcome_uninterrupted hsub hmid hfin href hold hopen hsame

def installing : Database where
  servers := ⟨[{ id := 1, ownerId := 9 }], by decide⟩
  operations :=
    ⟨[{ id := 7, serverId := 1, kind := .installLoader, state := .ongoing }], by decide⟩

/-- The recovery is interrupted after it settled the run: the second one does not mark its server
broken. -/
theorem interrupted_recovery_spares_server :
    ¬ ∀ (db : Database) (first : Nat → Timestamp) (n : Nat) (clock : Clock),
      SameOutcome (recover clock (recoverUpTo n first db)) (recover clock db) := by
  intro hall
  let clock : Clock := ⟨fun _ => 0, 0, fun _ => Nat.le_refl 0⟩
  have hsame := (hall installing (fun _ => 0) 1 clock).status 1
  have honce : statusOf (recover clock installing) 1 = some .broken := by decide +kernel
  have htwice : statusOf (recover clock (recoverUpTo 1 (fun _ => 0) installing)) 1 =
      some .available := by decide +kernel
  rw [honce, htwice] at hsame
  exact absurd hsame (by decide)

end CraftPanel.Ops
