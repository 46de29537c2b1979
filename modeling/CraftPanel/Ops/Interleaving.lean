import CraftPanel.Framework.Machine
import CraftPanel.Ops.Store

/-!
# Everything that writes operations at once

The worker tasks, the handlers of `ops/api.rs`, the housekeeping sweep and the recovery pass over
one table of operations. A task that reads first and writes later is kept between its two
statements, so the machine takes the statements of all of them in any order.
-/

namespace CraftPanel.Ops

open Framework

/-- A task between the moment its `begin` succeeded and its return. -/
structure Worker where
  id : Id
  server : Id
  kind : OperationKind

/-- A request handler of `ops/api.rs` that still has a statement to make. -/
inductive Handler
  | cancel (seen : OperationRow)
  | retryGuard (seen : OperationRow) (caller : Id)
  | retryInputs (old caller : Id)
  | retryCreate (old : Id) (inputs : NewOperation)
  | retryPayload (old fresh : Id)
  | retryDismiss (old : Id)

/-- `sweep_timeouts` reads twice and then settles row by row. -/
inductive Sweep
  | idle
  | readStalled (ids : List Id)
  | settling (todo : List (Id × OperationError))

/-- `recover` reads the open rows once and then settles and cleans up, row by row. -/
inductive Recovery
  | settle (seen : OperationRow)
  | cleanUp (seen : OperationRow)
  deriving DecidableEq

structure System where
  db : Database
  workers : List Worker := []
  handlers : List Handler := []
  sweep : Sweep := .idle
  recovery : List Recovery := []

inductive Event
  | create (new : NewOperation) (id : Id) (now : Timestamp)
  | begin (id : Id) (now : Timestamp)
  | advance (id : Id) (step : Step) (now : Timestamp)
  | finish (id : Id) (now : Timestamp)
  | fail (id : Id) (error : OperationError) (now : Timestamp)
  | cancelled (id : Id) (now : Timestamp)
  | requestCancel (id : Id)
  | returns (id : Id)
  | cancelReads (id : Id)
  | retryReads (id caller : Id)
  | handlerMoves (i : Nat) (fresh : Id) (carried : Bool) (now : Timestamp)
  | sweepReadsStalled (before : Timestamp)
  | sweepReadsUnpaid (before : Timestamp)
  | sweepSettles (now : Timestamp)
  | recoveryReads
  | recoveryMoves (now : Timestamp)

def after {α : Type} (db : Database) (tx : Transaction α) : Database :=
  match tx db with
  | .ok (db', _) => db'
  | .error _ => db

/-- The checks of `cancel` on the row it fetched. -/
def mayCancel (row : OperationRow) : Bool :=
  row.kind.isCancellable && row.state.isOpen && row.cancellable &&
    !(row.kind = .backupRestore && row.state ≠ .queued)

def mayRetry (row : OperationRow) : Bool := row.kind.isRetryable && row.state = .failed

/-- `inputs_of`; who started the run is the handler's to fill in. -/
def inputsOf (row : OperationRow) : NewOperation where
  serverId := row.serverId
  kind := row.kind
  src := row.src
  targetId := row.targetId
  input := row.input
  expectsPayload := row.payload ≠ .none

/-- The next statement of a handler, and the handler that is left after it. -/
def Handler.next (db : Database) (fresh : Id) (carried : Bool) (now : Timestamp) :
    Handler → Database × Option Handler
  | cancel seen =>
    if seen.state = .queued then (after db (Ops.cancelled seen.id now), none)
    else (after db (Ops.requestCancel seen.id), none)
  | retryGuard seen caller => match guardWrite db seen.serverId with
    | .ok () => (db, some (retryInputs seen.id caller))
    | .error _ => (db, none)
  | retryInputs old caller => (db, (db.operations.find? old).map fun row =>
      retryCreate old { inputsOf row with startedBy := some caller })
  | retryCreate old inputs => match Ops.insert inputs fresh now db with
    | .ok (db', row) =>
      (db', some (if inputs.expectsPayload && carried then retryPayload old row.id
        else retryDismiss old))
    | .error _ => (db, none)
  | retryPayload old made => match Ops.setPayload made .delivered db with
    | .ok (db', _) => (db', some (retryDismiss old))
    | .error _ => (db, none)
  | retryDismiss old => (after db (Ops.dismiss old now), none)

namespace System

variable (s : System)

/-- A handler reads the row of one operation and goes on if the row passes its check. -/
def opens (id : Id) (check : OperationRow → Bool) (handler : OperationRow → Handler) : System :=
  match s.db.operations.find? id with
  | some row => if check row then { s with handlers := s.handlers ++ [handler row] } else s
  | none => s

def sweepSettles (now : Timestamp) : Option System :=
  match s.sweep with
  | .settling [] => some { s with sweep := .idle }
  | .settling ((id, error) :: todo) => match Ops.fail id error now s.db with
    | .ok (db, _) => some { s with db, sweep := .settling todo }
    | .error _ => some { s with sweep := .idle }
  | _ => none

def recoveryMoves (now : Timestamp) : Option System :=
  match s.recovery with
  | .settle seen :: todo =>
    match Ops.fail seen.id (interruption seen.kind seen.appliedAt.isSome) now s.db with
    | .ok (db, _) => some { s with db, recovery := todo }
    | .error _ => some { s with recovery := [] }
  | .cleanUp seen :: todo =>
    some { s with
      db := cleanUpAfter s.db seen.kind seen.serverId seen.targetId, recovery := todo }
  | [] => none

def step : Event → Option System
  | .create new id now => some { s with db := after s.db (insert new id now) }
  | .begin id now => match begin id now s.db with
    | .ok (db, some row) =>
      some { s with db, workers := ⟨row.id, row.serverId, row.kind⟩ :: s.workers }
    | _ => some s
  | .advance id step now => some { s with db := after s.db (advance id step now) }
  | .finish id now => some { s with db := after s.db (finish id now) }
  | .fail id error now => some { s with db := after s.db (fail id error now) }
  | .cancelled id now => some { s with db := after s.db (cancelled id now) }
  | .requestCancel id => some { s with db := after s.db (requestCancel id) }
  | .returns id => some { s with workers := s.workers.filter (·.id ≠ id) }
  | .cancelReads id => some (s.opens id mayCancel .cancel)
  | .retryReads id caller => some (s.opens id mayRetry fun row => .retryGuard row caller)
  | .handlerMoves i fresh carried now => match s.handlers[i]? with
    | none => none
    | some handler => match handler.next s.db fresh carried now with
      | (db, none) => some { s with db, handlers := s.handlers.eraseIdx i }
      | (db, some next) => some { s with db, handlers := s.handlers.set i next }
  | .sweepReadsStalled before => match s.sweep with
    | .idle => some { s with sweep := .readStalled (stalled s.db before) }
    | _ => none
  | .sweepReadsUnpaid before => match s.sweep with
    | .readStalled ids => some { s with
        sweep := .settling (ids.map (·, timeoutError) ++
          (unpaid s.db before).map (·, payloadTimeoutError)) }
    | _ => none
  | .sweepSettles now => s.sweepSettles now
  | .recoveryReads => match s.recovery with
    | [] => some { s with recovery := (interrupted s.db).flatMap fun row =>
        [.settle row, .cleanUp row] }
    | _ => none
  | .recoveryMoves now => s.recoveryMoves now

end System

def machine : Machine System Event := ⟨System.step⟩

/-- The operation that an event puts into a terminal state, whatever state it is in. -/
def System.settles (s : System) : Event → Option Id
  | .finish id _ | .fail id _ _ | .cancelled id _ => some id
  | .handlerMoves i _ _ _ => match s.handlers[i]? with
    | some (.cancel seen) => if seen.state = .queued then some seen.id else none
    | _ => none
  | .sweepSettles _ => match s.sweep with
    | .settling ((id, _) :: _) => some id
    | _ => none
  | .recoveryMoves _ => match s.recovery with
    | .settle seen :: _ => some seen.id
    | _ => none
  | _ => none

def Event.enables : Event → Option Id
  | .advance id step _ => if step.cancellable = some true then some id else none
  | _ => none

theorem after_of_ok {α : Type} {db db' : Database} {tx : Transaction α} {made : α}
    (h : tx db = .ok (db', made)) : after db tx = db' := by
  simp [after, h]

/-- What the sweep and the recovery do to the database. -/
inductive Aside (s : System) (e : Event) : Database → Prop
  | nothing : Aside s e s.db
  | fails (id : Id) (error : OperationError) (now : Timestamp) (hsettles : s.settles e = some id) :
      Aside s e (after s.db (Ops.fail id error now))
  | cleansUp (kind : OperationKind) (server : Id) (target : Option Id) (now : Timestamp)
      (he : e = .recoveryMoves now) : Aside s e (cleanUpAfter s.db kind server target)

def Event.isAside : Event → Bool
  | .sweepReadsStalled _ | .sweepReadsUnpaid _ | .sweepSettles _ | .recoveryReads
  | .recoveryMoves _ => true
  | _ => false

theorem step_aside {s t : System} {e : Event} (h : s.step e = some t) (he : e.isAside = true) :
    Aside s e t.db ∧ t.workers = s.workers ∧ t.handlers = s.handlers := by
  cases e with
  | sweepReadsStalled before | sweepReadsUnpaid before | recoveryReads =>
    simp only [System.step] at h
    split at h
    · cases h
      exact ⟨.nothing, rfl, rfl⟩
    · cases h
  | sweepSettles now =>
    simp only [System.step, System.sweepSettles] at h
    split at h
    · cases h
      exact ⟨.nothing, rfl, rfl⟩
    · rename_i id error todo hsweep
      split at h
      · rename_i htx
        cases h
        exact ⟨after_of_ok htx ▸ .fails id error now (by simp [System.settles, hsweep]), rfl, rfl⟩
      · cases h
        exact ⟨.nothing, rfl, rfl⟩
    · cases h
  | recoveryMoves now =>
    simp only [System.step, System.recoveryMoves] at h
    split at h
    · rename_i seen todo hrecovery
      split at h
      · rename_i htx
        cases h
        exact ⟨after_of_ok htx ▸ .fails seen.id _ now (by simp [System.settles, hrecovery]), rfl, rfl⟩
      · cases h
        exact ⟨.nothing, rfl, rfl⟩
    · cases h
      exact ⟨.cleansUp _ _ _ now rfl, rfl, rfl⟩
    · cases h
  | _ => cases he

theorem step_handlerMoves {s t : System} {i : Nat} {fresh : Id} {carried : Bool} {now : Timestamp}
    (h : s.step (.handlerMoves i fresh carried now) = some t) : ∃ handler,
      s.handlers[i]? = some handler ∧ t.db = (handler.next s.db fresh carried now).1 ∧
        t.workers = s.workers ∧ ∀ other ∈ t.handlers,
          other ∈ s.handlers ∨ (handler.next s.db fresh carried now).2 = some other := by
  simp only [System.step] at h
  cases hi : s.handlers[i]? with
  | none => simp [hi] at h
  | some handler =>
    simp only [hi] at h
    split at h
    · rename_i heq
      cases h
      exact ⟨handler, rfl, by rw [heq], rfl, fun _ hmem => .inl (List.mem_of_mem_eraseIdx hmem)⟩
    rename_i next heq
    cases h
    refine ⟨handler, rfl, by rw [heq], rfl, fun _ hmem => ?_⟩
    rcases List.mem_or_eq_of_mem_set hmem with hold | rfl
    · exact .inl hold
    · exact .inr (by rw [heq])

/-- A row that keeps its place in the life of a run: same run, same state, same outcome. -/
structure Rests (old new : OperationRow) : Prop where
  state : new.state = old.state
  error : new.error = old.error
  finishedAt : new.finishedAt = old.finishedAt
  cancellable : new.cancellable = true → old.cancellable = true

theorem Rests.refl (row : OperationRow) : Rests row row := ⟨rfl, rfl, rfl, id⟩

theorem Rests.trans {a b c : OperationRow} (hab : Rests a b) (hbc : Rests b c) : Rests a c :=
  ⟨hbc.state.trans hab.state, hbc.error.trans hab.error, hbc.finishedAt.trans hab.finishedAt,
    hab.cancellable ∘ hbc.cancellable⟩

@[simp] theorem opens_db (s : System) (id : Id) (check : OperationRow → Bool)
    (handler : OperationRow → Handler) : (s.opens id check handler).db = s.db := by
  unfold System.opens
  split
  · split <;> rfl
  · rfl

@[simp] theorem opens_workers (s : System) (id : Id) (check : OperationRow → Bool)
    (handler : OperationRow → Handler) : (s.opens id check handler).workers = s.workers := by
  unfold System.opens
  split
  · split <;> rfl
  · rfl

section Rows

variable {s t : System} {e : Event} {db : Database} {id j : Id} {row : OperationRow}

theorem find?_after_rewrite (f : OperationRow → OperationRow) (hf : ∀ r, (f r).id = r.id) :
    (after db (rewrite id f hf)).operations.find? j =
      if j = id then (db.operations.find? j).map f else db.operations.find? j := by
  unfold after
  cases htx : rewrite id f hf db with
  | error fault =>
    by_cases hj : j = id
    · subst hj
      cases hfind : db.operations.find? j with
      | none => simp
      | some old => simp [rewrite, hfind] at htx
    · simp [hj]
  | ok answer =>
    obtain ⟨db', row⟩ := answer
    simp only [(rewrite_ok htx).1]
    exact Table.find?_modify _ _ _ _ hf

theorem find?_after_settle (state : OperationState) (error : Option OperationError)
    (now : Timestamp) : (after db (settle id state error now)).operations.find? j =
      if j = id then (db.operations.find? j).map (settledRow state error now)
      else db.operations.find? j :=
  find?_after_rewrite (settledRow state error now) fun _ => rfl

/-- Where a statement leaves the state of a row: as it was, begun, or settled. -/
def StateAfter (settled : Prop) (old new : OperationState) : Prop :=
  new = old ∨ old = .queued ∧ new = .ongoing ∨ settled ∧ new.isTerminal = true

theorem StateAfter.isOpen {settled : Prop} {old new : OperationState}
    (h : StateAfter settled old new) (hopen : new.isOpen = true) : old.isOpen = true := by
  rcases h with rfl | ⟨rfl, -⟩ | ⟨-, hterminal⟩
  · exact hopen
  · rfl
  · simp [OperationState.isOpen, hterminal] at hopen

/-- What is left of a row after a statement: the same run of the same server, at rest unless the
statement is one of those that may move it. -/
def RowAfter (row : OperationRow) (id : Id) (db : Database) (settled enabled : Prop) : Prop :=
  ∃ row', db.operations.find? id = some row' ∧ row'.serverId = row.serverId ∧
    row'.kind = row.kind ∧ StateAfter settled row.state row'.state ∧
    (Rests row row' ∨ row.state = .queued ∨ settled ∨ enabled)

variable {settled enabled : Prop}

theorem rowAfter_same (hrow : db.operations.find? j = some row) :
    RowAfter row j db settled enabled :=
  ⟨row, hrow, rfl, rfl, .inl rfl, .inl (.refl row)⟩

theorem RowAfter.mono {settled' enabled' : Prop} (h : RowAfter row id db settled enabled)
    (hsettled : settled → settled') (henabled : enabled → enabled') :
    RowAfter row id db settled' enabled' := by
  obtain ⟨row', hrow', hserver, hkind, hstate, hmoved⟩ := h
  refine ⟨row', hrow', hserver, hkind, ?_, ?_⟩
  · exact hstate.imp_right (Or.imp_right (And.imp_left hsettled))
  · exact hmoved.imp_right (Or.imp_right (Or.imp hsettled henabled))

theorem rowAfter_rewrite {f : OperationRow → OperationRow} {hf : ∀ r, (f r).id = r.id}
    (hserver : ∀ r, (f r).serverId = r.serverId) (hkind : ∀ r, (f r).kind = r.kind)
    (hrow : db.operations.find? j = some row)
    (hstate : j = id → StateAfter settled row.state (f row).state)
    (hmoved : j = id → Rests row (f row) ∨ row.state = .queued ∨ settled ∨ enabled) :
    RowAfter row j (after db (rewrite id f hf)) settled enabled := by
  unfold RowAfter
  rw [find?_after_rewrite, hrow]
  by_cases hj : j = id
  · exact ⟨f row, by simp [hj], hserver row, hkind row, hstate hj, hmoved hj⟩
  · exact ⟨row, by simp [hj], rfl, rfl, .inl rfl, .inl (.refl row)⟩

theorem rowAfter_ok_rewrite {f : OperationRow → OperationRow} {hf : ∀ r, (f r).id = r.id}
    {db' : Database} {made : OperationRow} (h : rewrite id f hf db = .ok (db', made))
    (hserver : ∀ r, (f r).serverId = r.serverId) (hkind : ∀ r, (f r).kind = r.kind)
    (hrow : db.operations.find? j = some row)
    (hstate : j = id → StateAfter settled row.state (f row).state)
    (hmoved : j = id → Rests row (f row) ∨ row.state = .queued ∨ settled ∨ enabled) :
    RowAfter row j db' settled enabled := by
  have hafter : after db (rewrite id f hf) = db' := by simp [after, h]
  exact hafter ▸ rowAfter_rewrite hserver hkind hrow hstate hmoved

theorem rowAfter_rests {f : OperationRow → OperationRow} {hf : ∀ r, (f r).id = r.id}
    (hserver : ∀ r, (f r).serverId = r.serverId) (hkind : ∀ r, (f r).kind = r.kind)
    (hrow : db.operations.find? j = some row) (hrests : Rests row (f row)) :
    RowAfter row j (after db (rewrite id f hf)) settled enabled :=
  rowAfter_rewrite hserver hkind hrow (fun _ => .inl hrests.state) fun _ => .inl hrests

theorem rowAfter_settle {state : OperationState} {error : Option OperationError} {now : Timestamp}
    (hterminal : state.isTerminal = true) (hrow : db.operations.find? j = some row)
    (hsettled : j = id → settled) :
    RowAfter row j (after db (settle id state error now)) settled enabled :=
  rowAfter_rewrite (fun _ => rfl) (fun _ => rfl) hrow
    (fun hj => .inr (.inr ⟨hsettled hj, hterminal⟩)) fun hj => .inr (.inr (.inl (hsettled hj)))

theorem rowAfter_deleteBackup (backup : Id) (hrow : db.operations.find? j = some row) :
    RowAfter row j (deleteBackup db backup) settled enabled := by
  refine ⟨dropTarget backup row, by simp [deleteBackup, Table.find?_map, hrow], ?_⟩
  unfold dropTarget
  split
  · exact ⟨rfl, rfl, .inl rfl, .inl ⟨rfl, rfl, rfl, id⟩⟩
  · exact ⟨rfl, rfl, .inl rfl, .inl (.refl row)⟩

theorem rowAfter_cleanUp {kind : OperationKind} {server : Id} {target : Option Id}
    (hrow : db.operations.find? j = some row) :
    RowAfter row j (cleanUpAfter db kind server target) settled enabled := by
  unfold cleanUpAfter
  split
  case h_8 =>
    split
    · split
      · exact rowAfter_same hrow
      · exact rowAfter_deleteBackup _ hrow
    · exact rowAfter_same hrow
  all_goals exact rowAfter_same hrow

theorem rowAfter_insert {new : NewOperation} {now : Timestamp}
    (hrow : db.operations.find? j = some row) :
    RowAfter row j (after db (insert new id now)) settled enabled := by
  unfold after
  cases htx : insert new id now db with
  | error fault => exact rowAfter_same hrow
  | ok answer => exact rowAfter_same (Table.find?_of_insert (insert_ok htx).1 hrow)

theorem rowAfter_next {handler : Handler} {fresh : Id} {carried : Bool} {now : Timestamp}
    (hrow : db.operations.find? j = some row)
    (hsettled : ∀ seen, handler = .cancel seen → seen.state = .queued → j = seen.id → settled) :
    RowAfter row j (handler.next db fresh carried now).1 settled enabled := by
  cases handler with
  | cancel seen =>
    simp only [Handler.next]
    split
    · rename_i hqueued
      exact rowAfter_settle rfl hrow (hsettled seen rfl hqueued)
    · exact rowAfter_rests (fun _ => rfl) (fun _ => rfl) hrow ⟨rfl, rfl, rfl, id⟩
  | retryGuard seen caller =>
    simp only [Handler.next]
    split <;> exact rowAfter_same hrow
  | retryInputs old caller => exact rowAfter_same hrow
  | retryCreate old inputs =>
    have h : RowAfter row j (after db (insert inputs fresh now)) settled enabled :=
      rowAfter_insert hrow
    simp only [Handler.next]
    unfold after at h
    split <;> simp_all
  | retryPayload old made =>
    simp only [Handler.next]
    split
    · rename_i htx
      exact rowAfter_ok_rewrite htx (fun _ => rfl) (fun _ => rfl) hrow (fun _ => .inl rfl)
        fun _ => .inl ⟨rfl, rfl, rfl, id⟩
    · exact rowAfter_same hrow
  | retryDismiss old =>
    exact rowAfter_rests (fun _ => rfl) (fun _ => rfl) hrow ⟨rfl, rfl, rfl, id⟩

/-- What one statement of any task does to a row that is there: it may move it only by starting
it from the queue, by settling it, or by making it cancellable. -/
theorem rowAfter_step (h : s.step e = some t) (hrow : s.db.operations.find? j = some row) :
    RowAfter row j t.db (s.settles e = some j) (e.enables = some j) := by
  cases e with
  | create new id now =>
    cases h
    exact rowAfter_insert hrow
  | begin id now =>
    simp only [System.step] at h
    cases htx : begin id now s.db with
    | error fault =>
      simp only [htx, Option.some.injEq] at h
      exact h ▸ rowAfter_same hrow
    | ok answer =>
      obtain ⟨db', started⟩ := answer
      rcases begin_ok htx with ⟨rfl, rfl⟩ | ⟨old, hold, ⟨hqueued, -⟩, rfl, -, hfind⟩
      · simp only [htx, Option.some.injEq] at h
        exact h ▸ rowAfter_same hrow
      simp only [htx, Option.some.injEq] at h
      subst h
      unfold RowAfter
      simp only [hfind, hrow]
      split
      · rename_i hj
        subst hj
        obtain rfl : row = old := by simpa [hrow] using hold
        have hbegun : begunRow now row =
            { row with state := .ongoing, startedAt := some now, progressedAt := some now } := by
          simp [begunRow, hqueued]
        exact ⟨begunRow now row, rfl, by rw [hbegun], by rw [hbegun],
          .inr (.inl ⟨hqueued, by rw [hbegun]⟩), .inr (.inl hqueued)⟩
      · exact ⟨row, rfl, rfl, rfl, .inl rfl, .inl (.refl row)⟩
  | advance id step now =>
    cases h
    refine rowAfter_rewrite (fun _ => rfl) (fun _ => rfl) hrow (fun _ => .inl rfl) fun hj => ?_
    by_cases henables : step.cancellable = some true
    · exact .inr (.inr (.inr (by simp [Event.enables, henables, hj])))
    refine .inl ⟨rfl, rfl, rfl, fun hc => ?_⟩
    cases hstep : step.cancellable with
    | none => simpa [Step.apply, hstep] using hc
    | some value => simp_all [Step.apply]
  | finish id now | fail id error now | cancelled id now =>
    cases h
    exact rowAfter_settle rfl hrow fun hj => by simp [System.settles, hj]
  | requestCancel id =>
    cases h
    exact rowAfter_rests (fun _ => rfl) (fun _ => rfl) hrow ⟨rfl, rfl, rfl, fun hc => hc⟩
  | returns id =>
    cases h
    exact rowAfter_same hrow
  | cancelReads id | retryReads id caller =>
    cases h
    exact rowAfter_same ((opens_db ..).symm ▸ hrow)
  | handlerMoves i fresh carried now =>
    obtain ⟨handler, hi, hdb, -, -⟩ := step_handlerMoves h
    rw [hdb]
    refine rowAfter_next hrow fun seen hcancel hqueued hj => ?_
    simp [System.settles, hi, hcancel, hqueued, hj]
  | sweepReadsStalled before | sweepReadsUnpaid before | sweepSettles now | recoveryReads
  | recoveryMoves now =>
    have haside := (step_aside h rfl).1
    generalize t.db = db at haside ⊢
    cases haside with
    | nothing => exact rowAfter_same hrow
    | fails id error now hsettles => exact rowAfter_settle rfl hrow fun hj => hj ▸ hsettles
    | cleansUp => exact rowAfter_cleanUp hrow

end Rows

section Settings

variable {s t : System} {e : Event} {db : Database}

@[simp] theorem settings_after_rewrite {id : Id} (f : OperationRow → OperationRow)
    (hf : ∀ r, (f r).id = r.id) : (after db (rewrite id f hf)).settings = db.settings := by
  unfold after
  cases htx : rewrite id f hf db with
  | error fault => rfl
  | ok answer => exact (rewrite_ok htx).2.1

@[simp] theorem settings_after_insert {new : NewOperation} {id : Id} {now : Timestamp} :
    (after db (insert new id now)).settings = db.settings := by
  unfold after
  cases htx : insert new id now db with
  | error fault => rfl
  | ok answer => exact (insert_ok htx).2.1

@[simp] theorem settings_cleanUpAfter {kind : OperationKind} {server : Id} {target : Option Id} :
    (cleanUpAfter db kind server target).settings = db.settings := by
  unfold cleanUpAfter
  split
  case h_8 =>
    split
    · split <;> rfl
    · rfl
  all_goals rfl

@[simp] theorem settings_next {handler : Handler} {fresh : Id} {carried : Bool} {now : Timestamp} :
    (handler.next db fresh carried now).1.settings = db.settings := by
  cases handler with
  | cancel seen =>
    simp only [Handler.next]
    split <;> exact settings_after_rewrite ..
  | retryGuard seen caller =>
    simp only [Handler.next]
    split <;> rfl
  | retryInputs old caller => rfl
  | retryCreate old inputs =>
    simp only [Handler.next]
    split
    · rename_i htx
      exact (insert_ok htx).2.1
    · rfl
  | retryPayload old made =>
    simp only [Handler.next]
    split
    · rename_i htx
      exact (rewrite_ok htx).2.1
    · rfl
  | retryDismiss old => exact settings_after_rewrite ..

theorem workers_step (h : s.step e = some t) (hbegin : ∀ id now, e ≠ .begin id now) :
    t.workers.Sublist s.workers ∧ t.db.settings = s.db.settings := by
  cases e with
  | begin id now => exact absurd rfl (hbegin id now)
  | create new id now =>
    cases h
    exact ⟨.refl _, settings_after_insert⟩
  | advance id step now | finish id now | fail id error now | cancelled id now
  | requestCancel id =>
    cases h
    exact ⟨.refl _, settings_after_rewrite ..⟩
  | returns id =>
    cases h
    exact ⟨List.filter_sublist, rfl⟩
  | cancelReads id | retryReads id caller =>
    cases h
    exact ⟨by simp, by simp⟩
  | handlerMoves i fresh carried now =>
    obtain ⟨handler, -, hdb, hworkers, -⟩ := step_handlerMoves h
    exact ⟨hworkers ▸ .refl _, hdb ▸ settings_next⟩
  | sweepReadsStalled before | sweepReadsUnpaid before | sweepSettles now | recoveryReads
  | recoveryMoves now =>
    obtain ⟨haside, hworkers, -⟩ := step_aside h rfl
    refine ⟨hworkers ▸ .refl _, ?_⟩
    generalize t.db = db at haside ⊢
    cases haside with
    | nothing => rfl
    | fails => exact settings_after_rewrite ..
    | cleansUp => exact settings_cleanUpAfter

end Settings

end CraftPanel.Ops
