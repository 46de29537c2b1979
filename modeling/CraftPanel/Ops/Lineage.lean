import CraftPanel.Ops.Writes

/-!
# Where a row comes from

A row of the operations is the row that was there before the statement, of the same kind, with the
same parent and with the same target unless the target is gone, or it is the row that the statement
inserts. Only `finish` makes a row done.
-/

namespace CraftPanel.Ops

open Framework

/-- What a statement leaves of a row whose place in the table it keeps. -/
structure Descends (finishes : Prop) (old new : OperationRow) : Prop where
  kind : new.kind = old.kind
  parent : new.parentOperationId = old.parentOperationId
  target : new.targetId = old.targetId ∨ new.targetId = none
  done : new.state = .done → old.state = .done ∨ finishes

def System.inserts (s : System) : Event → Option NewOperation
  | .create new _ _ => some new
  | .handlerMoves i _ _ _ => match s.handlers[i]? with
    | some (.retryCreate _ inputs) => some inputs
    | _ => none
  | _ => none

def Event.finishes : Event → Option Id
  | .finish id _ => some id
  | _ => none

/-- Every row of `db'` descends from one of `db`. -/
def Stems (db db' : Database) (finishes : Id → Prop) : Prop :=
  ∀ j row', db'.operations.find? j = some row' →
    ∃ row, db.operations.find? j = some row ∧ Descends (finishes j) row row'

section Rows

variable {db db' : Database} {finishes : Id → Prop} {id : Id}

theorem Descends.refl (fin : Prop) (row : OperationRow) : Descends fin row row :=
  ⟨rfl, rfl, .inl rfl, .inl⟩

theorem Stems.refl (db : Database) (finishes : Id → Prop) : Stems db db finishes := by
  intro j row' hrow'
  exact ⟨row', hrow', .refl _ _⟩

theorem Stems.of_eq (h : db'.operations = db.operations) : Stems db db' finishes := by
  intro j row' hrow'
  rw [h] at hrow'
  exact ⟨row', hrow', .refl _ _⟩

theorem stems_rewrite {f : OperationRow → OperationRow} {hf : ∀ r, (f r).id = r.id}
    (hdescends : ∀ r, Descends (finishes id) r (f r)) :
    Stems db (after db (rewrite id f hf)) finishes := by
  intro j row' hrow'
  rw [find?_after_rewrite] at hrow'
  split at hrow'
  · next hsame =>
    subst hsame
    obtain ⟨row, hrow, rfl⟩ := Option.map_eq_some_iff.mp hrow'
    exact ⟨row, hrow, hdescends row⟩
  · exact ⟨row', hrow', .refl _ _⟩

theorem stems_settle {state : OperationState} {error : Option OperationError} {now : Timestamp}
    (hdone : state = .done → finishes id) :
    Stems db (after db (settle id state error now)) finishes := by
  apply stems_rewrite
  intro row
  exact ⟨rfl, rfl, .inl rfl, fun hstate => .inr (hdone hstate)⟩

theorem stems_finish (now : Timestamp) (hfinishes : finishes id) :
    Stems db (after db (finish id now)) finishes := stems_settle fun _ => hfinishes

theorem stems_fail (error : OperationError) (now : Timestamp) :
    Stems db (after db (fail id error now)) finishes := stems_settle nofun

theorem stems_cancelled (now : Timestamp) :
    Stems db (after db (cancelled id now)) finishes := stems_settle nofun

theorem stems_advance (step : Step) (now : Timestamp) :
    Stems db (after db (advance id step now)) finishes :=
  stems_rewrite fun _ => ⟨rfl, rfl, .inl rfl, .inl⟩

theorem stems_requestCancel : Stems db (after db (requestCancel id)) finishes :=
  stems_rewrite fun _ => ⟨rfl, rfl, .inl rfl, .inl⟩

theorem stems_dismiss (now : Timestamp) : Stems db (after db (dismiss id now)) finishes :=
  stems_rewrite fun _ => ⟨rfl, rfl, .inl rfl, .inl⟩

theorem stems_setPayload (payload : Payload) :
    Stems db (after db (setPayload id payload)) finishes :=
  stems_rewrite fun _ => ⟨rfl, rfl, .inl rfl, .inl⟩

theorem stems_begin (now : Timestamp) : Stems db (after db (begin id now)) finishes := by
  intro j row' hrow'
  obtain hsame | hbegun := find?_after_begin db id now j
  · exact ⟨row', hsame ▸ hrow', .refl _ _⟩
  rw [hbegun] at hrow'
  obtain ⟨row, hrow, rfl⟩ := Option.map_eq_some_iff.mp hrow'
  refine ⟨row, hrow, ?_⟩
  unfold begunRow
  split
  · exact ⟨rfl, rfl, .inl rfl, fun hdone => nomatch hdone⟩
  · exact .refl _ _

theorem stems_deleteBackup (backup : Id) : Stems db (deleteBackup db backup) finishes := by
  intro j row' hrow'
  simp only [deleteBackup, Table.find?_map, Option.map_eq_some_iff] at hrow'
  obtain ⟨row, hrow, rfl⟩ := hrow'
  refine ⟨row, hrow, ?_⟩
  unfold dropTarget
  split
  · exact ⟨rfl, rfl, .inr rfl, .inl⟩
  · exact .refl _ _

theorem stems_cleanUpAfter (kind : OperationKind) (server : Id) (target : Option Id) :
    Stems db (cleanUpAfter db kind server target) finishes := by
  unfold cleanUpAfter
  split
  case h_8 =>
    split
    · split
      · exact .refl _ _
      · exact stems_deleteBackup _
    · exact .refl _ _
  all_goals exact .of_eq rfl

end Rows

section Steps

variable {s t : System} {e : Event}

theorem stems_insert {db : Database} (finishes : Id → Prop) {new : NewOperation} {id j : Id}
    {now : Timestamp} {row' : OperationRow}
    (hrow' : (after db (insert new id now)).operations.find? j = some row') :
    (∃ row, db.operations.find? j = some row ∧ Descends (finishes j) row row') ∨
      row' = new.row j now := by
  unfold after at hrow'
  cases htx : insert new id now db with
  | error fault =>
    rw [htx] at hrow'
    exact .inl ⟨row', hrow', .refl _ _⟩
  | ok answer =>
    rw [htx] at hrow'
    simp only [find?_insert_of_ok htx] at hrow'
    split at hrow'
    · next hsame =>
      subst hsame
      exact .inr (Option.some.inj hrow').symm
    · exact .inl ⟨row', hrow', .refl _ _⟩

theorem stems_handlerMoves {db : Database} (finishes : Id → Prop) {handler : Handler} {fresh j : Id}
    {carried : Bool} {now : Timestamp} {row' : OperationRow}
    (hrow' : (handler.next db fresh carried now).1.operations.find? j = some row') :
    (∃ row, db.operations.find? j = some row ∧ Descends (finishes j) row row') ∨
      ∃ old inputs, handler = .retryCreate old inputs ∧ row' = inputs.row j now := by
  have hrests : ∀ {db' : Database}, Stems db db' finishes →
      db'.operations.find? j = some row' →
      (∃ row, db.operations.find? j = some row ∧ Descends (finishes j) row row') ∨
        ∃ old inputs, handler = .retryCreate old inputs ∧ row' = inputs.row j now := by
    intro db' hstems hfound
    exact .inl (hstems j row' hfound)
  cases handler with
  | cancel seen =>
    simp only [Handler.next] at hrow'
    split at hrow'
    · exact hrests (stems_cancelled now) hrow'
    · exact hrests stems_requestCancel hrow'
  | retryGuard seen caller =>
    simp only [Handler.next] at hrow'
    split at hrow' <;> exact hrests (.refl _ _) hrow'
  | retryInputs old caller => exact hrests (.refl _ _) hrow'
  | retryCreate old inputs =>
    simp only [Handler.next] at hrow'
    split at hrow'
    · next htx =>
      rw [← after_of_ok htx] at hrow'
      exact (stems_insert finishes hrow').imp_right fun hnew => ⟨old, inputs, rfl, hnew⟩
    · exact hrests (.refl _ _) hrow'
  | retryPayload old made =>
    simp only [Handler.next] at hrow'
    split at hrow'
    · next htx =>
      rw [← after_of_ok htx] at hrow'
      exact hrests (stems_setPayload _) hrow'
    · exact hrests (.refl _ _) hrow'
  | retryDismiss old => exact hrests (stems_dismiss now) hrow'

theorem stems_step {j : Id} {row' : OperationRow} (h : s.step e = some t)
    (hrow' : t.db.operations.find? j = some row') :
    (∃ row, s.db.operations.find? j = some row ∧
        Descends (e.finishes = some j) row row') ∨
      ∃ new now, s.inserts e = some new ∧ row' = new.row j now := by
  have hrests : ∀ {db' : Database}, Stems s.db db' (fun id => e.finishes = some id) →
      t.db = db' → (∃ row, s.db.operations.find? j = some row ∧
        Descends (e.finishes = some j) row row') ∨
          ∃ new now, s.inserts e = some new ∧ row' = new.row j now := by
    intro db' hstems hdb
    exact .inl (hstems j row' (hdb ▸ hrow'))
  cases e with
  | create new id now =>
    cases h
    obtain hold | hnew := stems_insert (fun _ => none = some j) hrow'
    · exact .inl hold
    · exact .inr ⟨new, now, rfl, hnew⟩
  | begin id now => exact hrests (stems_begin now) (db_of_begin h)
  | advance id step now =>
    cases h
    exact hrests (stems_advance step now) rfl
  | finish id now =>
    cases h
    exact hrests (stems_finish now rfl) rfl
  | fail id error now =>
    cases h
    exact hrests (stems_fail error now) rfl
  | cancelled id now =>
    cases h
    exact hrests (stems_cancelled now) rfl
  | requestCancel id =>
    cases h
    exact hrests stems_requestCancel rfl
  | returns id =>
    cases h
    exact hrests (.refl _ _) rfl
  | cancelReads id | retryReads id caller =>
    cases h
    exact hrests (.refl _ _) (opens_db ..)
  | handlerMoves i fresh carried now =>
    obtain ⟨handler, hi, hdb, -, -⟩ := step_handlerMoves h
    rw [hdb] at hrow'
    obtain hold | ⟨old, inputs, rfl, hnew⟩ := stems_handlerMoves (fun _ => none = some j) hrow'
    · exact .inl hold
    · exact .inr ⟨inputs, now, by simp [System.inserts, hi], hnew⟩
  | sweepReadsStalled before | sweepReadsUnpaid before | sweepSettles now | recoveryReads
  | recoveryMoves now =>
    have haside := (step_aside h rfl).1
    generalize hdb : t.db = db at haside
    cases haside with
    | nothing => exact hrests (.refl _ _) hdb
    | fails id error now => exact hrests (stems_fail error now) hdb
    | cleansUp => exact hrests (stems_cleanUpAfter _ _ _) hdb

end Steps

end CraftPanel.Ops
