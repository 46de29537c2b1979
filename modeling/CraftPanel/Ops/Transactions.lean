import CraftPanel.Ops.Lineage

/-!
# Which transaction an event commits

Every event of the machine commits at most one transaction, and this says which. From it: a row
keeps who it is about, its server, its kind, its target and the time it was made, and is open only
where it was open before, unless it is a row that the event inserts or the recovery cleans up.
-/

namespace CraftPanel.Ops

open Framework

def Event.draws : Event → Option Id
  | .create _ id _ => some id
  | .handlerMoves _ fresh _ _ => some fresh
  | _ => none

/-- The database after one event, by the transaction that the event commits. -/
inductive Commits (s : System) (e : Event) : Database → Prop
  | nothing : Commits s e s.db
  | advances (id : Id) (step : Step) (now : Timestamp) (hevent : e = .advance id step now) :
      Commits s e (after s.db (advance id step now))
  | asksCancel (id : Id) : Commits s e (after s.db (requestCancel id))
  | dismisses (id : Id) (now : Timestamp) : Commits s e (after s.db (dismiss id now))
  | pays (id : Id) : Commits s e (after s.db (setPayload id .delivered))
  | settles (id : Id) (state : OperationState) (error : Option OperationError) (now : Timestamp)
      (hterminal : state.isTerminal = true) (hsettles : s.settles e = some id) :
      Commits s e (after s.db (settle id state error now))
  | inserts (new : NewOperation) (id : Id) (now : Timestamp) (hinserts : s.inserts e = some new)
      (hdraws : e.draws = some id) :
      Commits s e (after s.db (insert new id now))
  | begins (id : Id) (now : Timestamp) (hevent : e = .begin id now) :
      Commits s e (after s.db (begin id now))
  | cleansUp (kind : OperationKind) (server : Id) (target : Option Id) (now : Timestamp)
      (hevent : e = .recoveryMoves now) : Commits s e (cleanUpAfter s.db kind server target)

section Step

variable {s t : System} {e : Event}

theorem commits_handlerMoves {i : Nat} {fresh : Id} {carried : Bool} {now : Timestamp}
    {handler : Handler} (hi : s.handlers[i]? = some handler) :
    Commits s (.handlerMoves i fresh carried now) (handler.next s.db fresh carried now).1 := by
  cases handler with
  | cancel seen =>
    simp only [Handler.next]
    split
    · next hqueued =>
      apply Commits.settles seen.id .cancelled (some cancelledByUser) now rfl
      simp [System.settles, hi, hqueued]
    · exact .asksCancel seen.id
  | retryGuard seen caller =>
    simp only [Handler.next]
    split <;> exact .nothing
  | retryInputs old caller => exact .nothing
  | retryCreate old inputs =>
    have hinserts : s.inserts (.handlerMoves i fresh carried now) = some inputs := by
      simp [System.inserts, hi]
    simp only [Handler.next]
    split
    · next htx =>
      rw [← after_of_ok htx]
      exact .inserts inputs fresh now hinserts rfl
    · exact .nothing
  | retryPayload old made =>
    simp only [Handler.next]
    split
    · next htx =>
      rw [← after_of_ok htx]
      exact .pays made
    · exact .nothing
  | retryDismiss old => exact .dismisses old now

theorem commits_step (h : s.step e = some t) : Commits s e t.db := by
  cases e with
  | create new id now =>
    rw [← Option.some.inj h]
    exact .inserts new id now rfl rfl
  | begin id now =>
    rw [db_of_begin h]
    exact .begins id now rfl
  | advance id step now =>
    rw [← Option.some.inj h]
    exact .advances id step now rfl
  | finish id now =>
    rw [← Option.some.inj h]
    exact .settles id .done none now rfl rfl
  | fail id error now =>
    rw [← Option.some.inj h]
    exact .settles id .failed (some error) now rfl rfl
  | cancelled id now =>
    rw [← Option.some.inj h]
    exact .settles id .cancelled (some cancelledByUser) now rfl rfl
  | requestCancel id =>
    rw [← Option.some.inj h]
    exact .asksCancel id
  | returns id =>
    rw [← Option.some.inj h]
    exact .nothing
  | cancelReads id | retryReads id caller =>
    rw [← Option.some.inj h, opens_db]
    exact .nothing
  | handlerMoves i fresh carried now =>
    obtain ⟨handler, hi, hdb, -, -⟩ := step_handlerMoves h
    rw [hdb]
    exact commits_handlerMoves hi
  | sweepReadsStalled before | sweepReadsUnpaid before | sweepSettles now | recoveryReads
  | recoveryMoves now =>
    have haside := (step_aside h rfl).1
    generalize t.db = db at haside ⊢
    cases haside with
    | nothing => exact .nothing
    | fails id error now hsettles => exact .settles id .failed (some error) now rfl hsettles
    | cleansUp kind server target now he => exact .cleansUp kind server target now he

end Step

section Carrying

variable {s : System} {e : Event} {db db' : Database} {id j : Id} {row row' : OperationRow}

/-- What a row is about stays as it was, and it does not open again. -/
structure Carries (old new : OperationRow) : Prop where
  server : new.serverId = old.serverId
  kind : new.kind = old.kind
  target : new.targetId = old.targetId
  created : new.createdAt = old.createdAt
  isOpen : new.state.isOpen = true → old.state.isOpen = true
  queued : new.state = .queued → old.state = .queued

theorem Carries.refl (row : OperationRow) : Carries row row := ⟨rfl, rfl, rfl, rfl, id, id⟩

theorem carries_begunRow (now : Timestamp) (row : OperationRow) :
    Carries row (begunRow now row) := by
  unfold begunRow
  split
  · next hqueued => exact ⟨rfl, rfl, rfl, rfl, fun _ => by rw [hqueued]; rfl, fun _ => hqueued⟩
  · exact .refl row

theorem carries_settledRow {state : OperationState} (hterminal : state.isTerminal = true)
    (error : Option OperationError) (now : Timestamp) (row : OperationRow) :
    Carries row (settledRow state error now row) := by
  constructor
  · rfl
  · rfl
  · rfl
  · rfl
  · intro hopen
    simp [settledRow, OperationState.isOpen, hterminal] at hopen
  intro hqueued
  have hstate : state = .queued := hqueued
  rw [hstate] at hterminal
  cases hterminal

theorem carried_of_rewrite {f : OperationRow → OperationRow} {hf : ∀ r, (f r).id = r.id}
    (hcarries : ∀ r, Carries r (f r))
    (hrow' : (after db (rewrite id f hf)).operations.find? j = some row') :
    ∃ row, db.operations.find? j = some row ∧ Carries row row' := by
  rw [find?_after_rewrite] at hrow'
  split at hrow'
  · obtain ⟨row, hrow, rfl⟩ := Option.map_eq_some_iff.mp hrow'
    exact ⟨row, hrow, hcarries row⟩
  · exact ⟨row', hrow', .refl row'⟩

theorem carried_of_insert {new : NewOperation} {now : Timestamp}
    (hrow' : (after db (insert new id now)).operations.find? j = some row') :
    (∃ row, db.operations.find? j = some row ∧ Carries row row') ∨
      j = id ∧ row' = new.row j now := by
  unfold after at hrow'
  cases htx : insert new id now db with
  | error fault =>
    rw [htx] at hrow'
    exact .inl ⟨row', hrow', .refl row'⟩
  | ok answer =>
    rw [htx] at hrow'
    simp only [find?_insert_of_ok htx] at hrow'
    split at hrow'
    · next hsame =>
      subst hsame
      exact .inr ⟨rfl, (Option.some.inj hrow').symm⟩
    · exact .inl ⟨row', hrow', .refl row'⟩

theorem Commits.carried (h : Commits s e db') (hrecovery : ∀ now, e ≠ .recoveryMoves now)
    (hrow' : db'.operations.find? j = some row') :
    (∃ row, s.db.operations.find? j = some row ∧ Carries row row') ∨
      ∃ new now, s.inserts e = some new ∧ e.draws = some j ∧ row' = new.row j now := by
  cases h with
  | nothing => exact .inl ⟨row', hrow', .refl row'⟩
  | advances _ _ _ | asksCancel _ | dismisses _ _ | pays _ =>
    apply Or.inl
    apply carried_of_rewrite _ hrow'
    intro r
    exact ⟨rfl, rfl, rfl, rfl, fun hopen => hopen, fun hqueued => hqueued⟩
  | settles id state error now hterminal hsettles =>
    apply Or.inl
    apply carried_of_rewrite _ hrow'
    intro r
    exact carries_settledRow hterminal error now r
  | inserts new id now hinserts hdraws =>
    refine (carried_of_insert hrow').imp_right fun ⟨hid, hnew⟩ => ?_
    exact ⟨new, now, hinserts, hid ▸ hdraws, hnew⟩
  | begins id now hevent =>
    left
    rcases find?_after_begin s.db id now j with hsame | hbegun
    · exact ⟨row', hsame ▸ hrow', .refl row'⟩
    · rw [hbegun] at hrow'
      obtain ⟨row, hrow, rfl⟩ := Option.map_eq_some_iff.mp hrow'
      exact ⟨row, hrow, carries_begunRow now row⟩
  | cleansUp kind server target now hevent => exact absurd hevent (hrecovery now)

end Carrying

end CraftPanel.Ops
