import CraftPanel.Ops.Recovering

/-!
# What one statement writes

Every event of the machine writes at most one thing: it rewrites a row without moving it, settles a
row, inserts one, begins one, or cleans up after one. What holds of the table whatever interleaves
is proved once for each of these.
-/

namespace CraftPanel.Ops

open Framework

/-- The database after one event, by what the event writes. -/
inductive Writes (s : System) (e : Event) : Database → Prop
  | nothing : Writes s e s.db
  | rewrites (id : Id) (f : OperationRow → OperationRow) (hf : ∀ r, (f r).id = r.id)
      (hkeeps : ∀ r, (f r).kind = r.kind ∧ (f r).serverId = r.serverId ∧ (f r).state = r.state) :
      Writes s e (after s.db (rewrite id f hf))
  | settles (id : Id) (state : OperationState) (error : Option OperationError) (now : Timestamp)
      (hsettles : s.settles e = some id)
      (hstate : state = .failed ∨ e = .finish id now ∨ e = .cancelled id now ∨
        ∃ seen, .cancel seen ∈ s.handlers ∧ seen.id = id) :
      Writes s e (after s.db (settle id state error now))
  | inserts (new : NewOperation) (id : Id) (now : Timestamp)
      (hnew : e = .create new id now ∨ ∃ i carried, e = .handlerMoves i id carried now) :
      Writes s e (after s.db (insert new id now))
  | begins (id : Id) (now : Timestamp) (hbegin : e = .begin id now) :
      Writes s e (after s.db (begin id now))
  | cleansUp (kind : OperationKind) (server : Id) (target : Option Id) :
      Writes s e (cleanUpAfter s.db kind server target)

section Step

variable {s t : System} {e : Event}

theorem db_of_begin {id : Id} {now : Timestamp} (h : s.step (.begin id now) = some t) :
    t.db = after s.db (begin id now) := by
  simp only [System.step] at h
  unfold after
  cases htx : begin id now s.db with
  | error fault =>
    simp only [htx, Option.some.injEq] at h
    exact h ▸ rfl
  | ok answer =>
    obtain ⟨db', started⟩ := answer
    cases started with
    | none =>
      obtain ⟨-, rfl⟩ | ⟨_, -, -, hnone, -⟩ := begin_ok htx
      · simp only [htx, Option.some.injEq] at h
        exact h ▸ rfl
      · simp at hnone
    | some row =>
      simp only [htx, Option.some.injEq] at h
      exact h ▸ rfl

theorem writes_handlerMoves {i : Nat} {fresh : Id} {carried : Bool} {now : Timestamp}
    {handler : Handler} (hi : s.handlers[i]? = some handler) :
    Writes s (.handlerMoves i fresh carried now) (handler.next s.db fresh carried now).1 := by
  cases handler with
  | cancel seen =>
    simp only [Handler.next]
    split
    · rename_i hqueued
      refine .settles _ _ _ now (by simp [System.settles, hi, hqueued]) ?_
      exact .inr (.inr (.inr ⟨seen, List.mem_of_getElem? hi, rfl⟩))
    · exact .rewrites _ _ _ fun _ => ⟨rfl, rfl, rfl⟩
  | retryGuard seen caller =>
    simp only [Handler.next]
    split <;> exact .nothing
  | retryInputs old caller => exact .nothing
  | retryCreate old inputs =>
    simp only [Handler.next]
    split
    · rename_i htx
      exact after_of_ok htx ▸ .inserts _ _ _ (.inr ⟨i, carried, rfl⟩)
    · exact .nothing
  | retryPayload old made =>
    simp only [Handler.next]
    split
    · rename_i htx
      exact after_of_ok htx ▸ .rewrites _ _ _ fun _ => ⟨rfl, rfl, rfl⟩
    · exact .nothing
  | retryDismiss old => exact .rewrites _ _ _ fun _ => ⟨rfl, rfl, rfl⟩

theorem writes_step (h : s.step e = some t) : Writes s e t.db := by
  cases e with
  | create new id now =>
    cases h
    exact .inserts _ _ _ (.inl rfl)
  | begin id now =>
    exact db_of_begin h ▸ .begins _ _ rfl
  | advance id step now =>
    cases h
    exact .rewrites _ _ _ fun _ => ⟨rfl, rfl, rfl⟩
  | finish id now =>
    cases h
    exact .settles _ _ _ now rfl (.inr (.inl rfl))
  | fail id error now =>
    cases h
    exact .settles _ _ _ now rfl (.inl rfl)
  | cancelled id now =>
    cases h
    exact .settles _ _ _ now rfl (.inr (.inr (.inl rfl)))
  | requestCancel id =>
    cases h
    exact .rewrites _ _ _ fun _ => ⟨rfl, rfl, rfl⟩
  | returns id =>
    cases h
    exact .nothing
  | cancelReads id | retryReads id caller =>
    cases h
    exact (opens_db ..).symm ▸ .nothing
  | handlerMoves i fresh carried now =>
    obtain ⟨handler, hi, hdb, -, -⟩ := step_handlerMoves h
    exact hdb ▸ writes_handlerMoves hi
  | sweepReadsStalled before | sweepReadsUnpaid before | sweepSettles now | recoveryReads
  | recoveryMoves now =>
    have haside := (step_aside h rfl).1
    generalize t.db = db at haside ⊢
    cases haside with
    | nothing => exact .nothing
    | fails id error now hsettles => exact .settles _ _ _ now hsettles (.inl rfl)
    | cleansUp => exact .cleansUp ..

theorem next_ne_cancel {db : Database} {handler : Handler} {fresh : Id} {carried : Bool}
    {now : Timestamp} {seen : OperationRow} :
    (handler.next db fresh carried now).2 ≠ some (.cancel seen) := by
  cases handler with
  | cancel row =>
    simp only [Handler.next]
    split <;> simp
  | retryGuard row caller =>
    simp only [Handler.next]
    split <;> simp
  | retryInputs old caller => simp [Handler.next]
  | retryCreate old inputs =>
    simp only [Handler.next]
    split
    · split <;> simp
    · simp
  | retryPayload old made =>
    simp only [Handler.next]
    split <;> simp
  | retryDismiss old => simp [Handler.next]

theorem cancels_step {seen : OperationRow} (h : s.step e = some t)
    (hmem : .cancel seen ∈ t.handlers) :
    .cancel seen ∈ s.handlers ∨
      ∃ id, s.db.operations.find? id = some seen ∧ mayCancel seen = true := by
  have hopens : ∀ (id : Id) (check : OperationRow → Bool) (handler : OperationRow → Handler),
      .cancel seen ∈ (s.opens id check handler).handlers → .cancel seen ∈ s.handlers ∨
        ∃ row, s.db.operations.find? id = some row ∧ check row = true ∧
          handler row = .cancel seen := by
    intro id check handler hin
    unfold System.opens at hin
    split at hin
    · rename_i row hrow
      split at hin
      · rename_i hcheck
        rcases List.mem_append.mp hin with hold | hnew
        · exact .inl hold
        · exact .inr ⟨row, hrow, hcheck, (List.mem_singleton.mp hnew).symm⟩
      · exact .inl hin
    · exact .inl hin
  cases e with
  | cancelReads id =>
    cases h
    rcases hopens id _ _ hmem with hold | ⟨row, hrow, hcheck, heq⟩
    · exact .inl hold
    · obtain rfl := Handler.cancel.inj heq
      exact .inr ⟨id, hrow, hcheck⟩
  | retryReads id caller =>
    cases h
    rcases hopens id _ _ hmem with hold | ⟨row, -, -, heq⟩
    · exact .inl hold
    · simp at heq
  | handlerMoves i fresh carried now =>
    obtain ⟨handler, -, -, -, hhandlers⟩ := step_handlerMoves h
    exact .inl ((hhandlers _ hmem).resolve_right next_ne_cancel)
  | begin id now =>
    simp only [System.step] at h
    split at h <;> (obtain rfl := Option.some.inj h; exact .inl hmem)
  | create new id now | advance id step now | finish id now | fail id error now
  | cancelled id now | requestCancel id | returns id =>
    cases h
    exact .inl hmem
  | sweepReadsStalled before | sweepReadsUnpaid before | sweepSettles now | recoveryReads
  | recoveryMoves now => exact .inl ((step_aside h rfl).2.2 ▸ hmem)

end Step

/-- The events that end a run otherwise than by failing it. -/
def endsWell (s : System) (e : Event) (id : Id) : Prop :=
  (∃ now, e = .finish id now ∨ e = .cancelled id now) ∨
    ∃ seen, .cancel seen ∈ s.handlers ∧ seen.id = id ∧ s.settles e = some id

def isPending (row : OperationRow) : Bool := row.state.isOpen || row.state = .failed

section Frames

variable {s : System} {e : Event} {db db' : Database} {id server : Id} {row row' : OperationRow}

theorem statusOf_bumpRevision (other : Id) :
    statusOf (bumpRevision db other) server = statusOf db server := by
  simp only [statusOf, bumpRevision, Database.updateServer]
  rw [Table.find?_modify]
  split
  · cases db.servers.find? server <;> rfl
  · rfl

theorem statusOf_insert (new : NewOperation) (now : Timestamp) :
    statusOf (after db (insert new id now)) server = statusOf db server := by
  unfold after insert
  dsimp only
  split
  · rename_i htx
    split at htx
    · simp at htx
    split at htx
    · simp at htx
    · cases htx
      exact statusOf_bumpRevision _
  · rfl

theorem statusOf_begin (now : Timestamp) :
    statusOf (after db (begin id now)) server = statusOf db server := by
  unfold after begin
  cases db.operations.find? id with
  | none => rfl
  | some row =>
    dsimp only
    split
    · rename_i htx
      split at htx
      · cases htx
        rfl
      split at htx
      · cases htx
        rfl
      · cases htx
        exact statusOf_bumpRevision _
    · rfl

theorem Writes.deleting (h : Writes s e db') (hstatus : statusOf db' server = some .deleting) :
    statusOf s.db server = some .deleting := by
  cases h with
  | nothing => exact hstatus
  | rewrites id f hf hkeeps => exact (after_rewrite_frame s.db id f hf).1 server ▸ hstatus
  | settles id state error now hsettles hstate =>
    exact (after_rewrite_frame s.db id (settledRow state error now) fun _ => rfl).1 server ▸ hstatus
  | inserts new id now hnew => exact statusOf_insert new now ▸ hstatus
  | begins id now hbegin => exact statusOf_begin now ▸ hstatus
  | cleansUp kind other target =>
    rw [statusOf_cleanUpAfter] at hstatus
    split at hstatus
    · cases hold : statusOf s.db server <;> simp [hold] at hstatus
    · exact hstatus

theorem find?_insert_of_ok {new : NewOperation} {now : Timestamp} {made : OperationRow}
    (h : insert new id now db = .ok (db', made)) (j : Id) :
    db'.operations.find? j = if j = id then some (new.row id now) else db.operations.find? j :=
  Table.find?_insert (insert_ok h).1 j

theorem find?_after_begin (db : Database) (id : Id) (now : Timestamp) (j : Id) :
    (after db (begin id now)).operations.find? j = db.operations.find? j ∨
      (after db (begin id now)).operations.find? j =
        (db.operations.find? j).map (begunRow now) := by
  unfold after
  cases htx : begin id now db with
  | error fault => exact .inl rfl
  | ok answer =>
    obtain ⟨-, hdb⟩ | ⟨old, -, -, -, -, hfind⟩ := begin_ok htx
    · exact .inl (hdb ▸ rfl)
    rw [hfind]
    split
    · exact .inr rfl
    · exact .inl rfl

theorem find?_cleanUpAfter (db : Database) (kind : OperationKind) (other : Id)
    (target : Option Id) (j : Id) :
    ∃ f : OperationRow → OperationRow,
      (cleanUpAfter db kind other target).operations.find? j = (db.operations.find? j).map f ∧
        ∀ r, (f r).kind = r.kind ∧ (f r).serverId = r.serverId ∧ (f r).state = r.state := by
  have hsame : ∃ f : OperationRow → OperationRow,
      db.operations.find? j = (db.operations.find? j).map f ∧
        ∀ r, (f r).kind = r.kind ∧ (f r).serverId = r.serverId ∧ (f r).state = r.state :=
    ⟨fun r => r, by simp, fun _ => ⟨rfl, rfl, rfl⟩⟩
  unfold cleanUpAfter
  split
  case h_8 =>
    split
    · rename_i backup
      split
      · exact hsame
      · refine ⟨dropTarget backup, Table.find?_map _ _ _ (dropTarget_id backup), fun r => ?_⟩
        unfold dropTarget
        split <;> exact ⟨rfl, rfl, rfl⟩
    · exact hsame
  all_goals exact hsame

theorem Writes.row_before (h : Writes s e db') (hrow' : db'.operations.find? id = some row') :
    (∃ row, s.db.operations.find? id = some row ∧ row'.kind = row.kind ∧
        row'.serverId = row.serverId) ∨
      ∃ new now, e = .create new id now ∨ ∃ i carried, e = .handlerMoves i id carried now := by
  have hmapped : ∀ f : OperationRow → OperationRow,
      (∀ r, (f r).kind = r.kind ∧ (f r).serverId = r.serverId) →
      (s.db.operations.find? id).map f = some row' → ∃ row, s.db.operations.find? id = some row ∧
        row'.kind = row.kind ∧ row'.serverId = row.serverId := by
    intro f hf hmap
    obtain ⟨row, hrow, rfl⟩ := Option.map_eq_some_iff.mp hmap
    exact ⟨row, hrow, hf row⟩
  cases h with
  | nothing => exact .inl ⟨row', hrow', rfl, rfl⟩
  | rewrites other f hf hkeeps =>
    rw [find?_after_rewrite] at hrow'
    split at hrow'
    · exact .inl (hmapped f (fun r => ⟨(hkeeps r).1, (hkeeps r).2.1⟩) hrow')
    · exact .inl ⟨row', hrow', rfl, rfl⟩
  | settles other state error now hsettles hstate =>
    rw [find?_after_settle] at hrow'
    split at hrow'
    · exact .inl (hmapped (settledRow state error now) (fun _ => ⟨rfl, rfl⟩) hrow')
    · exact .inl ⟨row', hrow', rfl, rfl⟩
  | inserts new other now hnew =>
    unfold after at hrow'
    cases htx : insert new other now s.db with
    | error fault =>
      rw [htx] at hrow'
      exact .inl ⟨row', hrow', rfl, rfl⟩
    | ok answer =>
      rw [htx] at hrow'
      simp only [find?_insert_of_ok htx] at hrow'
      split at hrow'
      · rename_i hid
        subst hid
        exact .inr ⟨new, now, hnew⟩
      · exact .inl ⟨row', hrow', rfl, rfl⟩
  | begins other now hbegin =>
    rcases find?_after_begin s.db other now id with hfind | hfind
    · exact .inl ⟨row', hfind ▸ hrow', rfl, rfl⟩
    · refine .inl (hmapped (begunRow now) (fun r => ?_) (hfind ▸ hrow'))
      unfold begunRow
      split <;> exact ⟨rfl, rfl⟩
  | cleansUp kind other target =>
    obtain ⟨f, hfind, hf⟩ := find?_cleanUpAfter s.db kind other target id
    exact .inl (hmapped f (fun r => ⟨(hf r).1, (hf r).2.1⟩) (hfind ▸ hrow'))

theorem Writes.pending (h : Writes s e db') (hrow : s.db.operations.find? id = some row)
    (hpending : isPending row = true) (hends : ¬ endsWell s e id) :
    ∃ row', db'.operations.find? id = some row' ∧ row'.kind = row.kind ∧
      row'.serverId = row.serverId ∧ isPending row' = true := by
  cases h with
  | nothing => exact ⟨row, hrow, rfl, rfl, hpending⟩
  | rewrites other f hf hkeeps =>
    rw [find?_after_rewrite, hrow]
    split
    · obtain ⟨hkind, hserver, hstate⟩ := hkeeps row
      exact ⟨f row, rfl, hkind, hserver, by simpa [isPending, hstate] using hpending⟩
    · exact ⟨row, rfl, rfl, rfl, hpending⟩
  | settles other state error now hsettles hstate =>
    rw [find?_after_settle, hrow]
    by_cases hid : id = other
    · subst hid
      rw [if_pos rfl]
      have hfailed : state = .failed := by
        rcases hstate with rfl | he | he | ⟨seen, hseen, hid⟩
        · rfl
        · exact absurd (.inl ⟨now, .inl he⟩) hends
        · exact absurd (.inl ⟨now, .inr he⟩) hends
        · exact absurd (.inr ⟨seen, hseen, hid, hsettles⟩) hends
      exact ⟨_, rfl, rfl, rfl, by simp [isPending, settledRow, hfailed]⟩
    · rw [if_neg hid]
      exact ⟨row, rfl, rfl, rfl, hpending⟩
  | inserts new other now hnew =>
    refine ⟨row, ?_, rfl, rfl, hpending⟩
    unfold after
    cases htx : insert new other now s.db with
    | error fault => exact hrow
    | ok answer => exact Table.find?_of_insert (insert_ok htx).1 hrow
  | begins other now hbegin =>
    rcases find?_after_begin s.db other now id with hfind | hfind
    · exact ⟨row, hfind ▸ hrow, rfl, rfl, hpending⟩
    refine ⟨begunRow now row, by rw [hfind, hrow]; rfl, ?_⟩
    unfold begunRow
    split
    · exact ⟨rfl, rfl, rfl⟩
    · exact ⟨rfl, rfl, hpending⟩
  | cleansUp kind other target =>
    obtain ⟨f, hfind, hf⟩ := find?_cleanUpAfter s.db kind other target id
    obtain ⟨hkind, hserver, hstate⟩ := hf row
    exact ⟨f row, by rw [hfind, hrow]; rfl, hkind, hserver,
      by simpa [isPending, hstate] using hpending⟩

end Frames

end CraftPanel.Ops
