import CraftPanel.Backups.Books

/-!
# What a restore leaves in the books

The steps of the operations, of the requests and of the restores: what each of them writes keeps
the rows and the books together, and a restore that goes on to its turn has found its safety copy
done, or reuses the one that its request has found.
-/

namespace CraftPanel.Backups.SafetyCopies

open Framework Restore

section Backups

variable {db : Database} {id : Id}

theorem rewrite_backups (f : OperationRow → OperationRow) (hf : ∀ r, (f r).id = r.id) :
    (Ops.after db (Ops.rewrite id f hf)).backups = db.backups := by
  unfold Ops.after Ops.rewrite
  cases db.operations.find? id <;> rfl

theorem insert_backups {new : Ops.NewOperation} {now : Timestamp} {db' : Database}
    {made : OperationRow} (h : Ops.insert new id now db = .ok (db', made)) :
    db'.backups = db.backups := by
  unfold Ops.insert at h
  simp only at h
  split at h
  · cases h
  split at h
  · cases h
  · cases h
    rfl

theorem after_insert_backups (new : Ops.NewOperation) (now : Timestamp) :
    (Ops.after db (Ops.insert new id now)).backups = db.backups := by
  unfold Ops.after
  cases htx : Ops.insert new id now db with
  | error fault => rfl
  | ok answer => exact insert_backups htx

theorem begin_backups {now : Timestamp} {db' : Database} {answer : Option OperationRow}
    (h : Ops.begin id now db = .ok (db', answer)) : db'.backups = db.backups := by
  unfold Ops.begin at h
  split at h
  · cases h
  split at h
  · cases h
    rfl
  simp only at h
  split at h <;>
  · cases h
    rfl

theorem after_begin_backups (now : Timestamp) :
    (Ops.after db (Ops.begin id now)).backups = db.backups := by
  unfold Ops.after
  cases htx : Ops.begin id now db with
  | error fault => rfl
  | ok answer => exact begin_backups htx

theorem mem_deleteBackup {backup : Id} {row : BackupRow}
    (h : row ∈ (Ops.deleteBackup db backup).backups.rows) : row ∈ db.backups.rows :=
  (List.mem_filter.mp h).1

theorem mem_updateBackup {f : BackupRow → BackupRow} {hf : ∀ r, (f r).id = r.id} {row : BackupRow}
    (h : row ∈ (db.updateBackup id f hf).backups.rows) :
    ∃ old ∈ db.backups.rows, row = old ∨ old.id = id ∧ row = f old :=
  Table.mem_modify hf h

theorem ops_backups {o o' : Ops.System} {e : Ops.Event} (h : o.step e = some o')
    {row : BackupRow} (hmem : row ∈ o'.db.backups.rows) : row ∈ o.db.backups.rows := by
  have hwrites := Ops.writes_step h
  generalize o'.db = after at hmem hwrites
  cases hwrites with
  | nothing => exact hmem
  | rewrites other f hf hkeeps => exact rewrite_backups f hf ▸ hmem
  | settles other state error now hsettles hstate => exact rewrite_backups _ _ ▸ hmem
  | inserts new other now hnew => exact after_insert_backups new now ▸ hmem
  | begins other now hbegin => exact after_begin_backups now ▸ hmem
  | cleansUp kind server target =>
    unfold Ops.cleanUpAfter at hmem
    split at hmem
    case h_8 =>
      split at hmem
      · split at hmem
        · exact hmem
        · exact mem_deleteBackup hmem
      · exact hmem
    all_goals exact hmem

end Backups

section Restores

variable {s t : System}

theorem Inv.ops (h : Inv s) {e : Ops.Event} {ops : Ops.System}
    (hstep : s.base.ops.step e = some ops)
    (hinserts : (s.base.ops.inserts e).all (fun new => !isBackup new.kind) = true)
    (hfin : ∀ j row, e.finishes = some j → s.db.operations.find? j = some row →
      row.kind = .backupCreate → ∀ c, s.books.targets j = some c → (s.books.made c).isSome) :
    Inv { s with base := { s.base with ops } } := by
  obtain ⟨hkeeps, hpersists⟩ := ops_keeps hstep hinserts
  refine h.stays (.refl _) (fun _ hsome => hsome) hpersists h.sound ?_ ?_ rfl rfl rfl
  · exact h.rows.keeps (.refl _) hkeeps hfin
  · intro row hmem
    exact .inl (ops_backups hstep hmem)

theorem Inv.asks (h : Inv s) {request : Request} (hcopies : request.copies = true)
    (htodo : .status ∈ request.todo ∨ .lastRun ∈ request.todo) :
    Inv { s with base := { s.base with requests := s.base.requests ++ [request] } } := by
  refine h.mono (.refl _) (fun _ hsome => hsome) (.of_eq rfl) h.sound h.rows ?_ ?_ ?_ ?_
  · intro row hmem
    exact .inl hmem
  · intro other hmem
    rcases List.mem_append.mp hmem with hold | hnew
    · exact .inl hold
    · rw [List.mem_singleton] at hnew
      rw [hnew]
      exact .inr ⟨.inr htodo, .inl hcopies⟩
  · intro run hmem
    exact .inl hmem
  · intro run hmem
    exact .inl hmem

theorem reuses_of_safetyCopyFor (hrows : RowsInv s.books s.db) {backup copy : Id}
    (hcopy : safetyCopyFor s.db backup = some copy)
    (hmade : (s.books.made copy).isSome) : Reuses s.books backup := by
  obtain ⟨run, hnewest, htarget⟩ := Option.bind_eq_some_iff.mp hcopy
  obtain ⟨hrun, htest⟩ := newest_select hnewest
  simp only [Bool.and_eq_true, decide_eq_true_eq, Option.any_eq_true] at htest
  obtain ⟨⟨hkind, -⟩, attempt, hparent, hrestore, hof⟩ := htest
  obtain ⟨parent, hparent, hattempt⟩ := Option.bind_eq_some_iff.mp hparent
  have hkey : attempt.id = parent := Table.find?_key hattempt
  have hinv := hrows run.id run hrun
  obtain ⟨c, born, hc, hborn, -, hown⟩ := hinv.create hkind
  have haims := hinv.target (by simp [isBackup, hkind]) copy htarget
  obtain rfl : c = copy := Option.some.inj (hc.symm.trans haims)
  refine ⟨c, parent, hmade, ?_, ?_⟩
  · exact Option.bind_eq_some_iff.mpr ⟨born, hborn, hown parent hparent⟩
  · rw [← hkey]
    exact (hrows parent attempt hattempt).target (by simp [isBackup, hrestore]) backup hof

theorem RequestInv.check (h : Inv s) {request request' : Request} {todo : List Check}
    {check : Check} {ok : Bool} (hrequest : RequestInv s.books request)
    (htodo : request.todo = check :: todo)
    (hstatus : check = .status → (s.db.backups.find? request.backup).all
      (fun row => !calledOff s.db row) = true)
    (hcopy : check = .copy → ((safetyCopyFor s.db request.backup).bind s.db.backups.find?).all
      (fun row => !calledOff s.db row) = true)
    (hcheck : s.base.check ok { request with todo } check = some request') :
    RequestInv s.books request' := by
  have hdone : ∀ row, s.db.backups.find? row.id = some row → isDone s.db row = true →
      calledOff s.db row = false → (s.books.made row.id).isSome := by
    intro row hrow hdone hoff
    exact made_of_isDone h.rows (h.backups row (Table.find?_mem hrow)).2 hdone hoff
  have hrest : ∀ more : List Check, check ≠ .status → check ≠ .lastRun →
      RequestInv s.books { request with todo := more ++ todo } := by
    intro more hnotStatus hnotLast
    refine ⟨?_, hrequest.reuses⟩
    have hmade := hrequest.made
    rw [htodo] at hmade
    simp only [List.mem_cons, hnotStatus.symm, hnotLast.symm, false_or] at hmade
    refine hmade.imp_right (Or.imp ?_ ?_) <;>
    · intro hmem
      exact List.mem_append_right _ hmem
  cases check with
  | status =>
    simp only [Restore.System.check] at hcheck
    split at hcheck
    · next hfound =>
      cases hcheck
      refine ⟨.inl ?_, hrequest.reuses⟩
      obtain ⟨row, hrow, hisDone⟩ := (Option.any_eq_true _ _).mp hfound
      have hkey : row.id = request.backup := Table.find?_key hrow
      have hoff : calledOff s.db row = false := by
        have hall := hstatus rfl
        rw [show s.db.backups.find? request.backup = some row from hrow] at hall
        simpa using hall
      rw [← hkey]
      apply hdone row _ hisDone hoff
      rw [hkey]
      exact hrow
    · cases hcheck
  | lastRun =>
    simp only [Restore.System.check] at hcheck
    split at hcheck
    · next hfound =>
      cases hcheck
      refine ⟨.inl ?_, hrequest.reuses⟩
      obtain ⟨run, hrun, hlast⟩ := (Option.any_eq_true _ _).mp hfound
      simp only [Bool.and_eq_true, decide_eq_true_eq] at hlast
      obtain ⟨hfind, htest⟩ := newest_select hrun
      simp only [isRunOf, Bool.and_eq_true, decide_eq_true_eq] at htest
      have hinv := h.rows run.id run hfind
      obtain ⟨-, c, hc, hmade⟩ := hinv.restore hlast.2
      have haims := hinv.target (by simp [isBackup, hlast.2]) _ htest.1
      obtain rfl : c = request.backup := Option.some.inj (hc.symm.trans haims)
      exact hmade
    · cases hcheck
  | copy =>
    have hcopies : RequestInv s.books { request with todo := [.quota, .space] ++ todo } :=
      hrest [.quota, .space] (by decide) (by decide)
    simp only [Restore.System.check] at hcheck
    split at hcheck
    · next copy hfound =>
      simp only [Option.map_eq_some_iff] at hcheck
      obtain ⟨row, hrow, hcheck⟩ := hcheck
      split at hcheck
      · next hisDone =>
        cases hcheck
        have hkey : row.id = copy := Table.find?_key hrow
        have hoff : calledOff s.db row = false := by
          have hall := hcopy rfl
          rw [show safetyCopyFor s.db request.backup = some copy from hfound, Option.bind_some,
            show s.db.backups.find? copy = some row from hrow] at hall
          simpa using hall
        have hmade : (s.books.made copy).isSome := by
          rw [← hkey]
          exact hdone row (hkey ▸ hrow) hisDone hoff
        exact ⟨(hrest [] (by decide) (by decide)).made,
          .inr (reuses_of_safetyCopyFor h.rows hfound hmade)⟩
      · cases hcheck
        exact hcopies
    · cases hcheck
      exact hcopies
  | runningLink =>
    simp only [Restore.System.check] at hcheck
    split at hcheck
    · next k _ =>
      cases hcheck
      exact hrest [.linkState k] (by decide) (by decide)
    · cases hcheck
      exact hrest [] (by decide) (by decide)
  | source =>
    simp only [Restore.System.check] at hcheck
    split at hcheck
    · split at hcheck
      · cases hcheck
        exact hrest [] (by decide) (by decide)
      · cases hcheck
    · cases hcheck
  | _ =>
    simp only [Restore.System.check] at hcheck
    split at hcheck <;> cases hcheck
    exact hrest [] (by simp) (by simp)

theorem Inv.checks (h : Inv s) {i : Nat} {ok : Bool} {base : Restore.System}
    (htrusts : s.trusts (.base (.checks i ok)) = true) (hstep : s.base.checks i ok = some base) :
    Inv { s with base } := by
  have hkept : ∀ requests : List Request,
      (∀ request ∈ requests, request ∈ s.base.requests ∨ RequestInv s.books request) →
      Inv { s with base := { s.base with requests } } := by
    intro requests hrequests
    refine h.mono (.refl _) (fun _ hsome => hsome) (.of_eq rfl) h.sound h.rows ?_ hrequests ?_ ?_
    · intro row hmem
      exact .inl hmem
    · intro run hmem
      exact .inl hmem
    · intro run hmem
      exact .inl hmem
  unfold Restore.System.checks at hstep
  split at hstep
  · next request hi =>
    split at hstep
    · next check todo htodo =>
      split at hstep
      · next request' hcheck =>
        cases hstep
        apply hkept
        intro other hmem
        rcases List.mem_or_eq_of_mem_set hmem with hold | rfl
        · exact .inl hold
        right
        have hrequest := h.requests request (List.mem_of_getElem? hi)
        refine hrequest.check h htodo ?_ ?_ hcheck
        · rintro rfl
          simpa [System.trusts, hi, htodo] using htrusts
        · rintro rfl
          simpa [System.trusts, hi, htodo] using htrusts
      · cases hstep
        apply hkept
        intro other hmem
        exact .inl (List.mem_of_mem_eraseIdx hmem)
    · cases hstep
  · cases hstep

variable {id : Id}

theorem RowsInv.insert {a b : Books} {db db' : Database} {new : Ops.NewOperation}
    {now : Timestamp} {made : OperationRow} (h : RowsInv a db) (hgrows : Grows a b)
    (hinsert : Ops.insert new id now db = .ok (db', made)) (hnew : RowInv b (new.row id now)) :
    RowsInv b db' := by
  intro j row hrow
  rw [Ops.find?_insert_of_ok hinsert] at hrow
  split at hrow
  · rw [← Option.some.inj hrow]
    exact hnew
  · exact (h j row hrow).mono hgrows

theorem Inv.creating (h : Inv s) {i : Nat} {now : Timestamp} {base : Restore.System}
    (hadmits : s.admits (.creates i id now) = true) (hstep : s.base.creates i id now = some base) :
    Inv { s with base, books := s.notes (.creates i id now) } := by
  have hfresh : s.books.targets id = none := by simpa [System.admits] using hadmits
  unfold Restore.System.creates at hstep
  split at hstep
  · next request hi =>
    have hnotes : s.notes (.creates i id now) = s.books.asks id request.backup request.copies := by
      simp [System.notes, hi]
    have hrequest := h.requests request (List.mem_of_getElem? hi)
    rw [hnotes]
    split at hstep
    · next htodo =>
      have hmade : (s.books.made request.backup).isSome := by
        rcases hrequest.made with hmade | hmem | hmem
        · exact hmade
        · rw [htodo] at hmem
          cases hmem
        · rw [htodo] at hmem
          cases hmem
      have hborn : (s.books.born request.backup).isSome := by
        obtain ⟨v, hv⟩ := Option.isSome_iff_exists.mp hmade
        obtain ⟨born, hborn, -⟩ := h.sound.made _ v hv
        rw [hborn]
        rfl
      have hgrows := grows_asks h.sound hfresh request.backup request.copies
      have hsound := h.sound.asks hfresh hborn request.copies
      have hasked : (s.books.asks id request.backup request.copies).asked id =
          some ⟨s.books.directory, request.copies⟩ := by
        simp [Books.asks]
      have htarget : (s.books.asks id request.backup request.copies).targets id =
          some request.backup := by
        simp [Books.asks]
      have hleft : ∀ other ∈ s.base.requests.eraseIdx i, other ∈ s.base.requests ∨
          RequestInv (s.books.asks id request.backup request.copies) other := by
        intro other hmem
        exact .inl (List.mem_of_mem_eraseIdx hmem)
      split at hstep
      · next db made hinsert =>
        simp only [Option.map_eq_some_iff] at hstep
        obtain ⟨runs, hruns, rfl⟩ := hstep
        refine h.mono hgrows (fun _ hsome => hsome) (persists_insert hinsert) hsound ?_ ?_ hleft ?_ ?_
        · apply h.rows.insert hgrows hinsert
          constructor
          · intro _
            exact ⟨Option.isSome_iff_exists.mpr ⟨_, hasked⟩, request.backup, htarget,
              hgrows.made _ hmade⟩
          · intro hkind
            cases hkind
          · intro _ c hof
            cases hof
            exact htarget
        · intro row hmem
          exact .inl (insert_backups hinsert ▸ hmem)
        · intro run hmem
          rw [Table.rows_of_insert hruns] at hmem
          rcases List.mem_append.mp hmem with hold | hnew
          · exact .inl hold
          rw [List.mem_singleton] at hnew
          rw [hnew]
          refine .inr ⟨⟨(s.base.newRestore request).row id now, ?_, rfl⟩, ?_⟩
          · exact (Ops.find?_insert_of_ok hinsert id).trans (if_pos rfl)
          show PhaseInv _ _ id (if request.copies then .copies else .opened)
          split
          · trivial
          next hcopies =>
          right
          obtain hnot | hreuses := hrequest.reuses
          · exact absurd hnot hcopies
          obtain ⟨copy, attempt, hcopy, hof, haims⟩ := hreuses.mono hgrows
          refine ⟨_, copy, attempt, hasked, hcopy, hof, haims.trans htarget.symm, ?_, ?_⟩
          · rw [htarget]
            rfl
          · intro hown
            exact absurd hown hcopies
        · intro run hmem
          exact .inl hmem
      · cases hstep
        refine h.mono hgrows (fun _ hsome => hsome) (.of_eq rfl) hsound ?_ ?_ hleft ?_ ?_
        · intro j row hrow
          exact (h.rows j row hrow).mono hgrows
        · intro row hmem
          exact .inl hmem
        · intro run hmem
          exact .inl hmem
        · intro run hmem
          exact .inl hmem
    · cases hstep
  · cases hstep

/-- What a step of one restore leaves, and where it leaves the restore. -/
structure Stepped (s : System) (books : Books) (ops : Ops.System) (restore : Id)
    (phase : Option Phase) : Prop where
  grows : Grows s.books books
  archives : ∀ c, (s.books.archives c).isSome → (books.archives c).isSome
  sound : Sound books
  persists : Persists s.db ops.db
  rows : RowsInv books ops.db
  backups : ∀ row ∈ ops.db.backups.rows, row ∈ s.db.backups.rows ∨
    (books.born row.id).isSome ∧ (0 < row.sizeBytes → (books.made row.id).isSome)
  phase : ∀ next, phase = some next → PhaseInv books ops.db restore next

variable {restore : Id} {phase : Option Phase}

theorem stepped_still (h : Inv s)
    (hphase : ∀ next, phase = some next → PhaseInv s.books s.db restore next) :
    Stepped s s.books s.base.ops restore phase where
  grows := .refl _
  archives := fun _ hsome => hsome
  sound := h.sound
  persists := .of_eq rfl
  rows := h.rows
  backups := fun _ hmem => .inl hmem
  phase := hphase

theorem stepped_ops (h : Inv s) {e : Ops.Event} {ops : Ops.System}
    (hstep : s.base.ops.step e = some ops)
    (hinserts : (s.base.ops.inserts e).all (fun new => !isBackup new.kind) = true)
    (hfin : ∀ j row, e.finishes = some j → s.db.operations.find? j = some row →
      row.kind ≠ .backupCreate)
    (hphase : ∀ next, phase = some next → PhaseInv s.books s.db restore next) :
    Stepped s s.books ops restore phase := by
  obtain ⟨hkeeps, hpersists⟩ := ops_keeps hstep hinserts
  constructor
  · exact .refl _
  · intro c hsome
    exact hsome
  · exact h.sound
  · exact hpersists
  · apply h.rows.keeps (.refl _) hkeeps
    intro j row hnow hrow hkind
    exact absurd hkind (hfin j row hnow hrow)
  · intro row hmem
    exact .inl (ops_backups hstep hmem)
  · intro next hnext
    exact (hphase next hnext).mono (.refl _) hpersists

theorem insert_of_fresh (h : Inv s) {row : BackupRow} (hfresh : s.books.born row.id = none) :
    s.db.backups.insert row ≠ none := by
  intro hnone
  unfold Table.insert at hnone
  split at hnone
  · next hmem =>
    obtain ⟨other, hother, hsame⟩ := List.mem_map.mp hmem
    have hborn := (h.backups other hother).1
    rw [hsame, hfresh] at hborn
    cases hborn
  · cases hnone

variable {copy : Id}

theorem stepped_copies (h : Inv s) {row : BackupRow}
    {backups : Table BackupRow.id} (hfresh : s.books.born copy = none) (hid : row.id = copy)
    (hsize : row.sizeBytes = 0) (hasked : (s.books.asked restore).isSome)
    (hinsert : s.db.backups.insert row = some backups) :
    Stepped s (s.books.begins copy (some restore))
      { s.base.ops with db := { s.db with backups } } restore (some (.copying copy)) := by
  have hgrows := grows_begins hfresh (some restore)
  have hborn : (s.books.begins copy (some restore)).born copy =
      some ⟨s.books.directory, some restore⟩ := by
    simp [Books.begins]
  constructor
  · exact hgrows
  · intro c hsome
    exact hsome
  · apply h.sound.begins hfresh
    intro r hr
    rw [← Option.some.inj hr]
    exact hasked
  · exact .of_eq rfl
  · intro j other hother
    exact (h.rows j other hother).mono hgrows
  · intro other hmem
    rw [Table.rows_of_insert hinsert] at hmem
    rcases List.mem_append.mp hmem with hold | hnew
    · exact .inl hold
    · rw [List.mem_singleton] at hnew
      rw [hnew, hid, hborn, hsize]
      exact .inr ⟨rfl, fun hpos => absurd hpos (Nat.lt_irrefl 0)⟩
  · intro next hnext
    cases hnext
    show ((s.books.begins copy (some restore)).born copy).bind Born.restore = some restore
    rw [hborn]
    rfl

variable {run : Run}

theorem stepped_copying (h : Inv s) {copy fresh : Id} {now : Timestamp}
    {db : Database} {made : OperationRow} (hfresh : s.books.targets fresh = none)
    (hcopy : CopyOf s.books run.id copy)
    (hinsert : Ops.insert (s.base.newSafety run copy) fresh now s.db = .ok (db, made)) :
    Stepped s (s.books.aims fresh copy) { s.base.ops with db } run.id (some (.copied made.id)) := by
  have hgrows := grows_aims hfresh copy
  obtain ⟨born, hborn, hrestore⟩ := Option.bind_eq_some_iff.mp hcopy
  have htarget : (s.books.aims fresh copy).targets fresh = some copy := by
    simp [Books.aims]
  constructor
  · exact hgrows
  · intro c hsome
    exact hsome
  · apply h.sound.aims hfresh
    rw [hborn]
    rfl
  · exact persists_insert hinsert
  · apply h.rows.insert hgrows hinsert
    constructor
    · intro hkind
      cases hkind
    · intro _
      refine ⟨copy, born, htarget, hborn, ?_, ?_⟩
      · intro hdone
        cases hdone
      · intro r hparent
        cases hparent
        exact hrestore
    · intro _ c hof
      cases hof
      exact htarget
  · intro row hmem
    exact .inl (insert_backups hinsert ▸ hmem)
  intro next hnext
  cases hnext
  refine ⟨(s.base.newSafety run copy).row fresh now, ?_, rfl, rfl⟩
  obtain ⟨-, -, rfl⟩ := Ops.insert_ok hinsert
  exact (Ops.find?_insert_of_ok hinsert fresh).trans (if_pos rfl)

theorem stepped_refused (h : Inv s) {restore copy fresh : Id}
    (hfresh : s.books.targets fresh = none) (hcopy : CopyOf s.books restore copy) :
    Stepped s (s.books.aims fresh copy)
      { s.base.ops with db := Ops.deleteBackup s.db copy } restore (some .gaveUp) := by
  obtain ⟨born, hborn, -⟩ := Option.bind_eq_some_iff.mp hcopy
  have hgrows := grows_aims hfresh copy
  constructor
  · exact hgrows
  · intro c hsome
    exact hsome
  · apply h.sound.aims hfresh
    rw [hborn]
    rfl
  · exact persists_deleteBackup copy
  · exact h.rows.keeps hgrows (.of_stems (Ops.stems_deleteBackup copy : Ops.Stems s.db _ fun _ => False))
      fun _ _ hfalse => hfalse.elim
  · intro row hmem
    exact .inl (mem_deleteBackup hmem)
  · intro next hnext
    cases hnext
    trivial

theorem covered_of_done (h : Inv s) (hrun : RunInv s.books s.db run) {j : Id}
    {row : OperationRow} (hsafety : SafetyRun s.books run.id j)
    (hrow : s.db.operations.find? j = some row) (hkind : row.kind = .backupCreate)
    (hdone : row.state = .done) : Covered s.books run.id := by
  obtain ⟨copy, htarget, hcopy⟩ := hsafety
  have hkey : row.id = j := Table.find?_key hrow
  obtain ⟨c, born, hc, -, hmade, -⟩ := (h.rows j row hrow).create hkind
  rw [hkey] at hc
  obtain rfl : c = copy := Option.some.inj (hc.symm.trans htarget)
  obtain ⟨own, hown, hrestore⟩ := hrun.row
  have hid : own.id = run.id := Table.find?_key hown
  obtain ⟨hasked, backup, hbackup, -⟩ := (h.rows run.id own hown).restore hrestore
  rw [hid] at hasked hbackup
  obtain ⟨past, hpast⟩ := Option.isSome_iff_exists.mp hasked
  exact ⟨past, c, run.id, hpast, hmade hdone, hcopy, rfl, by rw [hbackup]; rfl, fun _ => rfl⟩

theorem covered_of_none (hrun : RunInv s.books s.db run) (hphase : run.phase = .seeks)
    (hnone : safetyRunOf s.db run.id = none) : Covered s.books run.id := by
  have hinv := hrun.phase
  rw [hphase] at hinv
  rcases hinv with ⟨j, row, hrow, hkind, hparent⟩ | hcovered
  · have hmem : row ∈ s.db.operations.select fun row =>
        row.parentOperationId = some run.id && row.kind = .backupCreate :=
      List.mem_filter.mpr ⟨Table.find?_mem hrow, by simp [hkind, hparent]⟩
    simp only [safetyRunOf, Option.map_eq_none_iff] at hnone
    cases hrows : s.db.operations.select fun row =>
        row.parentOperationId = some run.id && row.kind = .backupCreate with
    | nil =>
      rw [hrows] at hmem
      cases hmem
    | cons first rest =>
      rw [hrows, newest] at hnone
      split at hnone <;> cases hnone
  · exact hcovered

theorem stepped_copied (h : Inv s) {restore j : Id} {now : Timestamp}
    (hphase : PhaseInv s.books s.db restore (.copied j)) :
    Stepped s s.books { s.base.ops with db := Ops.after s.db (Ops.dismiss j now) } restore
      (some .opened) := by
  have hpersists : Persists s.db (Ops.after s.db (Ops.dismiss j now)) := persists_dismiss j now
  have hkeeps : Keeps s.db (Ops.after s.db (Ops.dismiss j now)) fun _ => False :=
    .of_stems (Ops.stems_dismiss now)
  constructor
  · exact .refl _
  · intro c hsome
    exact hsome
  · exact h.sound
  · exact hpersists
  · exact h.rows.keeps (.refl _) hkeeps fun _ _ hfalse => hfalse.elim
  · intro row hmem
    have hsame : (Ops.after s.db (Ops.dismiss j now)).backups = s.db.backups :=
      rewrite_backups _ _
    exact .inl (hsame ▸ hmem)
  · intro next hnext
    cases hnext
    obtain ⟨row, hrow, hkind, hparent⟩ := hphase
    obtain ⟨row', hrow', hkind', hparent'⟩ := hpersists j row hrow (by simp [isBackup, hkind])
    exact .inl ⟨j, row', hrow', hkind'.trans hkind, hparent'.trans hparent⟩

theorem stepped_settles (h : Inv s) (hrun : RunInv s.books s.db run) {e : Ops.Event}
    {ops : Ops.System} (hinserts : s.base.ops.inserts e = none)
    (hfinishes : ∀ j, e.finishes = some j → j = run.id) (hstep : s.base.ops.step e = some ops) :
    Stepped s s.books ops run.id none := by
  apply stepped_ops h hstep
  · rw [hinserts]
    rfl
  · intro j row hfin hrow hcreate
    obtain ⟨own, hown, hrestore⟩ := hrun.row
    obtain rfl := hfinishes j hfin
    obtain rfl : own = row := Option.some.inj (hown.symm.trans hrow)
    rw [hrestore] at hcreate
    cases hcreate
  · intro next hnext
    cases hnext

def reads : Phase → Bool
  | .opened | .seeks | .saving _ | .looks | .prepares | .movesAway | .movesBack _ | .clears => true
  | _ => false

theorem reads_phase (h : Inv s) (hrun : RunInv s.books s.db run) {choice : Choice}
    {ops : Ops.System} (hreads : reads run.phase = true)
    (hnext : s.base.next run choice = some (ops, phase)) :
    ops = s.base.ops ∧ ∀ next, phase = some next → PhaseInv s.books s.db run.id next := by
  have hinv := hrun.phase
  cases hphase : run.phase with
  | opened =>
    rw [hphase] at hinv
    simp only [Restore.System.next, hphase] at hnext
    cases hnext
    refine ⟨rfl, ?_⟩
    intro next hafter
    obtain ⟨row, -, rfl⟩ := Option.map_eq_some_iff.mp hafter
    split
    · exact hinv
    · trivial
  | seeks =>
    simp only [Restore.System.next, hphase] at hnext
    cases hnext
    refine ⟨rfl, ?_⟩
    intro next hafter
    cases hafter
    split
    · next safety hfound =>
      obtain ⟨row, hnewest, rfl⟩ := Option.map_eq_some_iff.mp hfound
      obtain ⟨hrow, htest⟩ := newest_select hnewest
      simp only [Bool.and_eq_true, decide_eq_true_eq] at htest
      obtain ⟨hparent, hkind⟩ := htest
      obtain ⟨copy, born, htarget, hborn, -, hown⟩ := (h.rows row.id row hrow).create hkind
      exact ⟨⟨copy, htarget, Option.bind_eq_some_iff.mpr ⟨born, hborn, hown _ hparent⟩⟩,
        row, hrow, hkind⟩
    · next hnone => exact covered_of_none hrun hphase hnone
  | saving safety =>
    rw [hphase] at hinv
    obtain ⟨hsafety, row, hrow, hkind⟩ := hinv
    simp only [Restore.System.next, hphase] at hnext
    cases hnext
    refine ⟨rfl, ?_⟩
    intro next hafter
    cases hafter
    split
    · next hdone =>
      have hstate : row.state = .done := by
        rw [show s.base.ops.db.operations.find? safety = some row from hrow] at hdone
        simpa using hdone
      exact covered_of_done h hrun hsafety hrow hkind hstate
    · trivial
  | looks =>
    rw [hphase] at hinv
    simp only [Restore.System.next, hphase] at hnext
    cases hnext
    refine ⟨rfl, ?_⟩
    intro next hafter
    split at hafter
    · cases hafter
      exact hinv
    · cases hafter
  | prepares =>
    rw [hphase] at hinv
    simp only [Restore.System.next, hphase] at hnext
    cases hnext
    refine ⟨rfl, ?_⟩
    intro next hafter
    cases hafter
    split <;> exact hinv
  | movesAway =>
    rw [hphase] at hinv
    simp only [Restore.System.next, hphase] at hnext
    cases hnext
    refine ⟨rfl, ?_⟩
    intro next hafter
    cases hafter
    split
    · split <;> exact hinv
    · exact hinv
  | movesBack error | clears =>
    rw [hphase] at hinv
    simp only [Restore.System.next, hphase] at hnext
    cases hnext
    refine ⟨rfl, ?_⟩
    intro next hafter
    cases hafter
    exact hinv
  | _ =>
    rw [hphase] at hreads
    cases hreads

theorem stepped_movesIn (h : Inv s) (hcovered : Covered s.books run.id)
    {books : Books} (hbooks : books = s.books ∨ books = s.books.changes)
    (hphase : ∀ next, phase = some next → next = .clears ∨ ∃ error, next = .movesBack error ∨
      next = .ends (.failed error)) : Stepped s books s.base.ops run.id phase := by
  have hgrows : Grows s.books books := by
    rcases hbooks with rfl | rfl
    · exact .refl _
    · exact grows_changes _
  constructor
  · exact hgrows
  · intro c hsome
    rcases hbooks with rfl | rfl <;> exact hsome
  · rcases hbooks with rfl | rfl
    · exact h.sound
    · exact h.sound.changes
  · exact .of_eq rfl
  · intro j row hrow
    exact (h.rows j row hrow).mono hgrows
  · intro row hmem
    exact .inl hmem
  · intro next hnext
    have hafter := hcovered.mono hgrows
    rcases hphase next hnext with rfl | ⟨error, rfl | rfl⟩ <;> exact hafter

theorem notes_of_find (hfind : s.base.runs.find? run.id = some run) {choice : Choice} :
    s.notes (.moves run.id choice) = match run.phase with
      | .copies => s.books.begins choice.fresh (some run.id)
      | .copying backup => s.books.aims choice.fresh backup
      | .movesIn _ => match choice.outcome with
        | .failed _ => s.books
        | _ => s.books.changes
      | _ => s.books := by
  simp only [System.notes, hfind, Option.map_some]
  cases run.phase <;> rfl

theorem stepped_next (h : Inv s) (hfind : s.base.runs.find? run.id = some run)
    {choice : Choice} {ops : Ops.System}
    (hadmits : s.admits (.moves run.id choice) = true)
    (hnext : s.base.next run choice = some (ops, phase)) :
    Stepped s (s.notes (.moves run.id choice)) ops run.id phase := by
  have hrun := h.runs run (Table.find?_mem hfind)
  have hinv := hrun.phase
  rw [notes_of_find hfind]
  cases hphase : run.phase with
  | copies =>
    have hfresh : s.books.born choice.fresh = none := by
      simpa [System.admits, hfind, hphase] using hadmits
    have hasked : (s.books.asked run.id).isSome := by
      obtain ⟨own, hown, hrestore⟩ := hrun.row
      rw [← Table.find?_key hown]
      exact ((h.rows run.id own hown).restore hrestore).1
    simp only [Restore.System.next, hphase] at hnext
    split at hnext
    · next backups hinsert =>
      cases hnext
      exact stepped_copies h hfresh rfl rfl hasked hinsert
    · next hnone => exact absurd hnone (insert_of_fresh h hfresh)
  | copying backup =>
    rw [hphase] at hinv
    have hfresh : s.books.targets choice.fresh = none := by
      simpa [System.admits, hfind, hphase] using hadmits
    simp only [Restore.System.next, hphase] at hnext
    split at hnext
    · next db made hinsert =>
      cases hnext
      exact stepped_copying h hfresh hinv hinsert
    · cases hnext
      exact stepped_refused h hfresh hinv
  | copied copy =>
    rw [hphase] at hinv
    simp only [Restore.System.next, hphase] at hnext
    cases hnext
    exact stepped_copied h hinv
  | gaveUp =>
    simp only [Restore.System.next, hphase, Option.map_eq_some_iff, Prod.mk.injEq] at hnext
    obtain ⟨_, hstep, rfl, rfl⟩ := hnext
    refine stepped_settles h hrun rfl ?_ hstep
    intro j hfin
    cases hfin
  | blames error =>
    simp only [Restore.System.next, hphase, Option.map_eq_some_iff, Prod.mk.injEq] at hnext
    obtain ⟨_, hstep, rfl, rfl⟩ := hnext
    refine stepped_settles h hrun rfl ?_ hstep
    intro j hfin
    cases hfin
  | ends outcome =>
    simp only [Restore.System.next, hphase, Option.map_eq_some_iff, Prod.mk.injEq] at hnext
    obtain ⟨_, hstep, rfl, rfl⟩ := hnext
    refine stepped_settles h hrun ?_ ?_ hstep
    · cases outcome <;> rfl
    intro j hfin
    cases outcome with
    | done => exact (Option.some.inj hfin).symm
    | calledOff | failed error => cases hfin
  | waits =>
    rw [hphase] at hinv
    simp only [Restore.System.next, hphase] at hnext
    split at hnext
    · simp only [Option.map_eq_some_iff, Prod.mk.injEq] at hnext
      obtain ⟨_, hstep, rfl, rfl⟩ := hnext
      refine stepped_ops h hstep rfl ?_ ?_
      · intro j row hfin
        cases hfin
      · intro next hafter
        cases hafter
        exact hinv
    · cases hnext
      refine stepped_still h ?_
      intro next hafter
      cases hafter
      exact hinv
    · cases hnext
      refine stepped_still h ?_
      intro next hafter
      cases hafter
  | movesIn away =>
    rw [hphase] at hinv
    simp only [Restore.System.next, hphase] at hnext
    cases hnext
    refine stepped_movesIn h hinv ?_ ?_
    · show (match choice.outcome with
        | .failed _ => s.books
        | _ => s.books.changes) = s.books ∨ _
      cases choice.outcome with
      | failed error => exact .inl rfl
      | done | calledOff => exact .inr rfl
    · intro next hafter
      cases hafter
      split
      · split
        · exact .inr ⟨_, .inl rfl⟩
        · exact .inr ⟨_, .inr rfl⟩
      · exact .inl rfl
  | _ =>
    obtain ⟨rfl, hafter⟩ := reads_phase h hrun (by rw [hphase]; rfl) hnext
    exact stepped_still h hafter

theorem Stepped.inv (h : Inv s) {books : Books} {ops : Ops.System}
    (hstepped : Stepped s books ops restore phase)
    {runs : Table Run.id} (hruns : ∀ run ∈ runs.rows, run ∈ s.base.runs.rows ∨
      ∃ old ∈ s.base.runs.rows, old.id = restore ∧ ∃ next, phase = some next ∧
        run = { old with phase := next }) :
    Inv { s with base := { s.base with ops, runs }, books } := by
  refine h.mono hstepped.grows hstepped.archives hstepped.persists hstepped.sound hstepped.rows
    hstepped.backups ?_ ?_ ?_
  · intro request hmem
    exact .inl hmem
  · intro run hmem
    obtain hold | ⟨old, hold, hid, next, hnext, rfl⟩ := hruns run hmem
    · exact .inl hold
    · right
      have hrow := ((h.runs old hold).mono hstepped.grows hstepped.persists).row
      exact ⟨hrow, hid ▸ hstepped.phase next hnext⟩
  · intro run hmem
    exact .inl hmem

theorem Inv.moves (h : Inv s) {choice : Choice} {base : Restore.System}
    (hadmits : s.admits (.moves id choice) = true) (hstep : s.base.moves id choice = some base) :
    Inv { s with base, books := s.notes (.moves id choice) } := by
  unfold Restore.System.moves at hstep
  split at hstep
  · next run hfind =>
    obtain rfl : run.id = id := Table.find?_key hfind
    split at hstep
    · next ops phase hnext =>
      cases hstep
      apply (stepped_next h hfind hadmits hnext).inv h
      intro other hmem
      obtain ⟨old, hold, rfl | ⟨hid, rfl⟩⟩ :=
        Table.mem_modify (f := fun run : Run => { run with phase }) (fun _ => rfl) hmem
      · exact .inl hold
      · exact .inr ⟨old, hold, hid, phase, rfl, rfl⟩
    · next ops hnext =>
      cases hstep
      apply (stepped_next h hfind hadmits hnext).inv h
      intro other hmem
      exact .inl (List.mem_filter.mp hmem).1
    · cases hstep
  · cases hstep

theorem Inv.serves (h : Inv s) {e : Servers.Event} {base : Restore.System}
    (hstep : s.base.serves e = some base) : Inv { s with base } := by
  have hsame : base.ops = s.base.ops ∧ base.requests = s.base.requests ∧
      base.runs = s.base.runs := by
    unfold Restore.System.serves at hstep
    split at hstep
    · cases hstep
    · simp only [Option.map_eq_some_iff] at hstep
      obtain ⟨server, -, rfl⟩ := hstep
      exact ⟨rfl, rfl, rfl⟩
  obtain ⟨hops, hrequests, hruns⟩ := hsame
  have hdb : ({ s with base } : System).db = s.db := congrArg Ops.System.db hops
  constructor
  · exact h.sound
  · exact hdb ▸ h.rows
  · exact hdb ▸ h.backups
  · exact hrequests ▸ h.requests
  · show ∀ run ∈ base.runs.rows, RunInv s.books ({ s with base } : System).db run
    rw [hdb, hruns]
    exact h.runs
  · show ∀ run ∈ s.creates.rows, CreateInv s.books ({ s with base } : System).db run
    rw [hdb]
    exact h.creates

theorem Inv.base (h : Inv s) {e : Restore.Event} (htrusts : s.trusts (.base e) = true)
    (hstep : s.step (.base e) = some t) : Inv t := by
  simp only [System.step] at hstep
  split at hstep
  · next hadmits =>
    simp only [Option.map_eq_some_iff] at hstep
    obtain ⟨base, hbase, rfl⟩ := hstep
    cases e with
    | server e => exact h.serves hbase
    | ops e =>
      simp only [Restore.System.step, Option.map_eq_some_iff] at hbase
      obtain ⟨ops, hops, rfl⟩ := hbase
      simp only [System.admits, Bool.and_eq_true] at hadmits
      obtain ⟨hinserts, hfinishes⟩ := hadmits
      apply h.ops hops hinserts
      intro j row hfin hrow hkind
      rw [hfin, Option.bind_some, hrow, Option.all_some] at hfinishes
      simp [isBackup, hkind] at hfinishes
    | asksRestore backup caller =>
      cases hbase
      exact h.asks rfl (.inl (by simp [restoreChecks]))
    | asksRetry backup caller =>
      cases hbase
      exact h.asks rfl (.inr (by simp [retryChecks]))
    | checks i ok => exact h.checks htrusts hbase
    | creates i id now => exact h.creating hadmits hbase
    | moves id choice => exact h.moves hadmits hbase
  · cases hstep

end Restores

end CraftPanel.Backups.SafetyCopies
