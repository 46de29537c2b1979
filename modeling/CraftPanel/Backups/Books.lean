import CraftPanel.Backups.SafetyCopies
import CraftPanel.Backups.Exchange

/-!
# The books of the safety copies

What is written down of versions only grows, and the rows of the backup runs agree with it: a run
that is done has an archive that was packed after its backup was begun, and a safety copy is begun
after its restore was asked for. From this every task of the panel knows what its phase tells it.
-/

namespace CraftPanel.Backups.SafetyCopies

open Framework Restore

structure Sound (books : Books) : Prop where
  asked : ∀ r past, books.asked r = some past → past.version ≤ books.directory ∧
    (books.targets r).isSome
  targets : ∀ j c, books.targets j = some c → (books.born c).isSome
  born : ∀ c born, books.born c = some born → born.version ≤ books.directory ∧
    ∀ r, born.restore = some r →
      ∃ past, books.asked r = some past ∧ past.version ≤ born.version
  archives : ∀ c v, books.archives c = some v →
    ∃ born, books.born c = some born ∧ born.version ≤ v ∧ v ≤ books.directory
  made : ∀ c v, books.made c = some v →
    ∃ born, books.born c = some born ∧ born.version ≤ v ∧ v ≤ books.directory

/-- What is in the books stays there. -/
structure Grows (a b : Books) : Prop where
  directory : a.directory ≤ b.directory
  asked : ∀ r past, a.asked r = some past → b.asked r = some past
  targets : ∀ j c, a.targets j = some c → b.targets j = some c
  born : ∀ c born, a.born c = some born → b.born c = some born
  made : ∀ c, (a.made c).isSome → (b.made c).isSome

section Books

variable {a b : Books} {c j r : Id}

theorem Grows.refl (a : Books) : Grows a a := by
  constructor
  · exact Nat.le_refl _
  all_goals
    intros
    assumption

theorem kept_update {α : Type} {f : Id → Option α} {k : Id} {x : Option α} {i : Id} {y : α}
    (hfresh : f k = none) (h : f i = some y) : Function.update f k x i = some y := by
  have hne : i ≠ k := by
    rintro rfl
    rw [hfresh] at h
    cases h
  rw [Function.update_of_ne hne]
  exact h

theorem grows_changes (a : Books) : Grows a a.changes := by
  constructor
  · exact Nat.le_succ _
  all_goals
    intros
    assumption

theorem grows_asks (h : Sound a) (hfresh : a.targets r = none) (backup : Id) (copies : Bool) :
    Grows a (a.asks r backup copies) := by
  have hnew : a.asked r = none := by
    cases hasked : a.asked r with
    | none => rfl
    | some past =>
      have hsome := (h.asked r past hasked).2
      rw [hfresh] at hsome
      cases hsome
  constructor
  · exact Nat.le_refl _
  · intro i past hi
    exact kept_update hnew hi
  · intro i target hi
    exact kept_update hfresh hi
  · intro i born hi
    exact hi
  · intro i hi
    exact hi

theorem grows_begins (hfresh : a.born c = none) (restore : Option Id) :
    Grows a (a.begins c restore) := by
  constructor
  · exact Nat.le_refl _
  · intro i past hi
    exact hi
  · intro i target hi
    exact hi
  · intro i born hi
    exact kept_update hfresh hi
  · intro i hi
    exact hi

theorem grows_aims (hfresh : a.targets j = none) (backup : Id) : Grows a (a.aims j backup) := by
  constructor
  · exact Nat.le_refl _
  · intro i past hi
    exact hi
  · intro i target hi
    exact kept_update hfresh hi
  · intro i born hi
    exact hi
  · intro i hi
    exact hi

theorem grows_packs (version : Nat) : Grows a (a.packs c version) := by
  constructor
  · exact Nat.le_refl _
  all_goals
    intros
    assumption

theorem grows_delivers (harchive : (a.archives c).isSome) : Grows a (a.delivers c) := by
  constructor
  · exact Nat.le_refl _
  · intro i past hi
    exact hi
  · intro i target hi
    exact hi
  · intro i born hi
    exact hi
  intro i hi
  by_cases hsame : i = c
  · rw [hsame]
    simpa [Books.delivers] using harchive
  · simpa [Books.delivers, hsame] using hi

theorem Sound.changes (h : Sound a) : Sound a.changes := by
  have hmore : a.directory ≤ a.changes.directory := Nat.le_succ _
  constructor
  · intro i past hi
    obtain ⟨hle, htarget⟩ := h.asked i past hi
    exact ⟨hle.trans hmore, htarget⟩
  · exact h.targets
  · intro i born hi
    obtain ⟨hle, hrestore⟩ := h.born i born hi
    exact ⟨hle.trans hmore, hrestore⟩
  · intro i v hi
    obtain ⟨born, hborn, hle, hnow⟩ := h.archives i v hi
    exact ⟨born, hborn, hle, hnow.trans hmore⟩
  · intro i v hi
    obtain ⟨born, hborn, hle, hnow⟩ := h.made i v hi
    exact ⟨born, hborn, hle, hnow.trans hmore⟩

theorem Sound.asks (h : Sound a) (hfresh : a.targets r = none) {backup : Id}
    (hborn : (a.born backup).isSome) (copies : Bool) : Sound (a.asks r backup copies) := by
  have hgrows := grows_asks h hfresh backup copies
  constructor
  · intro i past hi
    by_cases hsame : i = r
    · subst hsame
      simp only [Books.asks, Function.update_self, Option.some.injEq] at hi ⊢
      rw [← hi]
      exact ⟨Nat.le_refl _, rfl⟩
    · simp only [Books.asks, Function.update_of_ne hsame] at hi ⊢
      exact h.asked i past hi
  · intro i target hi
    by_cases hsame : i = r
    · subst hsame
      simp only [Books.asks, Function.update_self, Option.some.injEq] at hi ⊢
      rw [← hi]
      exact hborn
    · simp only [Books.asks, Function.update_of_ne hsame] at hi ⊢
      exact h.targets i target hi
  · intro i born hi
    obtain ⟨hle, hrestore⟩ := h.born i born hi
    refine ⟨hle, ?_⟩
    intro restore hof
    obtain ⟨past, hpast, hbefore⟩ := hrestore restore hof
    exact ⟨past, hgrows.asked restore past hpast, hbefore⟩
  · exact h.archives
  · exact h.made

theorem Sound.begins (h : Sound a) (hfresh : a.born c = none) {restore : Option Id}
    (hasked : ∀ r, restore = some r → (a.asked r).isSome) : Sound (a.begins c restore) := by
  have hgrows := grows_begins hfresh restore
  constructor
  · exact h.asked
  · intro i target hi
    obtain ⟨born, hborn⟩ := Option.isSome_iff_exists.mp (h.targets i target hi)
    rw [hgrows.born target born hborn]
    rfl
  · intro i born hi
    by_cases hsame : i = c
    · subst hsame
      simp only [Books.begins, Function.update_self, Option.some.injEq] at hi
      rw [← hi]
      refine ⟨Nat.le_refl _, ?_⟩
      intro r hof
      obtain ⟨past, hpast⟩ := Option.isSome_iff_exists.mp (hasked r hof)
      exact ⟨past, hpast, (h.asked r past hpast).1⟩
    · simp only [Books.begins, Function.update_of_ne hsame] at hi
      exact h.born i born hi
  · intro i v hi
    obtain ⟨born, hborn, hrest⟩ := h.archives i v hi
    exact ⟨born, hgrows.born i born hborn, hrest⟩
  · intro i v hi
    obtain ⟨born, hborn, hrest⟩ := h.made i v hi
    exact ⟨born, hgrows.born i born hborn, hrest⟩

theorem Sound.aims (h : Sound a) (hfresh : a.targets j = none) {backup : Id}
    (hborn : (a.born backup).isSome) : Sound (a.aims j backup) := by
  have hgrows := grows_aims hfresh backup
  constructor
  · intro i past hi
    obtain ⟨hle, htarget⟩ := h.asked i past hi
    obtain ⟨target, hi'⟩ := Option.isSome_iff_exists.mp htarget
    rw [hgrows.targets i target hi']
    exact ⟨hle, rfl⟩
  · intro i target hi
    by_cases hsame : i = j
    · subst hsame
      simp only [Books.aims, Function.update_self, Option.some.injEq] at hi ⊢
      rw [← hi]
      exact hborn
    · simp only [Books.aims, Function.update_of_ne hsame] at hi ⊢
      exact h.targets i target hi
  · exact h.born
  · exact h.archives
  · exact h.made

theorem Sound.packs (h : Sound a) {version : Nat} {born : Born} (hborn : a.born c = some born)
    (hle : born.version ≤ version) (hnow : version ≤ a.directory) :
    Sound (a.packs c version) := by
  constructor
  · exact h.asked
  · exact h.targets
  · exact h.born
  · intro i v hi
    by_cases hsame : i = c
    · subst hsame
      simp only [Books.packs, Function.update_self, Option.some.injEq] at hi
      rw [← hi]
      exact ⟨born, hborn, hle, hnow⟩
    · simp only [Books.packs, Function.update_of_ne hsame] at hi
      exact h.archives i v hi
  · exact h.made

theorem Sound.delivers (h : Sound a) : Sound (a.delivers c) := by
  constructor
  · exact h.asked
  · exact h.targets
  · exact h.born
  · exact h.archives
  intro i v hi
  by_cases hsame : i = c
  · subst hsame
    simp only [Books.delivers, Function.update_self] at hi
    exact h.archives i v hi
  · simp only [Books.delivers, Function.update_of_ne hsame] at hi
    exact h.made i v hi

end Books

structure RowInv (books : Books) (row : OperationRow) : Prop where
  restore : row.kind = .backupRestore → (books.asked row.id).isSome ∧
    ∃ c, books.targets row.id = some c ∧ (books.made c).isSome
  create : row.kind = .backupCreate → ∃ c born, books.targets row.id = some c ∧
    books.born c = some born ∧ (row.state = .done → (books.made c).isSome) ∧
    ∀ r, row.parentOperationId = some r → born.restore = some r
  target : isBackup row.kind = true → ∀ c, row.targetId = some c → books.targets row.id = some c

def RowsInv (books : Books) (db : Database) : Prop :=
  ∀ j row, db.operations.find? j = some row → RowInv books row

/-- The backup runs stay in the table, with their parents. -/
def Persists (db db' : Database) : Prop :=
  ∀ j row, db.operations.find? j = some row → isBackup row.kind = true →
    ∃ row', db'.operations.find? j = some row' ∧ row'.kind = row.kind ∧
      row'.parentOperationId = row.parentOperationId

/-- Every backup run was there before, and only those of `finishes` may be done since. -/
def Keeps (db db' : Database) (finishes : Id → Prop) : Prop :=
  ∀ j row', db'.operations.find? j = some row' → isBackup row'.kind = true →
    ∃ row, db.operations.find? j = some row ∧ Ops.Descends (finishes j) row row'

section Rows

variable {a b : Books} {db db' : Database} {finishes : Id → Prop}

theorem RowInv.mono {row : OperationRow} (h : RowInv a row) (hgrows : Grows a b) :
    RowInv b row := by
  constructor
  · intro hkind
    obtain ⟨hasked, c, htarget, hmade⟩ := h.restore hkind
    obtain ⟨past, hpast⟩ := Option.isSome_iff_exists.mp hasked
    refine ⟨?_, c, hgrows.targets _ _ htarget, hgrows.made c hmade⟩
    rw [hgrows.asked _ _ hpast]
    rfl
  · intro hkind
    obtain ⟨c, born, htarget, hborn, hdone, hparent⟩ := h.create hkind
    exact ⟨c, born, hgrows.targets _ _ htarget, hgrows.born _ _ hborn,
      fun hstate => hgrows.made c (hdone hstate), hparent⟩
  · intro hkind c htarget
    exact hgrows.targets _ _ (h.target hkind c htarget)

theorem RowInv.descends {fin : Prop} {old new : OperationRow} (h : RowInv a old)
    (hid : new.id = old.id) (hdescends : Ops.Descends fin old new)
    (hfin : fin → old.kind = .backupCreate →
      ∀ c, a.targets old.id = some c → (a.made c).isSome) : RowInv a new := by
  constructor
  · intro hkind
    rw [hid]
    exact h.restore (hdescends.kind ▸ hkind)
  · intro hkind
    have hcreate : old.kind = .backupCreate := hdescends.kind ▸ hkind
    obtain ⟨c, born, htarget, hborn, hdone, hparent⟩ := h.create hcreate
    rw [hid]
    refine ⟨c, born, htarget, hborn, ?_, ?_⟩
    · intro hstate
      obtain hbefore | hnow := hdescends.done hstate
      · exact hdone hbefore
      · exact hfin hnow hcreate c htarget
    · intro r hof
      exact hparent r (hdescends.parent ▸ hof)
  · intro hkind c hof
    rw [hid]
    obtain hsame | hnone := hdescends.target
    · exact h.target (hdescends.kind ▸ hkind) c (hsame ▸ hof)
    · rw [hnone] at hof
      cases hof

theorem rowInv_other {row : OperationRow} (hkind : isBackup row.kind = false) : RowInv a row := by
  constructor
  · intro hsame
    simp [isBackup, hsame] at hkind
  · intro hsame
    simp [isBackup, hsame] at hkind
  · intro hsame
    rw [hkind] at hsame
    cases hsame

theorem RowsInv.keeps (h : RowsInv a db) (hgrows : Grows a b) (hkeeps : Keeps db db' finishes)
    (hfin : ∀ j row, finishes j → db.operations.find? j = some row → row.kind = .backupCreate →
      ∀ c, b.targets j = some c → (b.made c).isSome) : RowsInv b db' := by
  intro j row' hrow'
  cases hkind : isBackup row'.kind with
  | false => exact rowInv_other hkind
  | true =>
    obtain ⟨row, hrow, hdescends⟩ := hkeeps j row' hrow' hkind
    have hkey : row.id = j := Table.find?_key hrow
    have hid : row'.id = row.id := (Table.find?_key hrow').trans hkey.symm
    refine ((h j row hrow).mono hgrows).descends hid hdescends ?_
    intro hnow hcreate c htarget
    exact hfin j row hnow hrow hcreate c (hkey ▸ htarget)

theorem Persists.of_eq (h : db'.operations = db.operations) : Persists db db' := by
  intro j row hrow _
  exact ⟨row, h ▸ hrow, rfl, rfl⟩

theorem Keeps.of_stems (h : Ops.Stems db db' finishes) : Keeps db db' finishes := by
  intro j row' hrow' _
  exact h j row' hrow'

theorem persists_deleteBackup (backup : Id) : Persists db (Ops.deleteBackup db backup) := by
  intro j row hrow _
  refine ⟨Ops.dropTarget backup row, by simp [Ops.deleteBackup, Table.find?_map, hrow], ?_⟩
  unfold Ops.dropTarget
  split <;> exact ⟨rfl, rfl⟩

theorem persists_dismiss (id : Id) (now : Timestamp) :
    Persists db (Ops.after db (Ops.dismiss id now)) := by
  intro j row hrow _
  rw [show Ops.after db (Ops.dismiss id now) = Ops.after db (Ops.rewrite id _ _) from rfl,
    Ops.find?_after_rewrite, hrow]
  split <;> exact ⟨_, rfl, rfl, rfl⟩

theorem persists_insert {new : Ops.NewOperation} {id : Id} {now : Timestamp}
    {made : OperationRow} (h : Ops.insert new id now db = .ok (db', made)) : Persists db db' := by
  intro j row hrow _
  exact ⟨row, Table.find?_of_insert (Ops.insert_ok h).1 hrow, rfl, rfl⟩

theorem Persists.of_keeps (hkeeps : Keeps db db' finishes)
    (hstays : ∀ j row, db.operations.find? j = some row →
      ∃ row', db'.operations.find? j = some row' ∧ row'.kind = row.kind) : Persists db db' := by
  intro j row hrow hkind
  obtain ⟨row', hrow', hsame⟩ := hstays j row hrow
  obtain ⟨old, hold, hdescends⟩ := hkeeps j row' hrow' (hsame ▸ hkind)
  obtain rfl : row = old := Option.some.inj (hrow.symm.trans hold)
  exact ⟨row', hrow', hsame, hdescends.parent⟩

theorem ops_keeps {o o' : Ops.System} {e : Ops.Event} (h : o.step e = some o')
    (hinserts : (o.inserts e).all (fun new => !isBackup new.kind) = true) :
    Keeps o.db o'.db (fun j => e.finishes = some j) ∧ Persists o.db o'.db := by
  have hkeeps : Keeps o.db o'.db (fun j => e.finishes = some j) := by
    intro j row' hrow' hkind
    obtain hold | ⟨new, now, hnew, rfl⟩ := Ops.stems_step h hrow'
    · exact hold
    rw [hnew, Option.all_some, Bool.not_eq_true'] at hinserts
    have hsame : isBackup (new.row j now).kind = isBackup new.kind := rfl
    rw [hsame, hinserts] at hkind
    cases hkind
  refine ⟨hkeeps, .of_keeps hkeeps ?_⟩
  intro j row hrow
  obtain ⟨row', hrow', -, hkind, -⟩ := Ops.rowAfter_step h hrow
  exact ⟨row', hrow', hkind⟩

theorem newest_mem {rows : List OperationRow} {row : OperationRow} (h : newest rows = some row) :
    row ∈ rows := by
  induction rows generalizing row with
  | nil => cases h
  | cons first rest ih =>
    simp only [newest] at h
    cases hbest : newest rest with
    | none =>
      rw [hbest] at h
      cases h
      exact List.mem_cons_self ..
    | some best =>
      rw [hbest] at h
      simp only [Option.some.injEq] at h
      split at h
      · rw [← h]
        exact List.mem_cons_self ..
      · rw [← h]
        exact List.mem_cons_of_mem _ (ih hbest)

theorem newest_select {test : OperationRow → Bool} {row : OperationRow}
    (h : newest (db.operations.select test) = some row) :
    db.operations.find? row.id = some row ∧ test row = true := by
  obtain ⟨hmem, htest⟩ := List.mem_filter.mp (newest_mem h)
  exact ⟨Table.find?_of_mem hmem, htest⟩

theorem made_of_isDone (h : RowsInv a db) {backup : BackupRow}
    (hsized : 0 < backup.sizeBytes → (a.made backup.id).isSome) (hdone : isDone db backup = true)
    (hoff : calledOff db backup = false) : (a.made backup.id).isSome := by
  unfold isDone at hdone
  unfold calledOff at hoff
  cases hnewest : newest (db.operations.select fun run =>
      run.serverId = backup.serverId && isRunOf backup.id run) with
  | none =>
    rw [hnewest] at hdone
    exact hsized (by simpa using hdone)
  | some run =>
    rw [hnewest] at hdone hoff
    obtain ⟨hrun, htest⟩ := newest_select hnewest
    have hinv := h run.id run hrun
    simp only [isRunOf, Bool.and_eq_true, decide_eq_true_eq, Bool.or_eq_true] at htest
    obtain ⟨-, htarget, hkind⟩ := htest
    have haims : a.targets run.id = some backup.id := by
      apply hinv.target _ _ htarget
      simpa [isBackup] using hkind
    rcases hkind with hcreate | hrestore
    · obtain ⟨c, born, hc, -, hmade, -⟩ := hinv.create hcreate
      obtain rfl : c = backup.id := Option.some.inj (hc.symm.trans haims)
      apply hmade
      simp only [Option.any_some, hcreate, decide_true, Bool.true_and, decide_eq_false_iff_not]
        at hoff
      simpa [hoff] using hdone
    · obtain ⟨-, c, hc, hmade⟩ := hinv.restore hrestore
      obtain rfl : c = backup.id := Option.some.inj (hc.symm.trans haims)
      exact hmade

end Rows

/-- A backup was begun as the safety copy of a restore. -/
def CopyOf (books : Books) (restore backup : Id) : Prop :=
  (books.born backup).bind Born.restore = some restore

/-- A safety copy was made for an attempt at the backup. -/
def Reuses (books : Books) (backup : Id) : Prop :=
  ∃ copy attempt, (books.made copy).isSome ∧ CopyOf books attempt copy ∧
    books.targets attempt = some backup

/-- The restore has its own safety copy, or the one of an attempt it may use. -/
def Covered (books : Books) (restore : Id) : Prop :=
  ∃ own copy attempt, books.asked restore = some own ∧ (books.made copy).isSome ∧
    CopyOf books attempt copy ∧ books.targets attempt = books.targets restore ∧
    (books.targets restore).isSome ∧ (own.copies = true → attempt = restore)

structure RequestInv (books : Books) (request : Request) : Prop where
  made : (books.made request.backup).isSome ∨ .status ∈ request.todo ∨ .lastRun ∈ request.todo
  reuses : request.copies = true ∨ Reuses books request.backup

/-- The create run of a safety copy. -/
def SafetyRun (books : Books) (restore j : Id) : Prop :=
  ∃ copy, books.targets j = some copy ∧ CopyOf books restore copy

def PhaseInv (books : Books) (db : Database) (restore : Id) : Phase → Prop
  | .copies | .gaveUp | .blames _ => True
  | .copying backup => CopyOf books restore backup
  | .copied j => ∃ row, db.operations.find? j = some row ∧ row.kind = .backupCreate ∧
      row.parentOperationId = some restore
  | .opened | .seeks => (∃ j row, db.operations.find? j = some row ∧ row.kind = .backupCreate ∧
      row.parentOperationId = some restore) ∨ Covered books restore
  | .saving j => SafetyRun books restore j ∧
      ∃ row, db.operations.find? j = some row ∧ row.kind = .backupCreate
  | _ => Covered books restore

structure RunInv (books : Books) (db : Database) (run : Run) : Prop where
  row : ∃ row, db.operations.find? run.id = some row ∧ row.kind = .backupRestore
  phase : PhaseInv books db run.id run.phase

structure CreateInv (books : Books) (db : Database) (run : Create) : Prop where
  row : ∃ row, db.operations.find? run.id = some row ∧ row.kind = .backupCreate
  target : books.targets run.id = some run.backup
  packing : ∀ version, run.phase = .packing version → ∃ born,
    books.born run.backup = some born ∧ born.version ≤ version ∧ version ≤ books.directory
  delivers : run.phase = .delivers → (books.archives run.backup).isSome
  drops : run.phase ≠ .drops .done
  ends : run.phase = .ends .done → (books.made run.backup).isSome

structure Inv (s : System) : Prop where
  sound : Sound s.books
  rows : RowsInv s.books s.db
  backups : ∀ row ∈ s.db.backups.rows, (s.books.born row.id).isSome ∧
    (0 < row.sizeBytes → (s.books.made row.id).isSome)
  requests : ∀ request ∈ s.base.requests, RequestInv s.books request
  runs : ∀ run ∈ s.base.runs.rows, RunInv s.books s.db run
  creates : ∀ run ∈ s.creates.rows, CreateInv s.books s.db run

section Tasks

variable {a b : Books} {db db' : Database}

theorem CopyOf.mono {restore backup : Id} (h : CopyOf a restore backup) (hgrows : Grows a b) :
    CopyOf b restore backup := by
  obtain ⟨born, hborn, hrestore⟩ := Option.bind_eq_some_iff.mp h
  exact Option.bind_eq_some_iff.mpr ⟨born, hgrows.born _ _ hborn, hrestore⟩

theorem Reuses.mono {backup : Id} (h : Reuses a backup) (hgrows : Grows a b) :
    Reuses b backup := by
  obtain ⟨copy, attempt, hmade, hcopy, htarget⟩ := h
  exact ⟨copy, attempt, hgrows.made _ hmade, hcopy.mono hgrows, hgrows.targets _ _ htarget⟩

theorem Covered.mono {restore : Id} (h : Covered a restore) (hgrows : Grows a b) :
    Covered b restore := by
  obtain ⟨own, copy, attempt, hasked, hmade, hcopy, hsame, hsome, hown⟩ := h
  obtain ⟨backup, hbackup⟩ := Option.isSome_iff_exists.mp hsome
  have hboth := hgrows.targets _ _ hbackup
  have hattempt := hgrows.targets _ _ (hsame.trans hbackup)
  refine ⟨own, copy, attempt, hgrows.asked _ _ hasked, hgrows.made _ hmade, hcopy.mono hgrows,
    hattempt.trans hboth.symm, ?_, hown⟩
  rw [hboth]
  rfl

theorem RequestInv.mono {request : Request} (h : RequestInv a request) (hgrows : Grows a b) :
    RequestInv b request :=
  ⟨h.made.imp_left (hgrows.made _), h.reuses.imp_right fun hreuses => hreuses.mono hgrows⟩

theorem PhaseInv.mono {restore : Id} {phase : Phase} (h : PhaseInv a db restore phase)
    (hgrows : Grows a b) (hpersists : Persists db db') : PhaseInv b db' restore phase := by
  have hchild : ∀ j row, db.operations.find? j = some row → row.kind = .backupCreate →
      row.parentOperationId = some restore → ∃ row', db'.operations.find? j = some row' ∧
        row'.kind = .backupCreate ∧ row'.parentOperationId = some restore := by
    intro j row hrow hkind hparent
    obtain ⟨row', hrow', hkind', hparent'⟩ := hpersists j row hrow (by simp [isBackup, hkind])
    exact ⟨row', hrow', hkind'.trans hkind, hparent'.trans hparent⟩
  cases phase with
  | copies | gaveUp | blames error => trivial
  | copying backup => exact CopyOf.mono h hgrows
  | copied j =>
    obtain ⟨row, hrow, hkind, hparent⟩ := h
    exact hchild j row hrow hkind hparent
  | opened | seeks =>
    rcases h with ⟨j, row, hrow, hkind, hparent⟩ | hcovered
    · exact .inl ⟨j, hchild j row hrow hkind hparent⟩
    · exact .inr (hcovered.mono hgrows)
  | saving j =>
    obtain ⟨⟨copy, htarget, hcopy⟩, row, hrow, hkind⟩ := h
    obtain ⟨row', hrow', hkind', -⟩ := hpersists j row hrow (by simp [isBackup, hkind])
    exact ⟨⟨copy, hgrows.targets _ _ htarget, hcopy.mono hgrows⟩, row', hrow', hkind'.trans hkind⟩
  | _ => exact Covered.mono h hgrows

theorem RunInv.mono {run : Run} (h : RunInv a db run) (hgrows : Grows a b)
    (hpersists : Persists db db') : RunInv b db' run := by
  obtain ⟨row, hrow, hkind⟩ := h.row
  obtain ⟨row', hrow', hkind', -⟩ := hpersists run.id row hrow (by simp [isBackup, hkind])
  exact ⟨⟨row', hrow', hkind'.trans hkind⟩, h.phase.mono hgrows hpersists⟩

theorem CreateInv.mono {run : Create} (h : CreateInv a db run) (hgrows : Grows a b)
    (harchives : ∀ c, (a.archives c).isSome → (b.archives c).isSome)
    (hpersists : Persists db db') : CreateInv b db' run := by
  obtain ⟨row, hrow, hkind⟩ := h.row
  obtain ⟨row', hrow', hkind', -⟩ := hpersists run.id row hrow (by simp [isBackup, hkind])
  constructor
  · exact ⟨row', hrow', hkind'.trans hkind⟩
  · exact hgrows.targets _ _ h.target
  · intro version hphase
    obtain ⟨born, hborn, hle, hnow⟩ := h.packing version hphase
    exact ⟨born, hgrows.born _ _ hborn, hle, hnow.trans hgrows.directory⟩
  · intro hphase
    exact harchives _ (h.delivers hphase)
  · exact h.drops
  · intro hphase
    exact hgrows.made _ (h.ends hphase)

theorem Inv.mono {s t : System} (h : Inv s) (hgrows : Grows s.books t.books)
    (harchives : ∀ c, (s.books.archives c).isSome → (t.books.archives c).isSome)
    (hpersists : Persists s.db t.db) (hsound : Sound t.books) (hrows : RowsInv t.books t.db)
    (hbackups : ∀ row ∈ t.db.backups.rows, row ∈ s.db.backups.rows ∨
      (t.books.born row.id).isSome ∧ (0 < row.sizeBytes → (t.books.made row.id).isSome))
    (hrequests : ∀ request ∈ t.base.requests, request ∈ s.base.requests ∨
      RequestInv t.books request)
    (hruns : ∀ run ∈ t.base.runs.rows, run ∈ s.base.runs.rows ∨ RunInv t.books t.db run)
    (hcreates : ∀ run ∈ t.creates.rows, run ∈ s.creates.rows ∨ CreateInv t.books t.db run) :
    Inv t := by
  constructor
  · exact hsound
  · exact hrows
  · intro row hmem
    obtain hold | hnew := hbackups row hmem
    · obtain ⟨hborn, hsized⟩ := h.backups row hold
      obtain ⟨born, hsome⟩ := Option.isSome_iff_exists.mp hborn
      refine ⟨?_, fun hsize => hgrows.made _ (hsized hsize)⟩
      rw [hgrows.born _ _ hsome]
      rfl
    · exact hnew
  · intro request hmem
    obtain hold | hnew := hrequests request hmem
    · exact (h.requests request hold).mono hgrows
    · exact hnew
  · intro run hmem
    obtain hold | hnew := hruns run hmem
    · exact (h.runs run hold).mono hgrows hpersists
    · exact hnew
  · intro run hmem
    obtain hold | hnew := hcreates run hmem
    · exact (h.creates run hold).mono hgrows harchives hpersists
    · exact hnew

theorem Inv.stays {s t : System} (h : Inv s) (hgrows : Grows s.books t.books)
    (harchives : ∀ c, (s.books.archives c).isSome → (t.books.archives c).isSome)
    (hpersists : Persists s.db t.db) (hsound : Sound t.books) (hrows : RowsInv t.books t.db)
    (hbackups : ∀ row ∈ t.db.backups.rows, row ∈ s.db.backups.rows ∨
      (t.books.born row.id).isSome ∧ (0 < row.sizeBytes → (t.books.made row.id).isSome))
    (hrequests : t.base.requests = s.base.requests) (hruns : t.base.runs = s.base.runs)
    (hcreates : t.creates = s.creates) : Inv t := by
  apply h.mono hgrows harchives hpersists hsound hrows hbackups
  · intro request hmem
    exact .inl (hrequests ▸ hmem)
  · intro run hmem
    exact .inl (hruns ▸ hmem)
  · intro run hmem
    exact .inl (hcreates ▸ hmem)

end Tasks

end CraftPanel.Backups.SafetyCopies
