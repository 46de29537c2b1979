import CraftPanel.Backups.Restoring

/-!
# What a restore has a copy of

A restore comes to its turn only with a safety copy that was packed and delivered after the
restore was asked for or, where a retry finds one that is done, after an earlier attempt at the
same backup was. What was changed since that attempt is in no copy.
-/

namespace CraftPanel.Backups.SafetyCopies

open Framework Restore

section Creates

variable {s t : System}

theorem CreateInv.goes {books : Books} {db : Database} {run : Create}
    (h : CreateInv books db run) {phase : CreatePhase}
    (hpacking : ∀ version, phase = .packing version → ∃ born,
      books.born run.backup = some born ∧ born.version ≤ version ∧ version ≤ books.directory)
    (hdelivers : phase = .delivers → (books.archives run.backup).isSome)
    (hdrops : phase ≠ .drops .done)
    (hends : phase = .ends .done → (books.made run.backup).isSome) :
    CreateInv books db { run with phase } :=
  ⟨h.row, h.target, hpacking, hdelivers, hdrops, hends⟩

theorem Inv.setDb (h : Inv s) {db : Database} (hpersists : Persists s.db db)
    (hkeeps : Keeps s.db db fun _ => False)
    (hbackups : ∀ row ∈ db.backups.rows, ∃ old ∈ s.db.backups.rows, row.id = old.id ∧
      row.sizeBytes = old.sizeBytes) : Inv (s.setDb db) := by
  refine h.stays (.refl _) (fun _ hsome => hsome) hpersists h.sound ?_ ?_ rfl rfl rfl
  · exact h.rows.keeps (.refl _) hkeeps fun _ _ hfalse => hfalse.elim
  intro row hmem
  obtain ⟨old, hold, hid, hsize⟩ := hbackups row hmem
  rw [hid, hsize]
  exact .inr (h.backups old hold)

theorem Inv.forgets (h : Inv s) (backup : Id) : Inv (s.setDb (Ops.deleteBackup s.db backup)) := by
  refine h.setDb (persists_deleteBackup backup) (.of_stems (Ops.stems_deleteBackup backup)) ?_
  intro row hmem
  exact ⟨row, mem_deleteBackup hmem, rfl, rfl⟩

theorem keeps_of_eq {db db' : Database} (h : db'.operations = db.operations) :
    Keeps db db' fun _ => False :=
  .of_stems (.of_eq h)

theorem Inv.sessions (h : Inv s) (uploads : Table UploadRow.backupId) :
    Inv (s.setDb { s.db with uploads }) := by
  refine h.setDb (.of_eq rfl) (keeps_of_eq rfl) ?_
  intro row hmem
  exact ⟨row, hmem, rfl, rfl⟩

theorem Inv.books (h : Inv s) {books : Books} {db : Database} (hgrows : Grows s.books books)
    (harchives : ∀ c, (s.books.archives c).isSome → (books.archives c).isSome)
    (hsound : Sound books) (hoperations : db.operations = s.db.operations)
    (hbackups : ∀ row ∈ db.backups.rows, row ∈ s.db.backups.rows ∨
      (books.born row.id).isSome ∧ (0 < row.sizeBytes → (books.made row.id).isSome)) :
    Inv { s.setDb db with books } := by
  refine h.stays hgrows harchives (.of_eq hoperations) hsound ?_ hbackups rfl rfl rfl
  intro j row hrow
  have hbefore : s.db.operations.find? j = some row := hoperations ▸ hrow
  exact (h.rows j row hbefore).mono hgrows

theorem Inv.delivered (h : Inv s) {run : Create} (hrun : CreateInv s.books s.db run)
    (harchive : (s.books.archives run.backup).isSome) {found : Found} {row : BackupRow}
    (hrow : s.db.backups.find? run.backup = some row) :
    Inv { s.setDb (s.delivered found row) with books := s.books.delivers run.backup } := by
  have hkey : row.id = run.backup := Table.find?_key hrow
  have hgrows := grows_delivers harchive
  have hmade : ((s.books.delivers run.backup).made run.backup).isSome := by
    simpa [Books.delivers] using harchive
  have hoperations : (s.delivered found row).operations = s.db.operations := by
    unfold System.delivered
    split <;> rfl
  refine h.books hgrows (fun _ hsome => hsome) h.sound.delivers hoperations ?_
  intro other hmem
  have hold : other ∈ s.db.backups.rows ∨ other.id = run.backup := by
    unfold System.delivered at hmem
    split at hmem
    all_goals
      obtain ⟨old, hold, rfl | ⟨hid, rfl⟩⟩ := mem_updateBackup hmem
      · exact .inl hold
      · exact .inr (hid.trans hkey)
  refine hold.imp_right ?_
  intro hid
  rw [hid]
  exact ⟨h.sound.targets _ _ hrun.target, fun _ => hmade⟩

/-- What a step of a create run leaves: everything as it must be, and the run where it goes on. -/
def Goes (s t : System) (run : Create) (phase : Option CreatePhase) : Prop :=
  Inv t ∧ t.creates = s.creates ∧
    ∀ next, phase = some next → CreateInv t.books t.db { run with phase := next }

theorem goes_still (h : Inv s) {run : Create} {phase : Option CreatePhase}
    (hphase : ∀ next, phase = some next → CreateInv s.books s.db { run with phase := next }) :
    Goes s s run phase :=
  ⟨h, rfl, hphase⟩

theorem goes_next (h : Inv s) {run : Create} (hmem : run ∈ s.creates.rows) {found : Found}
    {phase : Option CreatePhase} (hnext : s.next run found = some (t, phase)) :
    Goes s t run phase := by
  have hrun := h.creates run hmem
  have hplain : ∀ {u : System}, Inv u → u.creates = s.creates → ∀ next : CreatePhase,
      (∀ version, next ≠ .packing version) → next ≠ .delivers → next ≠ .drops .done →
      next ≠ .ends .done → CreateInv u.books u.db { run with phase := next } := by
    intro u hu hcreates next hpacking hdelivers hdrops hends
    have hkept := hu.creates run (hcreates ▸ hmem)
    exact hkept.goes (fun version hsame => absurd hsame (hpacking version))
      (fun hsame => absurd hsame hdelivers) hdrops fun hsame => absurd hsame hends
  cases hphase : run.phase with
  | waits =>
    simp only [System.next, hphase] at hnext
    split at hnext
    · simp only [Option.map_eq_some_iff, Prod.mk.injEq] at hnext
      obtain ⟨ops, hstep, rfl, rfl⟩ := hnext
      have hinv : Inv { s with base := { s.base with ops } } := by
        apply h.ops hstep rfl
        intro j row hfin
        cases hfin
      refine ⟨hinv, rfl, ?_⟩
      intro next hafter
      cases hafter
      exact hplain hinv rfl _ (by simp) (by simp) (by simp) (by simp)
    · cases hnext
      apply goes_still h
      intro next hafter
      cases hafter
      exact hplain h rfl _ (by simp) (by simp) (by simp) (by simp)
    · cases hnext
      apply goes_still h
      intro next hafter
      cases hafter
  | looks =>
    simp only [System.next, hphase] at hnext
    cases hnext
    apply goes_still h
    intro next hafter
    split at hafter
    · cases hafter
      exact hplain h rfl _ (by simp) (by simp) (by simp) (by simp)
    · cases hafter
      exact hplain h rfl _ (by simp) (by simp) (by simp) (by simp)
    · cases hafter
  | forgets =>
    simp only [System.next, hphase] at hnext
    cases hnext
    refine ⟨h.forgets run.backup, rfl, ?_⟩
    intro next hafter
    cases hafter
  | chooses =>
    simp only [System.next, hphase] at hnext
    cases hnext
    apply goes_still h
    intro next hafter
    cases hafter
    split
    · next hcarried =>
      simp only [Bool.and_eq_true] at hcarried
      exact hrun.goes (fun _ hsame => by cases hsame) (fun _ => hcarried.2) (by intro h; cases h)
        fun hsame => by cases hsame
    · exact hplain h rfl _ (by simp) (by simp) (by simp) (by simp)
  | packs =>
    simp only [System.next, hphase] at hnext
    cases hnext
    apply goes_still h
    intro next hafter
    cases hafter
    refine hrun.goes ?_ (fun hsame => by cases hsame) (by intro h; cases h) fun hsame => by cases hsame
    intro version hsame
    cases hsame
    obtain ⟨born, hborn⟩ := Option.isSome_iff_exists.mp (h.sound.targets _ _ hrun.target)
    exact ⟨born, hborn, (h.sound.born _ _ hborn).1, Nat.le_refl _⟩
  | packing version =>
    obtain ⟨born, hborn, hle, hnow⟩ := hrun.packing version hphase
    simp only [System.next, hphase] at hnext
    split at hnext
    · cases hnext
      have hpacked : Inv { s with books := s.books.packs run.backup version } := by
        refine h.books (grows_packs version) ?_ (h.sound.packs hborn hle hnow) rfl ?_
        · intro c hsome
          by_cases hsame : c = run.backup
          · simp [Books.packs, hsame]
          · simpa [Books.packs, hsame] using hsome
        · intro row hrow
          exact .inl hrow
      refine ⟨hpacked, rfl, ?_⟩
      intro next hafter
      cases hafter
      have hkept := hpacked.creates run hmem
      refine hkept.goes (fun _ hsame => by cases hsame) ?_ (by intro h; cases h) fun hsame => by cases hsame
      intro _
      simp [Books.packs]
    · next hnot =>
      cases hnext
      apply goes_still h
      intro next hafter
      cases hafter
      apply hplain h rfl _ (by simp) (by simp) _ (by simp)
      intro hsame
      exact hnot (CreatePhase.drops.inj hsame)
  | delivers =>
    have harchive := hrun.delivers hphase
    simp only [System.next, hphase] at hnext
    split at hnext
    · next row _ hrow =>
      cases hnext
      have hdelivered : Inv { s.setDb (s.delivered found row) with
          books := s.books.delivers run.backup } := h.delivered hrun harchive hrow
      refine ⟨hdelivered, rfl, ?_⟩
      intro next hafter
      cases hafter
      have hkept := hdelivered.creates run hmem
      refine hkept.goes (fun _ hsame => by cases hsame) (fun hsame => by cases hsame) (by intro h; cases h) ?_
      intro _
      simpa [Books.delivers] using harchive
    · cases hnext
      apply goes_still h
      intro next hafter
      cases hafter
      exact hplain h rfl _ (by simp) (by simp) (by simp) (by simp)
    next hsome hnone =>
    cases hnext
    apply goes_still h
    intro next hafter
    cases hafter
    refine hplain h rfl _ (by simp) (by simp) ?_ (by simp)
    intro hsame
    have hdone := CreatePhase.drops.inj hsame
    cases hfound : s.db.backups.find? run.backup with
    | none => exact hnone hdone hfound
    | some row => exact hsome row hdone hfound
  | drops outcome =>
    have hnot : outcome ≠ .done := by
      rintro rfl
      exact hrun.drops hphase
    simp only [System.next, hphase] at hnext
    cases hnext
    have hdropped : Inv (s.setDb (s.dropped run outcome)) := by
      unfold System.dropped
      split
      · exact h.forgets run.backup
      · exact h.sessions _
    refine ⟨hdropped, rfl, ?_⟩
    intro next hafter
    cases hafter
    apply hplain hdropped rfl _ (by simp) (by simp) (by simp)
    intro hsame
    exact hnot (CreatePhase.ends.inj hsame)
  | ends outcome =>
    simp only [System.next, hphase, Option.map_eq_some_iff, Prod.mk.injEq] at hnext
    obtain ⟨ops, hstep, rfl, rfl⟩ := hnext
    refine ⟨?_, rfl, ?_⟩
    · apply h.ops hstep
      · cases outcome <;> rfl
      intro j row hfin hrow hkind c htarget
      cases outcome with
      | done =>
        obtain rfl : run.id = j := Option.some.inj hfin
        obtain rfl : run.backup = c := Option.some.inj (hrun.target.symm.trans htarget)
        exact hrun.ends hphase
      | calledOff | failed error => cases hfin
    · intro next hafter
      cases hafter

theorem Inv.tasks (h : Inv s) {creates : Table Create.id}
    (hcreates : ∀ run ∈ creates.rows, run ∈ s.creates.rows ∨ CreateInv s.books s.db run) :
    Inv { s with creates } := by
  constructor
  · exact h.sound
  · exact h.rows
  · exact h.backups
  · exact h.requests
  · exact h.runs
  intro run hmem
  obtain hold | hnew := hcreates run hmem
  · exact h.creates run hold
  · exact hnew

theorem Inv.goesOn (h : Inv s) {id : Id} {found : Found} (hstep : s.creating id found = some t) :
    Inv t := by
  unfold System.creating at hstep
  split at hstep
  · next run hfind =>
    obtain rfl : run.id = id := Table.find?_key hfind
    have hmem := Table.find?_mem hfind
    split at hstep
    · next u phase hnext =>
      cases hstep
      obtain ⟨hinv, hcreates, hphase⟩ := goes_next h hmem hnext
      apply hinv.tasks
      intro other hother
      obtain ⟨old, hold, rfl | ⟨hid, rfl⟩⟩ :=
        Table.mem_modify (f := fun run : Create => { run with phase }) (fun _ => rfl) hother
      · exact .inl hold
      right
      have hsame : old = run := by
        have hfound := Table.find?_of_mem (hcreates ▸ hold)
        rw [hid, hfind] at hfound
        exact (Option.some.inj hfound).symm
      rw [hsame]
      exact hphase phase rfl
    · next u hnext =>
      cases hstep
      obtain ⟨hinv, hcreates, -⟩ := goes_next h hmem hnext
      apply hinv.tasks
      intro other hother
      exact .inl (List.mem_filter.mp hother).1
    · cases hstep
  · cases hstep

theorem Inv.starts (h : Inv s) {id : Id} (hstep : s.starts id = some t) : Inv t := by
  unfold System.starts at hstep
  split at hstep
  · next row hrow =>
    have hkey : row.id = id := Table.find?_key hrow
    split at hstep
    · next hkind =>
      obtain ⟨backup, hbackup, hstep⟩ := Option.bind_eq_some_iff.mp hstep
      obtain ⟨creates, hinsert, rfl⟩ := Option.map_eq_some_iff.mp hstep
      apply h.tasks
      intro run hmem
      rw [Table.rows_of_insert hinsert] at hmem
      rcases List.mem_append.mp hmem with hold | hnew
      · exact .inl hold
      rw [List.mem_singleton] at hnew
      rw [hnew]
      have htarget := (h.rows id row hrow).target (by simp [isBackup, hkind]) backup hbackup
      rw [hkey] at htarget
      right
      constructor
      · exact ⟨row, hrow, hkind⟩
      · exact htarget
      · intro version hphase
        cases hphase
      · intro hphase
        cases hphase
      · intro hphase
        cases hphase
      · intro hphase
        cases hphase
    · cases hstep
  · cases hstep

theorem Inv.makesRow (h : Inv s) {backup : Id} {location : BackupLocation} {now : Timestamp}
    (hstep : s.makesRow backup location now = some t) : Inv t := by
  unfold System.makesRow at hstep
  split at hstep
  · next hnone =>
    have hfresh : s.books.born backup = none := by simpa using hnone
    obtain ⟨backups, hinsert, rfl⟩ := Option.map_eq_some_iff.mp hstep
    refine h.books (grows_begins hfresh none) (fun _ hsome => hsome)
      (h.sound.begins hfresh fun _ hof => nomatch hof) rfl ?_
    intro row hmem
    rw [Table.rows_of_insert hinsert] at hmem
    rcases List.mem_append.mp hmem with hold | hnew
    · exact .inl hold
    · rw [List.mem_singleton] at hnew
      rw [hnew]
      exact .inr ⟨by simp [Books.begins], fun hpos => absurd hpos (Nat.lt_irrefl 0)⟩
  · cases hstep

theorem Inv.makesRun (h : Inv s) {backup id caller : Id} {now : Timestamp}
    (hstep : s.makesRun backup id caller now = some t) : Inv t := by
  unfold System.makesRun at hstep
  split at hstep
  · next hguard =>
    simp only [Bool.and_eq_true, Option.isNone_iff_eq_none] at hguard
    obtain ⟨hfound, hfresh⟩ := hguard
    obtain ⟨row, hrow⟩ := Option.isSome_iff_exists.mp hfound
    obtain ⟨born, hborn⟩ : ∃ born, s.books.born backup = some born := by
      have hsome := (h.backups row (Table.find?_mem hrow)).1
      rw [Table.find?_key hrow] at hsome
      exact Option.isSome_iff_exists.mp hsome
    have hgrows := grows_aims hfresh backup
    have htarget : (s.books.aims id backup).targets id = some backup := by
      simp [Books.aims]
    simp only at hstep
    split at hstep
    · next db made hinsert =>
      cases hstep
      refine h.stays hgrows (fun _ hsome => hsome) (persists_insert hinsert)
        (h.sound.aims hfresh (by rw [hborn]; rfl)) ?_ ?_ rfl rfl rfl
      · apply h.rows.insert hgrows hinsert
        constructor
        · intro hkind
          cases hkind
        · intro _
          refine ⟨backup, born, htarget, hborn, ?_, ?_⟩
          · intro hdone
            cases hdone
          · intro r hparent
            cases hparent
        · intro _ c hof
          cases hof
          exact htarget
      · intro row hmem
        exact .inl (insert_backups hinsert ▸ hmem)
    · cases hstep
      exact h
  · cases hstep

theorem Inv.restarts (h : Inv s) : Inv s.restarts := by
  constructor
  · exact h.sound
  · exact h.rows
  · exact h.backups
  · intro request hmem
    cases hmem
  · intro run hmem
    cases hmem
  · intro run hmem
    cases hmem

theorem Inv.step (h : Inv s) {e : Event} (htrusts : s.trusts e = true) (hstep : s.step e = some t) :
    Inv t := by
  cases e with
  | base e => exact h.base htrusts hstep
  | changes =>
    cases hstep
    exact h.books (grows_changes _) (fun _ hsome => hsome) h.sound.changes rfl
      fun _ hmem => .inl hmem
  | makesRow backup location now => exact h.makesRow hstep
  | makesRun backup id caller now => exact h.makesRun hstep
  | starts id => exact h.starts hstep
  | creates id found => exact h.goesOn hstep
  | deletes backup =>
    simp only [System.step] at hstep
    split at hstep
    · cases hstep
    · cases hstep
      exact h.forgets backup
  | opensSession row | forgetsSession backup =>
    cases hstep
    exact h.sessions _
  | marks backup state changedAt =>
    cases hstep
    refine h.setDb (.of_eq rfl) (keeps_of_eq rfl) ?_
    intro row hmem
    obtain ⟨middle, hmiddle, hsecond⟩ := mem_updateBackup hmem
    obtain ⟨old, hold, hfirst⟩ := mem_updateBackup hmiddle
    refine ⟨old, hold, ?_⟩
    rcases hsecond with rfl | ⟨-, rfl⟩ <;> rcases hfirst with rfl | ⟨-, rfl⟩ <;> exact ⟨rfl, rfl⟩
  | restarts =>
    cases hstep
    exact h.restarts

end Creates

theorem inv_fresh (id : Id) (row : ServerRow) (processes : List Servers.Process) (db : Database) :
    Inv (fresh id row processes db) := by
  constructor
  · constructor <;>
    · intro i x hx
      cases hx
  · intro j row hrow
    cases hrow
  · intro row hmem
    cases hmem
  · intro request hmem
    cases hmem
  · intro run hmem
    cases hmem
  · intro run hmem
    cases hmem

theorem Covered.hasCopy {books : Books} {restore : Id} (h : Covered books restore)
    (hsound : Sound books) : HasCopy books restore := by
  obtain ⟨own, copy, attempt, hasked, hmade, hcopy, hsame, -, hown⟩ := h
  obtain ⟨version, hversion⟩ := Option.isSome_iff_exists.mp hmade
  obtain ⟨born, hborn, hle, hnow⟩ := hsound.made copy version hversion
  obtain ⟨born', hborn', hrestore⟩ := Option.bind_eq_some_iff.mp hcopy
  obtain rfl : born = born' := Option.some.inj (hborn.symm.trans hborn')
  obtain ⟨past, hpast, hbefore⟩ := (hsound.born copy born hborn).2 attempt hrestore
  exact ⟨own, copy, version, attempt, past, hasked, hversion, hcopy, hpast, hsame,
    hbefore.trans hle, hnow, hown⟩

def makes (id : Id) : List Event :=
  [Event.starts id] ++ List.replicate 6 (Event.creates id {}) ++ [Event.base (.ops (.returns id))]

/-- A backup, a restore of it that makes its safety copy and then fails, a change of the directory,
and a retry as far as the exchange. -/
def retriedAfterChange : List Event :=
  [Event.makesRow 5 .local 1, .makesRun 5 4 9 1] ++ makes 4 ++
    [Event.changes, .base (.asksRestore 5 9)] ++ List.replicate 7 (Event.base (.checks 0 true)) ++
    [Event.base (.creates 0 7 2), .base (.moves 7 { fresh := 6, now := 3 }),
      .base (.moves 7 { fresh := 8, now := 3 })] ++ List.replicate 3 (Event.base (.moves 7 {})) ++
    makes 8 ++ List.replicate 2 (Event.base (.moves 7 {})) ++
    List.replicate 2 (Event.base (.moves 7 { outcome := .failed gone })) ++
    [Event.changes, .base (.asksRetry 5 9)] ++ List.replicate 5 (Event.base (.checks 0 true)) ++
    [Event.base (.creates 0 10 20)] ++ List.replicate 4 (Event.base (.moves 10 {}))

end CraftPanel.Backups.SafetyCopies
