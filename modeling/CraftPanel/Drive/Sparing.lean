import CraftPanel.Drive.Stock

/-!
# Stock-taking spares the archives

A pass lists the Drive first and reads the rows afterwards, so a file that Google finished in
between, or before, may be listed while its row names no file yet. As long as no listed file is in
that position when the rows are read, what a pass goes on to delete belongs to no backup: it is
named by no row, brought by no upload, and its own backup is gone or has another archive.
-/

namespace CraftPanel.Drive

open Framework

namespace System

variable (s : System)

def brings (run : Run) : Option String := match run.phase with
  | .starting | .fresh | .throwing _ => none
  | .sending address => s.fileOf address
  | .checking sent => some sent.file.id
  | .storing stored => some stored.fileId

/-- An upload of the backup, under way or to be carried on, is going to record the file. -/
def Awaits (b : Id) (file : String) : Prop :=
  (∃ run ∈ s.runs, run.backup = b ∧ s.brings run = some file) ∨
    (s.remembered b).bind s.fileOf = some file

instance (b : Id) (file : String) : Decidable (s.Awaits b file) :=
  inferInstanceAs (Decidable ((∃ _ ∈ _, _) ∨ _))

/-- The row has not recorded the file, and it may still be its archive. -/
def Unrecorded (file : File) (row : BackupRow) : Prop :=
  row.driveFileId ≠ some file.id ∧
    (s.Awaits row.id file.id ∨ file.backupId = some row.id ∧ row.driveFileId = none)

instance (file : File) (row : BackupRow) : Decidable (s.Unrecorded file row) :=
  inferInstanceAs (Decidable (_ ∧ (_ ∨ _)))

/-- The file is no row's archive and is not about to become one. -/
def Forsaken (file : File) : Prop :=
  ∀ row ∈ s.db.backups.rows, row.driveFileId ≠ some file.id ∧ ¬ s.Unrecorded file row

end System

/-- No pass is about to delete the archive of a backup that exists. -/
def Spares (s : System) : Prop := ∀ pass ∈ s.passes, ∀ file ∈ pass.deletes, s.Forsaken file

/-- Where the rows are read, every listed file that may be a row's archive is recorded in it. -/
def ReadsRecorded (s : System) : Event → Prop
  | .reads i => ∀ pass ∈ s.passes[i]?, match pass.look with
    | .lists theirs => ∀ file ∈ theirs, ∀ row ∈ s.db.backups.rows, ¬ s.Unrecorded file row
    | _ => True
  | _ => True

instance (s : System) : ∀ e, Decidable (ReadsRecorded s e)
  | .reads i => by
    have (look : Look) : Decidable (match look with
        | .lists theirs => ∀ file ∈ theirs, ∀ row ∈ s.db.backups.rows, ¬ s.Unrecorded file row
        | _ => True) := by
      cases look <;> infer_instance
    exact inferInstanceAs (Decidable (∀ pass ∈ s.passes[i]?, _))
  | .createsServer .. | .createsBackup .. | .forgets _ | .vanishes _ | .edits .. | .makesFolder _
  | .begins .. | .carriesOn .. | .opens .. | .offers .. | .finishes .. | .hears .. | .loses _
  | .fails .. | .confirms .. | .throwsAway .. | .records _ | .letsGo _ | .panelStops | .looks _
  | .lists .. | .marks _ | .removes .. | .givesUp _ => isTrue trivial

def Pass.files (pass : Pass) : List File := match pass.look with
  | .lists found => found
  | .marks theirs _ _ => theirs
  | .removes todo _ _ => todo

def Pass.condemned (pass : Pass) : List File := match pass.look with
  | .lists _ => []
  | .marks theirs ours _ => theirs.filter (isOrphan ours)
  | .removes todo ours _ => todo.filter (isOrphan ours)

theorem Pass.deletes_condemned {pass : Pass} {file : File} (h : pass.deletes = some file) :
    file ∈ pass.condemned := by
  unfold Pass.deletes at h
  unfold Pass.condemned
  split at h
  · rename_i first todo ours folder hlook
    rw [hlook]
    split at h
    · simp at h
    split at h
    · rename_i horphan
      cases h
      simp [horphan]
    · simp at h
  · simp at h

theorem Pass.condemned_subset (pass : Pass) : pass.condemned ⊆ pass.files := by
  unfold Pass.condemned Pass.files
  split
  · exact List.nil_subset _
  · exact List.filter_subset_self _
  · exact List.filter_subset_self _

/-- Google gave the file its id, and the backup it was sent for has been made. -/
def System.Knows (s : System) (file : File) : Prop :=
  file.id ∈ s.issued ∧ ∀ b ∈ file.backupId, b < s.nextBackup

structure PassOk (s : System) (pass : Pass) : Prop where
  known : ∀ file ∈ pass.files, s.Knows file
  spared : ∀ file ∈ pass.condemned, s.Forsaken file

structure Inv (s : System) : Prop where
  rows : ∀ row ∈ s.db.backups.rows,
    row.id < s.nextBackup ∧ (row.driveFileId.isSome → s.isOurs row)
  uploads : ∀ b, (s.db.uploads.find? b).isSome → b < s.nextBackup
  sessions : ∀ session ∈ s.sessions, session.backup < s.nextBackup
  runs : ∀ run ∈ s.runs, run.backup < s.nextBackup ∧
    ∀ row ∈ s.db.backups.rows, row.id = run.backup → s.isOurs row
  drive : ∀ file ∈ s.drive, s.Knows file
  passes : ∀ pass ∈ s.passes, PassOk s pass

section Primitives

variable {s t : System}

theorem Inv.awaits_lt (hinv : Inv s) {b : Id} {file : String} (h : s.Awaits b file) :
    b < s.nextBackup := by
  rcases h with ⟨run, hrun, rfl, -⟩ | h
  · exact (hinv.runs run hrun).1
  apply hinv.uploads
  unfold System.remembered at h
  cases hb : s.db.uploads.find? b with
  | none => simp [hb] at h
  | some row => rfl

theorem forsaken_of (hinv : Inv s) {file : File}
    (hrows : ∀ row ∈ t.db.backups.rows, (∃ old ∈ s.db.backups.rows, old.id = row.id ∧
        (row.driveFileId = old.driveFileId ∨
          row.driveFileId.isSome ∧ ∀ id ∈ row.driveFileId, s.Awaits row.id id)) ∨
      (s.nextBackup ≤ row.id ∧ row.driveFileId = none))
    (hawaits : ∀ b, t.Awaits b file.id → s.Awaits b file.id)
    (hknows : s.Knows file)
    (h : s.Forsaken file) : t.Forsaken file := by
  intro row hrow
  rcases hrows row hrow with ⟨old, hold, hid, hnamed⟩ | ⟨hfresh, hnone⟩
  · obtain ⟨hne, hrecorded⟩ := h old hold
    have hawait : ¬ s.Awaits row.id file.id := fun ha => hrecorded ⟨hne, .inl (hid ▸ ha)⟩
    have hname : row.driveFileId ≠ some file.id := by
      rcases hnamed with hsame | ⟨-, hbrought⟩
      · rwa [hsame]
      · exact fun hname => hawait (hbrought _ hname)
    refine ⟨hname, fun hun => ?_⟩
    rcases hun.2 with ha | ⟨hb, hnone⟩
    · exact hawait (hawaits _ ha)
    apply hrecorded
    refine ⟨hne, .inr ⟨hid ▸ hb, ?_⟩⟩
    rcases hnamed with hsame | ⟨hsome, -⟩
    · rw [← hsame, hnone]
    · simp [hnone] at hsome
  · refine ⟨by simp [hnone], fun hun => ?_⟩
    rcases hun.2 with ha | ⟨hb, -⟩
    · exact absurd (hinv.awaits_lt (hawaits _ ha)) (Nat.not_lt.mpr hfresh)
    · exact absurd (hknows.2 _ hb) (Nat.not_lt.mpr hfresh)

theorem forsaken_awaits {file : File} (hrows : t.db.backups = s.db.backups)
    (hawaits : ∀ b, t.Awaits b file.id → s.Awaits b file.id) (h : s.Forsaken file) :
    t.Forsaken file := by
  intro row hrow
  obtain ⟨hne, hrecorded⟩ := h row (hrows ▸ hrow)
  exact ⟨hne, fun hun => hrecorded ⟨hne, hun.2.imp_left (hawaits _)⟩⟩

theorem PassOk.awaits {pass : Pass} (h : PassOk s pass) (hissued : t.issued = s.issued)
    (hnext : t.nextBackup = s.nextBackup) (hrows : t.db.backups = s.db.backups)
    (hawaits : ∀ b file, t.Awaits b file → s.Awaits b file) : PassOk t pass := by
  refine ⟨fun file hfile => ?_, fun file hfile => ?_⟩
  · have hknows := h.known file hfile
    exact ⟨hissued ▸ hknows.1, hnext ▸ hknows.2⟩
  · exact forsaken_awaits hrows (fun b => hawaits b _) (h.spared file hfile)

theorem inv_letGo (hinv : Inv s) (b : Id) : Inv (s.letGo b) := by
  have hremembered : ∀ a, (s.letGo b).remembered a = if a = b then none else s.remembered a := by
    intro a
    simp only [System.remembered, System.letGo, forgetUpload]
    by_cases ha : a = b
    · simp [ha]
    · simp [ha, Table.find?_erase_ne _ ha]
  have hawaits : ∀ a file, (s.letGo b).Awaits a file → s.Awaits a file := by
    intro a file h
    refine h.imp_right fun h => ?_
    rw [hremembered] at h
    split at h
    · simp at h
    · exact h
  refine { hinv with uploads := fun a ha => ?_, passes := fun pass hpass => ?_ }
  · by_cases hab : a = b
    · simp [System.letGo, forgetUpload, hab] at ha
    · exact hinv.uploads a (by simpa [System.letGo, forgetUpload, Table.find?_erase_ne _ hab] using ha)
  · exact (hinv.passes pass hpass).awaits rfl rfl rfl hawaits

variable {i : Nat}

theorem inv_setRun (hinv : Inv s) {run run' : Run} (hrun : s.runs[i]? = some run)
    (hbackup : run'.backup = run.backup)
    (hbrings : ∀ file, s.brings run' = some file → s.Awaits run.backup file) :
    Inv (s.setRun i run') := by
  have hmem : run ∈ s.runs := List.mem_of_getElem? hrun
  refine { hinv with runs := fun other hother => ?_, passes := fun pass hpass => ?_ }
  · rcases List.mem_or_eq_of_mem_set hother with hother | rfl
    · exact hinv.runs other hother
    · rw [hbackup]
      exact hinv.runs run hmem
  refine (hinv.passes pass hpass).awaits rfl rfl rfl fun b file h => ?_
  rcases h with ⟨other, hother, hb, hfile⟩ | h
  · rcases List.mem_or_eq_of_mem_set hother with hother | rfl
    · exact .inl ⟨other, hother, hb, hfile⟩
    · rw [← hb, hbackup]
      exact hbrings file hfile
  · exact .inr h

theorem inv_dropRun (hinv : Inv s) (i : Nat) : Inv (s.dropRun i) := by
  refine { hinv with
    runs := fun run hrun => hinv.runs run (List.mem_of_mem_eraseIdx hrun)
    passes := fun pass hpass => (hinv.passes pass hpass).awaits rfl rfl rfl ?_ }
  intro b file h
  refine h.imp_left fun ⟨run, hrun, h⟩ => ?_
  exact ⟨run, List.mem_of_mem_eraseIdx hrun, h⟩

theorem inv_delete (hinv : Inv s) (file : String) : Inv (s.delete file) :=
  { hinv with
    drive := fun other hother => hinv.drive other (List.mem_of_mem_filter hother)
    passes := fun pass hpass => (hinv.passes pass hpass).awaits rfl rfl rfl fun _ _ h => h }

theorem inv_setLook (hinv : Inv s) {pass : Pass} {look : Look}
    (hok : PassOk s { pass with look }) : Inv (s.setLook i pass look) := by
  refine { hinv with passes := fun other hother => ?_ }
  rcases List.mem_or_eq_of_mem_set hother with hother | rfl
  · exact (hinv.passes other hother).awaits rfl rfl rfl fun _ _ h => h
  · exact hok.awaits rfl rfl rfl fun _ _ h => h

theorem inv_backups (hinv : Inv s) {backups : Table BackupRow.id}
    (hrows : ∀ row ∈ backups.rows, ∃ old ∈ s.db.backups.rows, old.id = row.id ∧
      row.serverId = old.serverId ∧ row.location = old.location ∧
        (row.driveFileId = old.driveFileId ∨ row.driveFileId.isSome ∧ s.isOurs old ∧
          ∀ id ∈ row.driveFileId, s.Awaits row.id id)) :
    Inv { s with db := { s.db with backups } } := by
  have hours : ∀ old row : BackupRow, row.serverId = old.serverId → row.location = old.location →
      s.isOurs old → s.isOurs row := by
    intro old row hserver hlocation h
    simpa only [System.isOurs, hserver, hlocation] using h
  refine { hinv with rows := fun row hrow => ?_, runs := fun run hrun => ?_,
                     passes := fun pass hpass => ?_ }
  · obtain ⟨old, hold, hid, hserver, hlocation, hnamed⟩ := hrows row hrow
    refine ⟨hid ▸ (hinv.rows old hold).1, fun hsome => hours old row hserver hlocation ?_⟩
    rcases hnamed with hsame | ⟨-, hold, -⟩
    · exact (hinv.rows old hold).2 (hsame ▸ hsome)
    · exact hold
  · refine ⟨(hinv.runs run hrun).1, fun row hrow hid => ?_⟩
    obtain ⟨old, hold, hold', hserver, hlocation, -⟩ := hrows row hrow
    exact hours old row hserver hlocation ((hinv.runs run hrun).2 old hold (hold'.trans hid))
  have hok := hinv.passes pass hpass
  refine ⟨hok.known, fun file hfile => ?_⟩
  refine forsaken_of hinv (fun row hrow => .inl ?_) (fun _ h => h)
    (hok.known file (pass.condemned_subset hfile)) (hok.spared file hfile)
  obtain ⟨old, hold, hid, -, -, hnamed⟩ := hrows row hrow
  exact ⟨old, hold, hid, hnamed.imp_right fun h => ⟨h.1, h.2.2⟩⟩

theorem inv_createsServer (hinv : Inv s) {row : ServerRow} {servers : Table ServerRow.id}
    (h : s.db.servers.insert row = some servers) : Inv { s with db := { s.db with servers } } := by
  have hours : ∀ backup : BackupRow, s.isOurs backup →
      System.isOurs { s with db := { s.db with servers } } backup := by
    intro backup hbackup
    simp only [System.isOurs, Bool.and_eq_true, Option.any_eq_true] at hbackup ⊢
    obtain ⟨hlocation, server, hserver, howner⟩ := hbackup
    exact ⟨hlocation, server, Table.find?_of_insert h hserver, howner⟩
  exact { hinv with
    rows := fun row hrow => ⟨(hinv.rows row hrow).1, fun hsome => hours row ((hinv.rows row hrow).2 hsome)⟩
    runs := fun run hrun =>
      ⟨(hinv.runs run hrun).1, fun row hrow hid => hours row ((hinv.runs run hrun).2 row hrow hid)⟩
    passes := fun pass hpass => (hinv.passes pass hpass).awaits rfl rfl rfl fun _ _ h => h }

theorem inv_createsBackup (hinv : Inv s) {server : Id} {location : BackupLocation}
    (h : s.createsBackup server location = some t) : Inv t := by
  simp only [System.createsBackup] at h
  split at h
  · rename_i backups hserver hinsert
    cases h
    have hrows := Table.rows_of_insert hinsert
    have hlt : ∀ b, b < s.nextBackup → b < s.nextBackup + 1 := fun b => Nat.lt_succ_of_lt
    have hmem : ∀ row ∈ backups.rows, row ∈ s.db.backups.rows ∨
        row.id = s.nextBackup ∧ row.driveFileId = none := by
      intro row hrow
      rw [hrows] at hrow
      rcases List.mem_append.mp hrow with hrow | hrow
      · exact .inl hrow
      · obtain rfl := List.mem_singleton.mp hrow
        exact .inr ⟨rfl, rfl⟩
    have hknows : ∀ file, s.Knows file →
        System.Knows { s with db := { s.db with backups }, nextBackup := s.nextBackup + 1 } file :=
      fun file hfile => ⟨hfile.1, fun b hb => hlt b (hfile.2 b hb)⟩
    refine
      { rows := fun row hrow => ?_
        uploads := fun b hb => hlt b (hinv.uploads b hb)
        sessions := fun session hsession => hlt _ (hinv.sessions session hsession)
        runs := fun run hrun => ⟨hlt _ (hinv.runs run hrun).1, fun row hrow hid => ?_⟩
        drive := fun file hfile => hknows file (hinv.drive file hfile)
        passes := fun pass hpass => ?_ }
    · rcases hmem row hrow with hrow | ⟨hid, hnone⟩
      · exact ⟨hlt _ (hinv.rows row hrow).1, (hinv.rows row hrow).2⟩
      · exact ⟨hid ▸ Nat.lt_succ_self _, by simp [hnone]⟩
    · rcases hmem row hrow with hrow | ⟨hnew, -⟩
      · exact (hinv.runs run hrun).2 row hrow hid
      · have hrun' := (hinv.runs run hrun).1
        rw [← hid, hnew] at hrun'
        exact absurd hrun' (Nat.lt_irrefl _)
    have hok := hinv.passes pass hpass
    refine ⟨fun file hfile => hknows file (hok.known file hfile), fun file hfile => ?_⟩
    refine forsaken_of hinv (fun row hrow => ?_) (fun _ h => h)
      (hok.known file (pass.condemned_subset hfile)) (hok.spared file hfile)
    rcases hmem row hrow with hrow | ⟨hid, hnone⟩
    · exact .inl ⟨row, hrow, rfl, .inl rfl⟩
    · exact .inr ⟨Nat.le_of_eq hid.symm, hnone⟩
  · simp at h

theorem inv_issues (hinv : Inv s) {file : File} {sessions : List Session} {folder : Option String}
    (hfresh : file.id ∉ s.issued) (hbackup : ∀ b ∈ file.backupId, b < s.nextBackup)
    (hsessions : ∀ session ∈ sessions, session.backup < s.nextBackup)
    (hfiles : ∀ a id, (sessions[a]?).bind Session.file = some id →
      s.fileOf a = some id ∨ id = file.id) :
    Inv { s with
      sessions, drive := s.drive ++ [file], issued := file.id :: s.issued, folder } := by
  have hknows : ∀ other, s.Knows other → System.Knows { s with
      sessions, drive := s.drive ++ [file], issued := file.id :: s.issued, folder } other :=
    fun other h => ⟨List.mem_cons_of_mem _ h.1, h.2⟩
  refine { hinv with sessions := hsessions, drive := fun other hother => ?_,
                     passes := fun pass hpass => ?_ }
  · rcases List.mem_append.mp hother with hother | hother
    · exact hknows other (hinv.drive other hother)
    · obtain rfl := List.mem_singleton.mp hother
      exact ⟨List.mem_cons_self, hbackup⟩
  have hok := hinv.passes pass hpass
  refine ⟨fun other hother => hknows other (hok.known other hother), fun other hother => ?_⟩
  have hold := hok.known other (pass.condemned_subset hother)
  have hne : other.id ≠ file.id := fun he => hfresh (he ▸ hold.1)
  refine forsaken_awaits (s := s) rfl (fun b h => ?_) (hok.spared other hother)
  rcases h with ⟨run, hrun, hb, hfile⟩ | h
  · refine .inl ⟨run, hrun, hb, ?_⟩
    unfold System.brings at hfile ⊢
    cases hphase : run.phase with
    | sending address =>
      rw [hphase] at hfile
      exact (hfiles address _ hfile).resolve_right hne
    | starting | fresh | throwing _ => simp [hphase] at hfile
    | checking _ | storing _ => simpa [hphase] using hfile
  · obtain ⟨a, ha, hfile⟩ := Option.bind_eq_some_iff.mp h
    exact .inr (Option.bind_eq_some_iff.mpr ⟨a, ha, (hfiles a _ hfile).resolve_right hne⟩)

theorem inv_finishes (hinv : Inv s) {address : Nat} {file : String} {md5 : Option String}
    (h : s.finishes address file md5 = some t) : Inv t := by
  simp only [System.finishes] at h
  split at h
  · rename_i session hsession
    split at h
    · rename_i hguard
      cases h
      have hmem : session ∈ s.sessions := List.mem_of_getElem? hsession
      have hfresh : file ∉ s.issued := by
        simp only [Bool.and_eq_true, Bool.not_eq_true', List.contains_eq_mem] at hguard
        simpa using hguard.2
      apply inv_issues hinv hfresh
      · intro b hb
        obtain rfl : session.backup = b := by simpa using hb
        exact hinv.sessions session hmem
      · intro other hother
        rcases List.mem_or_eq_of_mem_set hother with hother | rfl
        · exact hinv.sessions other hother
        · exact hinv.sessions session hmem
      intro a id hid
      by_cases ha : address = a
      · subst ha
        rw [List.getElem?_set_self (List.getElem?_eq_some_iff.mp hsession).1] at hid
        exact .inr (by simpa using hid.symm)
      · rw [List.getElem?_set_ne ha] at hid
        exact .inl hid
    · simp at h
  · simp at h

theorem inv_openSession (hinv : Inv s) {b : Id} (hb : b < s.nextBackup) :
    Inv { s with sessions := s.sessions ++ [{ backup := b }] } := by
  have hfileOf : ∀ a, System.fileOf { s with sessions := s.sessions ++ [{ backup := b }] } a =
      s.fileOf a := by
    intro a
    simp only [System.fileOf, List.getElem?_append]
    split
    · rfl
    rename_i hlt
    rw [List.getElem?_eq_none (Nat.not_lt.mp hlt)]
    cases a - s.sessions.length with
    | zero => rfl
    | succ n => rfl
  have hbrings : ∀ run, System.brings { s with sessions := s.sessions ++ [{ backup := b }] } run =
      s.brings run := by
    intro run
    simp only [System.brings, hfileOf]
  refine { hinv with sessions := fun session hsession => ?_, passes := fun pass hpass => ?_ }
  · rcases List.mem_append.mp hsession with hsession | hsession
    · exact hinv.sessions session hsession
    · obtain rfl := List.mem_singleton.mp hsession
      exact hb
  · refine (hinv.passes pass hpass).awaits rfl rfl rfl fun a file h => ?_
    rcases h with ⟨run, hrun, ha, hfile⟩ | h
    · exact .inl ⟨run, hrun, ha, hbrings run ▸ hfile⟩
    · obtain ⟨address, haddress, hfile⟩ := Option.bind_eq_some_iff.mp h
      exact .inr (Option.bind_eq_some_iff.mpr ⟨address, haddress, hfileOf address ▸ hfile⟩)

theorem find?_openUpload (db : Database) (row : UploadRow) (b : Id) :
    (openUpload db row).uploads.find? b =
      if b = row.backupId then some row else db.uploads.find? b := by
  have hfree : row.backupId ∉ (db.uploads.erase row.backupId).rows.map UploadRow.backupId :=
    Table.find?_none.mp (db.uploads.find?_erase_same row.backupId)
  cases h : (db.uploads.erase row.backupId).insert row with
  | none => simp [Table.insert, hfree] at h
  | some uploads =>
    have hfind := Table.find?_insert h b
    simp only [openUpload, forgetUpload, h, Option.getD_some]
    rw [hfind]
    split
    · rfl
    · rename_i hb
      exact Table.find?_erase_ne _ hb

theorem inv_remembers (hinv : Inv s) {row : UploadRow} {address : Nat}
    (hb : row.backupId < s.nextBackup) (hopen : s.fileOf address = none) :
    Inv { s with
      db := openUpload s.db row
      addresses := Function.update s.addresses row.backupId (some address) } := by
  refine { hinv with uploads := fun b hsome => ?_, passes := fun pass hpass => ?_ }
  · rw [find?_openUpload] at hsome
    split at hsome
    · rename_i hbrow
      exact hbrow ▸ hb
    · exact hinv.uploads b hsome
  refine (hinv.passes pass hpass).awaits rfl rfl rfl fun b file h => h.imp_right fun h => ?_
  obtain ⟨a, ha, hfile⟩ := Option.bind_eq_some_iff.mp h
  simp only [System.remembered, find?_openUpload] at ha
  by_cases hbrow : b = row.backupId
  · obtain rfl : address = a := by simpa [hbrow] using ha
    exact absurd (hopen.symm.trans hfile) (by simp)
  · refine Option.bind_eq_some_iff.mpr ⟨a, ?_, hfile⟩
    simpa [hbrow, System.remembered] using ha

theorem inv_opens (hinv : Inv s) {now : Timestamp} {kept : Bool}
    (h : s.opens i now kept = some t) : Inv t := by
  simp only [System.opens] at h
  split at h
  · rename_i run hrun
    split at h
    · cases h
      have hb := (hinv.runs run (List.mem_of_getElem? hrun)).1
      have hopened := inv_openSession hinv hb
      have hopen : System.fileOf { s with sessions := s.sessions ++ [{ backup := run.backup }] }
          s.sessions.length = none := by
        simp [System.fileOf]
      cases kept with
      | false =>
        refine inv_setRun hopened hrun rfl fun file hfile => ?_
        exact absurd (hopen.symm.trans hfile) (by simp)
      | true =>
        refine inv_setRun (inv_remembers hopened hb hopen) hrun rfl fun file hfile => ?_
        exact absurd (hopen.symm.trans hfile) (by simp)
    · simp at h
  · simp at h

theorem confirm_fileId {sent : Sent} {size : Nat} {seen : Option Uploaded} {stored : Stored}
    (h : confirm sent size seen = .ok stored) : stored.fileId = sent.file.id := by
  simp only [confirm] at h
  split at h
  · simp at h
  split at h
  · simp at h
  split at h
  · rw [← Except.ok.inj h]
  split at h <;> split at h
  all_goals first
    | rw [← Except.ok.inj h]
    | simp at h

theorem brings_of_carryOn {run : Run} {now : Timestamp} {standing : Standing}
    {whole : Option Prefix} {carried : Carried} {letsGo : Bool} {file : String}
    (h : s.carryOn run now standing whole = some (carried, letsGo))
    (hfile : s.brings { run with phase := carried.phase } = some file) :
    (s.remembered run.backup).bind s.fileOf = some file := by
  have hfresh : carried ≠ .fresh := by
    rintro rfl
    simp [System.brings, Carried.phase] at hfile
  simp only [System.carryOn] at h
  split at h
  · simp [hfresh.symm] at h
  rename_i row hrow
  split at h
  · simp [hfresh.symm] at h
  split at h
  · simp [hfresh.symm] at h
  split at h
  · simp [hfresh.symm] at h
  rename_i address haddress
  have hremembered : s.remembered run.backup = some address := by
    simp [System.remembered, hrow, haddress]
  rw [hremembered]
  split at h
  · split at h
    · rename_i answer hanswer
      cases hproven : proven row run.size whole with
      | none => simp [hproven, hfresh.symm] at h
      | some found =>
        obtain ⟨rfl, -⟩ : Carried.finished ⟨answer, found.md5, found.sha256, run.size⟩ = carried ∧
            true = letsGo := by simpa [hproven] using h
        exact hanswer.trans hfile
    · simp at h
  · split at h
    · split at h
      · obtain ⟨rfl, -⟩ : Carried.carriesAt address = carried ∧ false = letsGo := by simpa using h
        exact hfile
      · simp [hfresh.symm] at h
    · simp at h
  · simp [hfresh.symm] at h
  · simp at h

theorem inv_carriesOn (hinv : Inv s) {now : Timestamp} {standing : Standing}
    {whole : Option Prefix} (h : s.carriesOn i now standing whole = some t) : Inv t := by
  simp only [System.carriesOn] at h
  split at h
  · rename_i run hrun
    split at h
    · obtain ⟨⟨carried, letsGo⟩, hcarried, rfl⟩ := Option.map_eq_some_iff.mp h
      have hset : Inv (s.setRun i { run with phase := carried.phase }) :=
        inv_setRun hinv hrun rfl fun file hfile => .inr (brings_of_carryOn hcarried hfile)
      cases letsGo with
      | false => exact hset
      | true => exact inv_letGo hset run.backup
    · simp at h
  · simp at h

/-- A statement that writes only what is known of the files in the Drive. -/
def Keeps (db db' : Database) : Prop :=
  ∃ backups, db' = { db with backups } ∧ ∀ row ∈ backups.rows, ∃ old ∈ db.backups.rows,
    old.id = row.id ∧ row.serverId = old.serverId ∧ row.location = old.location ∧
      row.driveFileId = old.driveFileId

theorem Keeps.refl (db : Database) : Keeps db db :=
  ⟨db.backups, rfl, fun row hrow => ⟨row, hrow, rfl, rfl, rfl, rfl⟩⟩

theorem Keeps.trans {db db' db'' : Database} (h : Keeps db db') (h' : Keeps db' db'') :
    Keeps db db'' := by
  obtain ⟨backups, rfl, hrows⟩ := h
  obtain ⟨backups', rfl, hrows'⟩ := h'
  refine ⟨backups', rfl, fun row hrow => ?_⟩
  obtain ⟨mid, hmid, hid, hserver, hlocation, hfile⟩ := hrows' row hrow
  obtain ⟨old, hold, hid', hserver', hlocation', hfile'⟩ := hrows mid hmid
  exact ⟨old, hold, hid'.trans hid, hserver.trans hserver', hlocation.trans hlocation',
    hfile.trans hfile'⟩

theorem keeps_updateBackup (db : Database) (b : Id) {f : BackupRow → BackupRow}
    (hf : ∀ r, (f r).id = r.id)
    (hkeeps : ∀ r, (f r).serverId = r.serverId ∧ (f r).location = r.location ∧
      (f r).driveFileId = r.driveFileId) : Keeps db (db.updateBackup b f hf) := by
  refine ⟨_, rfl, fun row hrow => ?_⟩
  obtain ⟨old, hold, rfl | ⟨-, rfl⟩⟩ := Table.mem_modify hf hrow
  · exact ⟨row, hold, rfl, rfl, rfl, rfl⟩
  · exact ⟨old, hold, (hf old).symm, hkeeps old⟩

theorem keeps_mark (db : Database) (theirs : List File) (now : Timestamp) (row : BackupRow) :
    Keeps db (mark db theirs now row) := by
  unfold mark
  split
  · exact Keeps.refl db
  rename_i fileId hfile
  simp only
  have hstate : ∀ state : DriveFileState,
      Keeps db (if row.driveState ≠ some state then setFileState db row.id state else db) := by
    intro state
    split
    · exact keeps_updateBackup db row.id _ fun _ => ⟨rfl, rfl, rfl⟩
    · exact Keeps.refl db
  split
  · split
    · exact (hstate _).trans (keeps_updateBackup _ _ _ fun _ => ⟨rfl, rfl, rfl⟩)
    · exact (hstate _).trans (keeps_updateBackup _ _ _ fun _ => ⟨rfl, rfl, rfl⟩)
    · exact hstate _
  · exact hstate _

theorem inv_keeps (hinv : Inv s) {db : Database} (h : Keeps s.db db) : Inv { s with db } := by
  obtain ⟨backups, rfl, hrows⟩ := h
  apply inv_backups hinv
  intro row hrow
  obtain ⟨old, hold, hid, hserver, hlocation, hfile⟩ := hrows row hrow
  exact ⟨old, hold, hid, hserver, hlocation, .inl hfile⟩

theorem inv_marks (hinv : Inv s) (h : s.marks i = some t) : Inv t := by
  simp only [System.marks] at h
  split at h
  · rename_i pass hpass
    have hok := hinv.passes pass (List.mem_of_getElem? hpass)
    split at h
    · rename_i theirs ours row todo hlook
      cases h
      have hmarked := inv_keeps hinv (keeps_mark s.db theirs pass.now row)
      have hok' := hmarked.passes pass (List.mem_of_getElem? hpass)
      apply inv_setLook hmarked
      refine ⟨fun file hfile => hok'.known file ?_, fun file hfile => hok'.spared file ?_⟩
      · simpa [Pass.files, hlook] using hfile
      · simpa [Pass.condemned, hlook] using hfile
    · rename_i theirs ours hlook
      cases h
      apply inv_setLook hinv
      refine ⟨fun file hfile => hok.known file ?_, fun file hfile => hok.spared file ?_⟩
      · simpa [Pass.files, hlook] using hfile
      · simpa [Pass.condemned, hlook] using hfile
    · simp at h
  · simp at h

theorem inv_removes (hinv : Inv s) {gone : Bool} (h : s.removes i gone = some t) :
    Inv t := by
  simp only [System.removes] at h
  split at h
  · rename_i pass hpass
    split at h
    · rename_i first todo ours folder hlook
      cases h
      have hdeleted : ∀ u : System, Inv u → u.passes = s.passes →
          Inv (u.setLook i pass (.removes todo ours folder)) := by
        intro u hu hpasses
        have hok := hu.passes pass (hpasses ▸ List.mem_of_getElem? hpass)
        apply inv_setLook hu
        refine ⟨fun file hfile => hok.known file ?_, fun file hfile => hok.spared file ?_⟩
        · rw [Pass.files, hlook]
          exact List.mem_cons_of_mem _ hfile
        · rw [Pass.condemned, hlook]
          exact (List.sublist_cons_self first todo).filter _ |>.subset hfile
      split
      · cases gone with
        | true => exact hdeleted _ (inv_delete hinv _) rfl
        | false => exact hdeleted _ hinv rfl
      · exact hdeleted _ hinv rfl
    · simp at h
  · simp at h

theorem named_of_isOurs {row : BackupRow} (hrow : row ∈ s.db.backups.rows) (hours : s.isOurs row)
    {file : File} (hname : row.driveFileId = some file.id) :
    isOrphan (backupsOf s.db s.user) file = false := by
  have hmem : row ∈ backupsOf s.db s.user := by
    simp only [backupsOf, List.mem_insertionSort, Table.select]
    exact List.mem_filter.mpr ⟨hrow, hours⟩
  simp only [isOrphan, Bool.and_eq_false_iff, Bool.not_eq_false', List.any_eq_true]
  exact .inr ⟨row, hmem, by simpa using hname⟩

theorem inv_reads (hinv : Inv s) (hok : ReadsRecorded s (.reads i))
    (h : s.reads i = some t) : Inv t := by
  simp only [System.reads] at h
  split at h
  · rename_i pass hpass
    split at h
    · rename_i theirs hlook
      cases h
      have hknown := (hinv.passes pass (List.mem_of_getElem? hpass)).known
      have hrecorded : ∀ file ∈ theirs, ∀ row ∈ s.db.backups.rows, ¬ s.Unrecorded file row := by
        have hread := hok pass hpass
        rwa [hlook] at hread
      apply inv_setLook hinv
      refine ⟨fun file hfile => hknown file ?_, fun file hfile row hrow => ?_⟩
      · simpa [Pass.files, hlook] using hfile
      obtain ⟨hlisted, horphan⟩ := List.mem_filter.mp hfile
      refine ⟨fun hname => ?_, hrecorded file hlisted row hrow⟩
      have hours := (hinv.rows row hrow).2 (by simp [hname])
      rw [named_of_isOurs hrow hours hname] at horphan
      simp at horphan
    · simp at h
  · simp at h

theorem inv_lists (hinv : Inv s) {files : List File} (h : s.lists i files = some t) :
    Inv t := by
  simp only [System.lists] at h
  split at h
  · rename_i pass hpass
    split at h
    · rename_i found hlook
      split at h
      · rename_i hfiles
        cases h
        have hknown := (hinv.passes pass (List.mem_of_getElem? hpass)).known
        apply inv_setLook hinv
        refine ⟨fun file hfile => ?_, fun file hfile => ?_⟩
        · rcases List.mem_append.mp hfile with hfile | hfile
          · apply hknown
            simpa [Pass.files, hlook] using hfile
          · apply hinv.drive
            simpa using List.all_eq_true.mp hfiles file hfile
        · simp [Pass.condemned] at hfile
      · simp at h
    · simp at h
  · simp at h

theorem inv_records (hinv : Inv s) (h : s.records i = some t) : Inv t := by
  simp only [System.records] at h
  split at h
  · rename_i run hrun
    split at h
    · rename_i stored hphase
      cases h
      have hmem : run ∈ s.runs := List.mem_of_getElem? hrun
      have hawaits : s.Awaits run.backup stored.fileId :=
        .inl ⟨run, hmem, rfl, by simp [System.brings, hphase]⟩
      refine inv_dropRun (inv_backups hinv fun row hrow => ?_) i
      obtain ⟨old, hold, rfl | ⟨hid, rfl⟩⟩ := Table.mem_modify _ hrow
      · exact ⟨row, hold, rfl, rfl, rfl, .inl rfl⟩
      have hours := (hinv.runs run hmem).2 old hold hid
      refine ⟨old, hold, rfl, rfl, rfl, .inr ⟨rfl, hours, fun id hname => ?_⟩⟩
      obtain rfl : stored.fileId = id := by simpa using hname
      show s.Awaits old.id stored.fileId
      rwa [hid]
    · simp at h
  · simp at h

theorem inv_hears (hinv : Inv s) {sent : Sent} {intact : Bool}
    (h : s.hears i sent intact = some t) : Inv t := by
  simp only [System.hears] at h
  split at h
  · rename_i run hrun
    split at h
    · rename_i address hphase
      split at h
      · rename_i hfile
        cases h
        have hawaits : s.Awaits run.backup sent.file.id :=
          .inl ⟨run, List.mem_of_getElem? hrun, rfl, by simpa [System.brings, hphase] using hfile⟩
        apply inv_letGo (s := s.setRun i _)
        refine inv_setRun hinv hrun rfl fun file hbrings => ?_
        cases intact with
        | true =>
          obtain rfl : sent.file.id = file := by simpa [System.brings] using hbrings
          exact hawaits
        | false => simp [System.brings] at hbrings
      · simp at h
    · simp at h
  · simp at h

theorem inv_loses (hinv : Inv s) (h : s.loses i = some t) : Inv t := by
  simp only [System.loses] at h
  split at h
  · rename_i run hrun
    split at h
    · cases h
      apply inv_letGo (s := s.setRun i _)
      refine inv_setRun hinv hrun rfl fun file hbrings => ?_
      simp [System.brings] at hbrings
    · simp at h
  · simp at h

theorem inv_fails (hinv : Inv s) {letsGo : Bool} (h : s.fails i letsGo = some t) :
    Inv t := by
  have hdropped : ∀ run : Run,
      Inv ((if letsGo then s.letGo run.backup else s).dropRun i) := by
    intro run
    split
    · exact inv_dropRun (inv_letGo hinv _) i
    · exact inv_dropRun hinv i
  simp only [System.fails] at h
  split at h
  · rename_i run hrun
    split at h <;> simp only [Option.some.injEq, reduceCtorEq] at h
    all_goals
      rw [← h]
      exact hdropped run
  · simp at h

theorem inv_confirms (hinv : Inv s) {seen : Option Uploaded}
    (h : s.confirms i seen = some t) : Inv t := by
  simp only [System.confirms] at h
  split at h
  · rename_i run hrun
    split at h
    · rename_i sent hphase
      split at h
      · rename_i stored hstored
        cases h
        refine inv_setRun hinv hrun rfl fun file hbrings => ?_
        refine .inl ⟨run, List.mem_of_getElem? hrun, rfl, ?_⟩
        have hid := confirm_fileId hstored
        simpa [System.brings, hphase, hid] using hbrings
      · cases h
        refine inv_setRun hinv hrun rfl fun file hbrings => ?_
        simp [System.brings] at hbrings
      · cases h
        exact inv_dropRun hinv i
    · simp at h
  · simp at h

theorem inv_throwsAway (hinv : Inv s) {gone : Bool} (h : s.throwsAway i gone = some t) :
    Inv t := by
  simp only [System.throwsAway] at h
  split at h
  · split at h
    · cases h
      cases gone with
      | true => exact inv_dropRun (inv_delete hinv _) i
      | false => exact inv_dropRun hinv i
    · simp at h
  · simp at h

theorem inv_begins (hinv : Inv s) {backup : Id} {size : Nat} {print : Print}
    (h : s.begins backup size print = some t) : Inv t := by
  simp only [System.begins] at h
  split at h
  · rename_i row hrow
    split at h
    · rename_i hguard
      cases h
      simp only [Bool.and_eq_true] at hguard
      have hid : row.id = backup := Table.find?_key hrow
      refine { hinv with runs := fun run hrun => ?_, passes := fun pass hpass => ?_ }
      · rcases List.mem_append.mp hrun with hrun | hrun
        · exact hinv.runs run hrun
        obtain rfl := List.mem_singleton.mp hrun
        refine ⟨hid ▸ (hinv.rows row (Table.find?_mem hrow)).1, fun other hother hsame => ?_⟩
        have hfind := Table.find?_of_mem hother
        rw [show other.id = backup from hsame, hrow] at hfind
        cases hfind
        exact hguard.1
      · refine (hinv.passes pass hpass).awaits rfl rfl rfl fun b file h => h.imp_left ?_
        rintro ⟨run, hrun, hb, hfile⟩
        rcases List.mem_append.mp hrun with hrun | hrun
        · exact ⟨run, hrun, hb, hfile⟩
        · obtain rfl := List.mem_singleton.mp hrun
          simp [System.brings] at hfile
    · simp at h
  · simp at h

theorem inv_offers (hinv : Inv s) {backup : Id} {upto : Nat} {proof : String} :
    Inv { s with db := noteOffer s.db backup upto proof } := by
  have hremembered : ∀ b, System.remembered { s with db := noteOffer s.db backup upto proof } b =
      s.remembered b := by
    intro b
    simp only [System.remembered, noteOffer, Table.find?_modify]
    split
    · cases s.db.uploads.find? b with
      | none => rfl
      | some row => rfl
    · rfl
  refine { hinv with uploads := fun b hb => hinv.uploads b ?_, passes := fun pass hpass => ?_ }
  · simp only [noteOffer, Table.find?_modify] at hb
    split at hb
    · simpa using hb
    · exact hb
  · refine (hinv.passes pass hpass).awaits rfl rfl rfl fun b file h => h.imp_right fun h => ?_
    rwa [hremembered] at h

theorem inv_edits (hinv : Inv s) {file : String} {trashed : Bool} {md5 : Option String} :
    Inv { s with drive := s.drive.map fun other =>
      if other.id = file then { other with trashed, md5Checksum := md5 } else other } := by
  refine { hinv with drive := fun other hother => ?_, passes := fun pass hpass =>
    (hinv.passes pass hpass).awaits rfl rfl rfl fun _ _ h => h }
  obtain ⟨old, hold, rfl⟩ := List.mem_map.mp hother
  have hknows := hinv.drive old hold
  split
  · exact hknows
  · exact hknows

theorem inv_passes (hinv : Inv s) {passes : List Pass}
    (hpasses : ∀ pass ∈ passes, pass ∈ s.passes ∨ pass.files = []) : Inv { s with passes } := by
  refine { hinv with passes := fun pass hpass => ?_ }
  rcases hpasses pass hpass with hpass | hempty
  · exact (hinv.passes pass hpass).awaits rfl rfl rfl fun _ _ h => h
  refine ⟨fun file hfile => ?_, fun file hfile => ?_⟩
  · simp [hempty] at hfile
  · have hfile := pass.condemned_subset hfile
    simp [hempty] at hfile

theorem inv_step {e : Event} (hinv : Inv s) (hok : ReadsRecorded s e) (h : s.step e = some t) :
    Inv t := by
  cases e with
  | createsServer id owner =>
    obtain ⟨servers, hinsert, rfl⟩ := Option.map_eq_some_iff.mp h
    exact inv_createsServer hinv hinsert
  | createsBackup server location => exact inv_createsBackup hinv h
  | forgets backup =>
    cases h
    apply inv_backups hinv
    intro row hrow
    exact ⟨row, List.mem_of_mem_filter hrow, rfl, rfl, rfl, .inl rfl⟩
  | vanishes file =>
    cases h
    exact inv_delete hinv file
  | edits file trashed md5 =>
    cases h
    exact inv_edits hinv
  | makesFolder file =>
    simp only [System.step] at h
    split at h
    · rename_i hguard
      cases h
      have hfresh : file ∉ s.issued := by
        simp only [Bool.and_eq_true, Bool.not_eq_true', List.contains_eq_mem] at hguard
        simpa using hguard.2
      exact inv_issues hinv hfresh (by simp) hinv.sessions fun _ _ => .inl
    · simp at h
  | begins backup size print => exact inv_begins hinv h
  | carriesOn i now standing whole => exact inv_carriesOn hinv h
  | opens i now kept => exact inv_opens hinv h
  | offers backup upto proof =>
    cases h
    exact inv_offers hinv
  | finishes address file md5 => exact inv_finishes hinv h
  | hears i sent intact => exact inv_hears hinv h
  | loses i => exact inv_loses hinv h
  | fails i letsGo => exact inv_fails hinv h
  | confirms i seen => exact inv_confirms hinv h
  | throwsAway i gone => exact inv_throwsAway hinv h
  | records i => exact inv_records hinv h
  | letsGo backup =>
    cases h
    exact inv_letGo hinv backup
  | panelStops =>
    cases h
    have hstopped : Inv { s with runs := [] } :=
      { hinv with
        runs := by simp
        passes := fun pass hpass => (hinv.passes pass hpass).awaits rfl rfl rfl
          fun _ _ h => h.imp_left (by simp) }
    exact inv_passes hstopped (by simp)
  | looks now =>
    cases h
    apply inv_passes hinv
    intro pass hpass
    rcases List.mem_append.mp hpass with hpass | hpass
    · exact .inl hpass
    · obtain rfl := List.mem_singleton.mp hpass
      exact .inr rfl
  | lists i files => exact inv_lists hinv h
  | reads i => exact inv_reads hinv hok h
  | marks i => exact inv_marks hinv h
  | removes i gone => exact inv_removes hinv h
  | givesUp i =>
    cases h
    exact inv_passes hinv fun pass hpass => .inl (List.mem_of_mem_eraseIdx hpass)

end Primitives

theorem inv_init (user : Id) : Inv { user } := by
  constructor
  all_goals
    intro _ hnone
    cases hnone

theorem Inv.spares {s : System} (hinv : Inv s) : Spares s :=
  fun pass hpass file hfile => (hinv.passes pass hpass).spared file (Pass.deletes_condemned hfile)

/-- A backup of server 0 goes up to the point where Google has the whole archive. -/
def sentRun : List Event :=
  [.createsServer 0 0, .createsBackup 0 .drive, .makesFolder "folder", .begins 0 5 ⟨5, 0, 0⟩,
    .carriesOn 0 0 .failed none, .opens 0 0 true, .finishes 0 "archive" none]

def recordedRun : List Event :=
  sentRun ++ [Event.hears 0 ⟨⟨"archive", some 5, none, none⟩, "", "", 5⟩ true,
    .confirms 0 (some ⟨"archive", some 5, none, none⟩), .records 0, .forgets 0, .looks 1,
    .lists 0 [⟨"folder", false, none, none⟩, ⟨"archive", false, none, some 0⟩], .reads 0,
    .marks 0, .removes 0 true]

/-- A pass lists the archive while the upload run has not heard of it yet. -/
def listedRun : List Event :=
  sentRun ++
    [Event.looks 1, .lists 0 [⟨"archive", false, none, some 0⟩], .reads 0, .marks 0, .marks 0]

end CraftPanel.Drive
