import CraftPanel.Backups.Entries
import CraftPanel.Framework.Firsts

/-!
# What a prune leaves

`prune` of `backups/schedule.rs` and `automatic_over` of `backups/store.rs` as one run that nobody
interrupts, over the statements of the entry points. Which backups are over is reckoned from when
they were made, whatever has become of them.
-/

namespace CraftPanel.Backups.Entries

open Framework Restore

def System.forget (s : System) (backup : Id) : System :=
  let known := s.db.backups.find? backup
  { s.setDb (Ops.deleteBackup s.db backup) with
    archives := s.archives.filter (· ≠ backup)
    stored := s.stored.filter fun file => known.all fun row =>
      row.location ≠ .drive || row.driveFileId ≠ some file }

def System.pruneOne (s : System) (backup : Id) : System :=
  if isBusy s.db backup then s else s.forget backup

def System.prune (s : System) (keepLast : Nat) : System :=
  (automaticOver s.db s.id keepLast).foldl System.pruneOne s

/-- `ORDER BY created_at DESC, id DESC`. -/
def madeAfter (a b : BackupRow) : Bool :=
  b.createdAt < a.createdAt || (a.createdAt = b.createdAt && b.id < a.id)

def newerAutomatic (db : Database) (server : Id) (row : BackupRow) : Nat :=
  db.backups.count fun other => (other.serverId = server && other.automated) && madeAfter other row

/-- A run that made the backup is done; `newest_automatic_finish` goes by the same. -/
def isFinished (db : Database) (backup : Id) : Bool :=
  db.operations.rows.any fun run =>
    run.targetId = some backup && run.kind = .backupCreate && run.state = .done

def newerFinished (db : Database) (server : Id) (row : BackupRow) : Nat :=
  db.backups.count fun other =>
    (other.serverId = server && other.automated && isFinished db other.id) && madeAfter other row

section Order

variable {db : Database} {server : Id} {keep : Nat} {row : BackupRow}

theorem madeAfter_self (a : BackupRow) : madeAfter a a = false := by
  simp [madeAfter]

theorem madeAfter_asymm (a b : BackupRow) (h : madeAfter a b = true) : madeAfter b a = false := by
  simp only [madeAfter, Bool.or_eq_true, Bool.and_eq_true, decide_eq_true_eq, Bool.or_eq_false_iff,
    Bool.and_eq_false_iff, decide_eq_false_iff_not] at h ⊢
  dsimp only [Timestamp, Id] at h ⊢
  omega

theorem automatic_pairwise (db : Database) (server : Id) :
    ((db.backups.select fun row => row.serverId = server && row.automated).mergeSort fun a b =>
      b.createdAt < a.createdAt || (a.createdAt = b.createdAt && b.id ≤ a.id)).Pairwise
        fun a b => madeAfter a b = true := by
  have hsorted := @List.pairwise_mergeSort BackupRow
    (fun a b => b.createdAt < a.createdAt || (a.createdAt = b.createdAt && b.id ≤ a.id))
    (by
      intro a b c
      simp only [Bool.or_eq_true, Bool.and_eq_true, decide_eq_true_eq]
      dsimp only [Timestamp, Id]
      omega)
    (by
      intro a b
      simp only [Bool.or_eq_true, Bool.and_eq_true, decide_eq_true_eq]
      dsimp only [Timestamp, Id]
      omega)
    (db.backups.select fun row => row.serverId = server && row.automated)
  have hids : ((db.backups.select fun row => row.serverId = server && row.automated).mergeSort
      fun a b => b.createdAt < a.createdAt || (a.createdAt = b.createdAt && b.id ≤ a.id)).Pairwise
        fun a b => a.id ≠ b.id := by
    have hselected : ((db.backups.select fun row => row.serverId = server && row.automated).map
        BackupRow.id).Nodup := db.backups.unique.sublist (List.filter_sublist.map _)
    exact List.pairwise_map.mp (((List.mergeSort_perm _ _).map BackupRow.id).nodup_iff.mpr hselected)
  apply (hsorted.and hids).imp
  rintro a b ⟨hle, hne⟩
  simp only [madeAfter, Bool.or_eq_true, Bool.and_eq_true, decide_eq_true_eq] at hle ⊢
  dsimp only [Timestamp, Id] at hle hne ⊢
  omega

theorem mem_automaticOver (h : row ∈ db.backups.rows) :
    row.id ∈ automaticOver db server keep ↔
      (row.serverId = server ∧ row.automated = true) ∧ keep ≤ newerAutomatic db server row := by
  have hselect : ∀ other : BackupRow,
      other ∈ (db.backups.select fun row => row.serverId = server && row.automated) ↔
        other ∈ db.backups.rows ∧ other.serverId = server ∧ other.automated = true := by
    intro other
    simp [Table.select]
  have hcount : ∀ l : List BackupRow,
      l.Perm (db.backups.select fun row => row.serverId = server && row.automated) →
        (l.countP fun other => madeAfter other row) = newerAutomatic db server row := by
    intro l hperm
    rw [hperm.countP_eq, Table.select, List.countP_filter]
    apply List.countP_congr
    intro other _
    simp [and_comm]
  have hperm := List.mergeSort_perm
    (db.backups.select fun row => row.serverId = server && row.automated)
    fun a b => b.createdAt < a.createdAt || (a.createdAt = b.createdAt && b.id ≤ a.id)
  unfold automaticOver
  constructor
  · intro hmem
    obtain ⟨other, hother, hid⟩ := List.mem_map.mp hmem
    have hselected := (hselect other).mp (hperm.mem_iff.mp (List.mem_of_mem_drop hother))
    obtain rfl : other = row := List.inj_on_of_nodup_map db.backups.unique hselected.1 h hid
    have hrank := (mem_drop_iff madeAfter_self madeAfter_asymm (automatic_pairwise db server)
      (List.mem_of_mem_drop hother) keep).mp hother
    rw [hcount _ hperm] at hrank
    exact ⟨hselected.2, hrank⟩
  · rintro ⟨hof, hrank⟩
    apply List.mem_map_of_mem
    rw [mem_drop_iff madeAfter_self madeAfter_asymm (automatic_pairwise db server)
      (hperm.mem_iff.mpr ((hselect row).mpr ⟨h, hof⟩)), hcount _ hperm]
    exact hrank

end Order

section Pruning

variable {s : System} {row : BackupRow} {backup : Id}

theorem isBusy_deleteBackup {db : Database} {other : Id} (h : other ≠ backup) :
    isBusy (Ops.deleteBackup db backup) other = isBusy db other := by
  unfold isBusy Ops.deleteBackup
  rw [Table.count_map]
  intro run _
  unfold Ops.dropTarget
  split
  next htarget =>
    have hne : ¬ run.targetId = some other := by
      rw [htarget]
      exact fun he => h (Option.some.inj he).symm
    simp [hne]
  next => rfl

theorem mem_forget : row ∈ (s.forget backup).db.backups.rows ↔
    row ∈ s.db.backups.rows ∧ row.id ≠ backup := by
  show row ∈ (s.db.backups.erase backup).rows ↔ _
  simp [Table.erase]

theorem gone_foldl_pruneOne (hrow : row ∉ s.db.backups.rows) (harchive : row.id ∉ s.archives)
    (todo : List Id) :
    row ∉ (todo.foldl System.pruneOne s).db.backups.rows ∧
      row.id ∉ (todo.foldl System.pruneOne s).archives := by
  induction todo generalizing s with
  | nil => exact ⟨hrow, harchive⟩
  | cons backup todo ih =>
    rw [List.foldl_cons, System.pruneOne]
    split
    · exact ih hrow harchive
    · apply ih
      · exact fun hmem => hrow (mem_forget.mp hmem).1
      · exact fun hmem => harchive (List.mem_filter.mp hmem).1

theorem mem_foldl_pruneOne (h : row ∈ s.db.backups.rows) (todo : List Id) :
    let t := todo.foldl System.pruneOne s
    let stays := row.id ∈ todo → isBusy s.db row.id = true
    (row ∈ t.db.backups.rows ↔ stays) ∧
      (row.id ∈ s.archives → (row.id ∈ t.archives ↔ stays)) := by
  induction todo generalizing s with
  | nil => simp [h]
  | cons backup todo ih =>
    rw [List.foldl_cons, System.pruneOne]
    by_cases hbusy : isBusy s.db backup = true
    · rw [if_pos hbusy]
      have hstays : (row.id ∈ backup :: todo → isBusy s.db row.id = true) ↔
          (row.id ∈ todo → isBusy s.db row.id = true) := by
        refine ⟨fun hstays hmem => hstays (List.mem_cons_of_mem _ hmem), fun hstays hmem => ?_⟩
        rcases List.mem_cons.mp hmem with rfl | hrest
        · exact hbusy
        · exact hstays hrest
      simp only [hstays]
      exact ih h
    · rw [if_neg hbusy]
      by_cases hself : row.id = backup
      · have hnot : ¬ (row.id ∈ backup :: todo → isBusy s.db row.id = true) := by
          intro hstays
          exact hbusy (hself ▸ hstays (hself ▸ List.mem_cons_self))
        have hrow : row ∉ (s.forget backup).db.backups.rows :=
          fun hmem => (mem_forget.mp hmem).2 hself
        have harchive : row.id ∉ (s.forget backup).archives :=
          fun hmem => by simpa [hself] using (List.mem_filter.mp hmem).2
        have hend := gone_foldl_pruneOne hrow harchive todo
        exact ⟨iff_of_false hend.1 hnot, fun _ => iff_of_false hend.2 hnot⟩
      · have hforget := ih (mem_forget.mpr ⟨h, hself⟩)
        have hsame : isBusy (s.forget backup).db row.id = isBusy s.db row.id :=
          isBusy_deleteBackup hself
        simp only [hsame] at hforget
        simp only [List.mem_cons, hself, false_or]
        refine ⟨hforget.1, fun harchive => hforget.2 ?_⟩
        exact List.mem_filter.mpr ⟨harchive, by simpa using hself⟩

def System.removing (s : System) (others : List Removal) (removal : Removal) : System :=
  { s with removals := others ++ [removal] }

theorem step_removing (others : List Removal) (removal : Removal) :
    machine.step (s.removing others removal) (.removes others.length) =
      match (s.removing others removal).removesNext removal with
      | (t, some left) => some { t with removals := others ++ [left] }
      | (t, none) => some { t with removals := others } := by
  have hfound : (s.removing others removal).removals[others.length]? = some removal := by
    simp [System.removing]
  show (s.removing others removal).removes others.length = _
  unfold System.removes
  rw [hfound, Option.map_some]
  rcases (s.removing others removal).removesNext removal with ⟨t, left | left⟩
  · have herase : (others ++ [removal]).eraseIdx others.length = others := by
      rw [List.eraseIdx_append_of_length_le (Nat.le_refl _), Nat.sub_self]
      simp
    simp [System.removing, herase]
  · simp [System.removing]

theorem exec_pruneOne (others : List Removal) (backup : Id) (todo : List Id) :
    ∃ es, machine.exec (s.removing others { prunes := true, todo := backup :: todo }) es =
      some ((s.pruneOne backup).removing others { prunes := true, todo }) := by
  unfold System.pruneOne
  by_cases hbusy : isBusy s.db backup = true
  · rw [if_pos hbusy]
    refine ⟨List.replicate 2 (.removes others.length), ?_⟩
    have hbusy' : isBusy (s.removing others { prunes := true, todo, phase := .asks backup }).db
        backup = true := hbusy
    have hasks := step_removing (s := s) others { prunes := true, todo := backup :: todo }
    have hnext := step_removing (s := s) others { prunes := true, todo, phase := .asks backup }
    simp only [System.removesNext, hbusy', if_true, Bool.true_or] at hasks hnext
    exact machine.exec_cons.mpr ⟨_, hasks, machine.exec_cons.mpr ⟨_, hnext, rfl⟩⟩
  rw [if_neg hbusy]
  refine ⟨List.replicate 5 (.removes others.length), ?_⟩
  have hbusy' : isBusy (s.removing others { prunes := true, todo, phase := .asks backup }).db
      backup = false := Bool.eq_false_iff.mpr hbusy
  have hasks := step_removing (s := s) others { prunes := true, todo := backup :: todo }
  have hfinds := step_removing (s := s) others { prunes := true, todo, phase := .asks backup }
  have hremoves := step_removing (s := s) others { prunes := true, todo, phase := .finds backup }
  have hclears := step_removing (s := s) others
    { prunes := true, todo, phase := .removes backup (s.db.backups.find? backup) }
  have hnext := step_removing (s := s.setDb (Ops.deleteBackup s.db backup)) others
    { prunes := true, todo, phase := .clears backup (s.db.backups.find? backup) }
  simp only [System.removesNext, hbusy', Bool.true_or, if_true] at hasks hfinds hremoves hclears
  refine machine.exec_cons.mpr ⟨_, hasks, machine.exec_cons.mpr ⟨_, hfinds, ?_⟩⟩
  refine machine.exec_cons.mpr ⟨_, hremoves, machine.exec_cons.mpr ⟨_, hclears, ?_⟩⟩
  exact machine.exec_cons.mpr ⟨_, hnext, rfl⟩

theorem exec_prunes (s : System) (keepLast : Nat) :
    ∃ es, machine.exec s (.prunes keepLast :: es) = some (s.prune keepLast) := by
  have hrun : ∀ (todo : List Id) (s : System), ∃ es,
      machine.exec (s.removing s.removals { prunes := true, todo }) es =
        some (todo.foldl System.pruneOne s) := by
    intro todo
    induction todo with
    | nil =>
      intro s
      have hlast := step_removing (s := s) s.removals { prunes := true, todo := [] }
      exact ⟨[.removes s.removals.length], machine.exec_cons.mpr ⟨_, hlast, rfl⟩⟩
    | cons backup todo ih =>
      intro s
      obtain ⟨es, hes⟩ := exec_pruneOne (s := s) s.removals backup todo
      obtain ⟨es', hes'⟩ := ih (s.pruneOne backup)
      have hsame : (s.pruneOne backup).removals = s.removals := by
        unfold System.pruneOne
        split <;> rfl
      rw [hsame] at hes'
      exact ⟨es ++ es', machine.exec_append.mpr ⟨_, hes, hes'⟩⟩
  obtain ⟨es, hes⟩ := hrun (automaticOver s.db s.id keepLast) s
  exact ⟨es, machine.exec_cons.mpr ⟨_, rfl, hes⟩⟩

/-- A prune takes just those automatic backups of its server after which at least as many others,
whatever has become of them, were made as are to be kept, and on which no run is open. -/
theorem prune_keeps_newest (s : System) (keepLast : Nat) (row : BackupRow)
    (h : row ∈ s.db.backups.rows) :
    let t := s.prune keepLast
    let goes := (row.serverId = s.id ∧ row.automated = true) ∧
      keepLast ≤ newerAutomatic s.db s.id row ∧ isBusy s.db row.id = false
    (row ∈ t.db.backups.rows ↔ ¬ goes) ∧
      (row.id ∈ s.archives → (row.id ∈ t.archives ↔ ¬ goes)) := by
  have hover : row.id ∈ automaticOver s.db s.id keepLast ↔
      (row.serverId = s.id ∧ row.automated = true) ∧ keepLast ≤ newerAutomatic s.db s.id row :=
    mem_automaticOver h
  have hstays : (row.id ∈ automaticOver s.db s.id keepLast → isBusy s.db row.id = true) ↔
      ¬ ((row.serverId = s.id ∧ row.automated = true) ∧
        keepLast ≤ newerAutomatic s.db s.id row ∧ isBusy s.db row.id = false) := by
    rw [hover]
    cases isBusy s.db row.id <;> simp
  have hfold := mem_foldl_pruneOne h (automaticOver s.db s.id keepLast)
  simp only [hstays] at hfold
  exact hfold

/-- Two automatic backups that went well, with one between them that did not. -/
def twoAndAFailure : System :=
  booted 1 {
    operations := ⟨[
      { id := 4, serverId := 1, kind := .backupCreate, state := .done, targetId := some 1 },
      { id := 5, serverId := 1, kind := .backupCreate, state := .failed, targetId := some 2 },
      { id := 6, serverId := 1, kind := .backupCreate, state := .done, targetId := some 3 }],
      by decide⟩
    backups := ⟨[
      { id := 1, serverId := 1, automated := true, sizeBytes := 1, createdAt := 1 },
      { id := 2, serverId := 1, automated := true, createdAt := 2 },
      { id := 3, serverId := 1, automated := true, sizeBytes := 1, createdAt := 3 }], by decide⟩ }
    [1, 3] []

/-- Of the three, two are kept: the last one and the one that failed. -/
theorem prune_keeps_newest_failure :
    let row : BackupRow := { id := 1, serverId := 1, automated := true, sizeBytes := 1, createdAt := 1 }
    row ∈ twoAndAFailure.db.backups.rows ∧ row ∉ (twoAndAFailure.prune 2).db.backups.rows := by
  intro row
  have hrow : row ∈ twoAndAFailure.db.backups.rows := by decide
  refine ⟨hrow, fun hstays => ?_⟩
  exact (prune_keeps_newest twoAndAFailure 2 row hrow).1.mp hstays (by decide)

/-- A failed backup takes the place of one that went well. -/
theorem prune_keeps_failure_for_backup :
    ¬ ∀ (s : System) (keepLast : Nat) (row : BackupRow), row ∈ s.db.backups.rows →
      row.serverId = s.id → row.automated = true → isFinished s.db row.id = true →
        newerFinished s.db s.id row < keepLast → row ∈ (s.prune keepLast).db.backups.rows := by
  intro hall
  have hrow : { id := 1, serverId := 1, automated := true, sizeBytes := 1, createdAt := 1 } ∈
      twoAndAFailure.db.backups.rows := by decide
  have hstays := hall twoAndAFailure 2 _ hrow rfl rfl (by decide) (by decide)
  have hover : _ ∈ automaticOver twoAndAFailure.db 1 2 :=
    (mem_automaticOver hrow).mpr (by decide)
  have hbusy := (mem_foldl_pruneOne hrow (automaticOver twoAndAFailure.db 1 2)).1.mp hstays hover
  exact absurd hbusy (by decide)

end Pruning

end CraftPanel.Backups.Entries
