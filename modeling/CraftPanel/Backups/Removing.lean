import CraftPanel.Backups.Entries

/-!
# The removal of a backup in use

A removal asks whether a backup is busy and takes it away in three more statements; an entry that
makes a run for the backup does not look at it again. No backup is removed that a run is open for
in the runs in which no run is made for a backup after a removal has looked at it.
-/

namespace CraftPanel.Backups.Entries

open Framework Restore

/-- The backup that a removal has looked at, and has not yet taken away wholly. -/
def Removal.holds (removal : Removal) : Option Id :=
  match removal.phase with
  | .finds backup | .removes backup _ | .clears backup _ => some backup
  | .next | .asks _ => none

def Entry.aimsAt (entry : Entry) : Option Id :=
  match entry.phase with
  | .checks [] => entry.purpose.backup
  | .creates backup _ => some backup
  | _ => none

namespace System

variable (s : System)

/-- A run is queued or ongoing that targets the backup, or did when it was made. -/
def InUse (backup : Id) : Prop :=
  ∃ row ∈ s.db.operations.rows, row.state.isOpen = true ∧ (row.targetId = some backup ∨
    SafetyCopies.isBackup row.kind = true ∧ s.uses row.id = some backup)

instance (backup : Id) : Decidable (s.InUse backup) := by
  unfold InUse
  infer_instance

/-- What a removal takes away, row or archive, no run is open for. -/
def Spared : Prop :=
  ∀ removal ∈ s.removals, ∀ backup ∈ removal.holds, ¬ s.InUse backup

instance : DecidablePred Spared := fun s => by
  unfold Spared
  infer_instance

/-- No run is made for a backup that is there and that a removal has looked at. -/
def Heeds : Event → Prop
  | .moves i _ => ∀ entry ∈ s.entries[i]?, ∀ backup ∈ entry.aimsAt,
      (s.db.backups.find? backup).isSome = true →
        ∀ removal ∈ s.removals, removal.holds ≠ some backup
  | _ => True

instance (event : Event) : Decidable (s.Heeds event) :=
  match event with
  | .moves _ _ => inferInstanceAs (Decidable (∀ _ ∈ _, _))
  | .ops _ | .enters _ _ | .deletes _ | .prunes _ | .removes _ | .forgets _ | .packs _ _
  | .stores _ _ _ | .marks _ _ _ | .setsQuota _ => isTrue trivial

end System

/-- A run that was made for a backup targets it. -/
structure Aimed (s : System) : Prop where
  targets : ∀ row ∈ s.db.operations.rows, row.state.isOpen = true →
    SafetyCopies.isBackup row.kind = true → ∀ backup, s.uses row.id = some backup →
      row.targetId = some backup
  spared : s.Spared

section Steps

variable {s t : System}

theorem inUse_busy (h : Aimed s) {backup : Id} (huse : s.InUse backup) :
    isBusy s.db backup = true := by
  obtain ⟨row, hrow, hopen, htarget⟩ := huse
  have haims : row.targetId = some backup := by
    rcases htarget with htarget | ⟨hkind, huses⟩
    · exact htarget
    · exact h.targets row hrow hopen hkind backup huses
  unfold isBusy Table.count
  simp only [decide_eq_true_eq, List.countP_pos_iff]
  exact ⟨row, hrow, by simp [haims, hopen]⟩

/-- Every open run is one that was open with the same target, or targets nothing. -/
def Carried (db db' : Database) : Prop :=
  ∀ row' ∈ db'.operations.rows, row'.state.isOpen = true →
    (∃ row ∈ db.operations.rows, row.id = row'.id ∧ row.state.isOpen = true ∧
        row.kind = row'.kind ∧ row.targetId = row'.targetId) ∨
      SafetyCopies.isBackup row'.kind = false ∧ row'.targetId = none

theorem Carried.of_eq {db db' : Database} (h : db'.operations = db.operations) :
    Carried db db' := by
  intro row' hrow' hopen
  rw [h] at hrow'
  exact .inl ⟨row', hrow', rfl, hopen, rfl, rfl⟩

theorem carried_rewrite {db : Database} {id : Id} {f : OperationRow → OperationRow}
    {hf : ∀ r, (f r).id = r.id} (hcarries : ∀ r, Ops.Carries r (f r)) :
    Carried db (Ops.after db (Ops.rewrite id f hf)) := by
  intro row' hrow' hopen
  obtain ⟨row, hrow, hcarried⟩ :=
    Ops.carried_of_rewrite hcarries (Table.find?_of_mem hrow')
  exact .inl ⟨row, Table.find?_mem hrow, Table.find?_key hrow, hcarried.isOpen hopen,
    hcarried.kind.symm, hcarried.target.symm⟩

theorem carried_ops {o : Ops.System} {e : Ops.Event} (hadmits : s.admits e = true)
    (h : s.ops.step e = some o) : Carried s.db o.db := by
  have hrecovery : ∀ now, e ≠ .recoveryMoves now := by
    rintro now rfl
    cases hadmits
  intro row' hrow' hopen
  rcases (Ops.commits_step h).carried hrecovery (Table.find?_of_mem hrow') with
    ⟨row, hrow, hcarried⟩ | ⟨new, now, hinserts, -, hrow⟩
  · exact .inl ⟨row, Table.find?_mem hrow, Table.find?_key hrow, hcarried.isOpen hopen,
      hcarried.kind.symm, hcarried.target.symm⟩
  right
  have hkind : row'.kind = new.kind := congrArg OperationRow.kind hrow
  have htarget : row'.targetId = new.targetId := congrArg OperationRow.targetId hrow
  have hall : (s.ops.inserts e).all (fun new =>
      !SafetyCopies.isBackup new.kind && new.targetId.isNone) = true := by
    cases e <;> first | exact hadmits | cases hadmits
  rw [hinserts] at hall
  rw [hkind, htarget]
  simpa using hall

theorem inUse_carried {backup : Id} (hcarried : Carried s.db t.db) (huses : t.uses = s.uses)
    (huse : t.InUse backup) : s.InUse backup := by
  obtain ⟨row', hrow', hopen, htarget⟩ := huse
  rcases hcarried row' hrow' hopen with ⟨row, hrow, hid, hbefore, hkind, hsame⟩ | ⟨hkind, hnone⟩
  · refine ⟨row, hrow, hbefore, ?_⟩
    rw [hsame, hkind, hid, ← huses]
    exact htarget
  · simp [hkind, hnone] at htarget

theorem Aimed.carried (h : Aimed s) (hcarried : Carried s.db t.db) (huses : t.uses = s.uses)
    (hremovals : ∀ removal ∈ t.removals, removal ∈ s.removals ∨
      ∀ backup ∈ removal.holds, ¬ s.InUse backup) : Aimed t := by
  constructor
  · intro row' hrow' hopen hkind backup hbackup
    rcases hcarried row' hrow' hopen with ⟨row, hrow, hid, hbefore, hsame, htarget⟩ | ⟨hother, -⟩
    · rw [← htarget]
      apply h.targets row hrow hbefore
      · rw [hsame]
        exact hkind
      · rw [hid, ← huses]
        exact hbackup
    · rw [hkind] at hother
      cases hother
  · intro removal hremoval backup hholds huse
    have hbefore := inUse_carried hcarried huses huse
    rcases hremovals removal hremoval with hmem | hfree
    · exact h.spared removal hmem backup hholds hbefore
    · exact hfree backup hholds hbefore

theorem mem_deleteBackup_operations {db : Database} {backup : Id} {row' : OperationRow}
    (h : row' ∈ (Ops.deleteBackup db backup).operations.rows) :
    ∃ row ∈ db.operations.rows, row' = Ops.dropTarget backup row := by
  obtain ⟨row, hrow, rfl⟩ := List.mem_map.mp h
  exact ⟨row, hrow, rfl⟩

theorem dropTarget_eq (backup : Id) (row : OperationRow) :
    Ops.dropTarget backup row =
      { row with targetId := if row.targetId = some backup then none else row.targetId } := by
  unfold Ops.dropTarget
  split <;> rfl

theorem Aimed.lets (h : Aimed s) (backup : Id) : Aimed (s.lets backup) := by
  have huses (j : Id) (b : Id) : (s.lets backup).uses j = some b →
      s.uses j = some b ∧ b ≠ backup := by
    intro hb
    simp only [System.lets] at hb
    split at hb
    · cases hb
    · next hne => exact ⟨hb, fun heq => hne (heq ▸ hb)⟩
  constructor
  · intro row' hrow' hopen hkind b hb
    obtain ⟨row, hrow, rfl⟩ := mem_deleteBackup_operations hrow'
    rw [dropTarget_eq] at hopen hkind hb ⊢
    obtain ⟨hb, hne⟩ := huses _ b hb
    have htarget := h.targets row hrow hopen hkind b hb
    simp [htarget, hne]
  · intro removal hremoval b hholds huse
    apply h.spared removal hremoval b hholds
    obtain ⟨row', hrow', hopen, htarget⟩ := huse
    obtain ⟨row, hrow, rfl⟩ := mem_deleteBackup_operations hrow'
    rw [dropTarget_eq] at hopen htarget
    refine ⟨row, hrow, hopen, ?_⟩
    rcases htarget with htarget | ⟨hkind, hb⟩
    · left
      simp only at htarget
      split at htarget
      · cases htarget
      · exact htarget
    · exact .inr ⟨hkind, (huses _ b hb).1⟩

theorem Aimed.createRun (h : Aimed s) {entry : Entry} {kind : OperationKind} {backup id : Id}
    {parent : Option Id} {now : Timestamp} {db : Database} {row : OperationRow}
    (hcreate : createRun s.db (s.newRun entry kind backup parent) id now = .ok (db, row))
    (hheeds : (s.db.backups.find? backup).isSome = true →
      ∀ removal ∈ s.removals, removal.holds ≠ some backup)
    (hold : t.db = db ∧ t.uses = (s.aims db row.id backup).uses ∧ t.removals = s.removals) :
    Aimed t := by
  obtain ⟨hfound, hinsert⟩ := createRun_ok hcreate
  obtain ⟨hinserted, -, hmade⟩ := Ops.insert_ok hinsert
  have hid : row.id = id := by rw [hmade]; rfl
  have hfree := hheeds (hfound backup rfl)
  have hnew : id ∉ s.db.operations.rows.map OperationRow.id := Table.fresh_of_insert hinserted
  obtain ⟨rfl, huses, hremovals⟩ := hold
  have hrows : ∀ other ∈ t.db.operations.rows, other = row ∧ other.targetId = some backup ∨
      other ∈ s.db.operations.rows ∧ other.id ≠ id := by
    intro other hother
    rw [Table.rows_of_insert hinserted] at hother
    rcases List.mem_append.mp hother with hother | hother
    · right
      exact ⟨hother, fun heq => hnew (heq ▸ List.mem_map_of_mem hother)⟩
    · left
      obtain rfl := List.mem_singleton.mp hother
      exact ⟨hmade.symm, rfl⟩
  constructor
  · intro other hother hopen hkind b hb
    rw [huses] at hb
    rcases hrows other hother with ⟨rfl, htarget⟩ | ⟨hmem, hne⟩
    · simp only [System.aims, Function.update_self, Option.some.injEq] at hb
      rw [htarget, hb]
    · simp only [System.aims, hid, Function.update_of_ne hne] at hb
      exact h.targets other hmem hopen hkind b hb
  · intro removal hremoval b hholds huse
    rw [hremovals] at hremoval
    obtain ⟨other, hother, hopen, htarget⟩ := huse
    rw [huses] at htarget
    rcases hrows other hother with ⟨rfl, haims⟩ | ⟨hmem, hne⟩
    · have hsame : b = backup := by
        rcases htarget with htarget | ⟨-, hb⟩
        · rw [haims] at htarget
          exact (Option.some.inj htarget).symm
        · simp only [System.aims, Function.update_self, Option.some.injEq] at hb
          exact hb.symm
      exact hfree removal hremoval (hsame ▸ hholds)
    · apply h.spared removal hremoval b hholds
      refine ⟨other, hmem, hopen, ?_⟩
      simpa only [System.aims, hid, Function.update_of_ne hne] using htarget

theorem Aimed.still (h : Aimed s) (hcarried : Carried s.db t.db) (huses : t.uses = s.uses)
    (hremovals : t.removals = s.removals) : Aimed t := by
  apply h.carried hcarried huses
  rw [hremovals]
  exact fun removal hremoval => .inl hremoval

theorem Aimed.addsRow (h : Aimed s) (entry : Entry) (restore : Option Id) (found : Found) :
    Aimed (s.addsRow entry restore found).1 := by
  unfold System.addsRow
  simp only
  split
  · exact h.still (.of_eq rfl) rfl rfl
  · exact h

theorem Aimed.next (h : Aimed s) {entry : Entry} {found : Found}
    (hheeds : ∀ backup ∈ entry.aimsAt, (s.db.backups.find? backup).isSome = true →
      ∀ removal ∈ s.removals, removal.holds ≠ some backup) :
    Aimed (s.next entry found).1 := by
  unfold System.next
  split
  · exact h
  · next hphase =>
    have hpurpose : entry.aimsAt = entry.purpose.backup := by simp [Entry.aimsAt, hphase]
    rw [hpurpose] at hheeds
    split
    · exact h.addsRow entry none found
    · exact h.addsRow entry none found
    · next backup heq =>
      split
      · next hcreate =>
        exact h.createRun hcreate (hheeds backup (by rw [heq]; rfl)) ⟨rfl, rfl, rfl⟩
      · exact h
    · next backup heq =>
      split
      · next hcreate =>
        exact h.createRun hcreate (hheeds backup (by rw [heq]; rfl)) ⟨rfl, rfl, rfl⟩
      · exact h
    · next backup heq =>
      split
      · next hcreate =>
        exact h.createRun hcreate (hheeds backup (by rw [heq]; rfl)) ⟨rfl, rfl, rfl⟩
      · exact h
  · next restore hphase => exact h.addsRow entry (some restore) found
  · next backup restore hphase =>
    have haims : entry.aimsAt = some backup := by simp [Entry.aimsAt, hphase]
    split
    · next hcreate => exact h.createRun hcreate (hheeds backup haims) ⟨rfl, rfl, rfl⟩
    · exact h
  · next backup restore hphase => exact h.lets backup
  · next restore hphase =>
    have hcarried : Carried s.db (Ops.after s.db (Ops.cancelled restore found.now)) :=
      carried_rewrite (Ops.carries_settledRow rfl _ _)
    exact h.still (t := s.setDb _) hcarried rfl rfl
  · next operation hphase =>
    have hcarried : Carried s.db (Ops.after s.db (Ops.dismiss operation found.now)) :=
      carried_rewrite fun r => ⟨rfl, rfl, rfl, rfl, id, id⟩
    exact h.still (t := s.setDb _) hcarried rfl rfl

theorem Aimed.moves (h : Aimed s) {i : Nat} {found : Found} (hheeds : s.Heeds (.moves i found))
    (hmoves : s.moves i found = some t) : Aimed t := by
  unfold System.moves at hmoves
  obtain ⟨entry, hi, rfl⟩ := Option.map_eq_some_iff.mp hmoves
  have hnext : Aimed (s.next entry found).1 := h.next (hheeds entry hi)
  split
  · next heq =>
    rw [heq] at hnext
    exact hnext.still (.of_eq rfl) rfl rfl
  · next heq =>
    rw [heq] at hnext
    exact hnext.still (.of_eq rfl) rfl rfl

/-- What a statement of a removal leaves: the runs as they were, and a removal that holds nothing
that is in use. -/
structure Leaves (s t : System) (left : Option Removal) : Prop where
  carried : Carried s.db t.db
  uses : t.uses = s.uses
  free : ∀ rest, left = some rest → ∀ backup ∈ rest.holds, ¬ s.InUse backup

theorem removesNext_leaves (h : Aimed s) {removal : Removal} (hmem : removal ∈ s.removals) :
    Leaves s (s.removesNext removal).1 (s.removesNext removal).2 := by
  have hholds := h.spared removal hmem
  unfold Removal.holds at hholds
  unfold System.removesNext
  split
  · split
    · exact ⟨.of_eq rfl, rfl, fun _ hrest => by cases hrest⟩
    · refine ⟨.of_eq rfl, rfl, ?_⟩
      rintro rest ⟨⟩
      split <;> exact fun b hb => by cases hb
  · refine ⟨.of_eq rfl, rfl, ?_⟩
    rintro rest ⟨⟩
    split
    · exact fun b hb => by cases hb
    · next hbusy =>
      rintro b ⟨⟩ huse
      exact hbusy (inUse_busy h huse)
  · next backup hphase =>
    refine ⟨.of_eq rfl, rfl, ?_⟩
    rintro rest ⟨⟩
    simp only [hphase] at hholds
    exact hholds
  · next backup known hphase =>
    have hfree : ¬ s.InUse backup := by
      simp only [hphase] at hholds
      exact hholds backup rfl
    refine ⟨?_, rfl, ?_⟩
    · intro row' hrow' hopen
      obtain ⟨row, hrow, rfl⟩ := mem_deleteBackup_operations hrow'
      rw [dropTarget_eq] at hopen ⊢
      have htarget : row.targetId ≠ some backup :=
        fun heq => hfree ⟨row, hrow, hopen, .inl heq⟩
      exact .inl ⟨row, hrow, rfl, hopen, rfl, (if_neg htarget).symm⟩
    · rintro rest ⟨⟩ b ⟨⟩
      exact hfree
  · refine ⟨.of_eq rfl, rfl, ?_⟩
    rintro rest ⟨⟩
    exact fun b hb => by cases hb

theorem Aimed.removes (h : Aimed s) {i : Nat} (hremoves : s.removes i = some t) : Aimed t := by
  unfold System.removes at hremoves
  obtain ⟨removal, hi, rfl⟩ := Option.map_eq_some_iff.mp hremoves
  have hleaves := removesNext_leaves h (List.mem_of_getElem? hi)
  split
  · next u rest heq =>
    rw [heq] at hleaves
    apply h.carried (t := { u with removals := s.removals.set i rest }) hleaves.carried hleaves.uses
    intro other hother
    rcases List.mem_or_eq_of_mem_set hother with hother | rfl
    · exact .inl hother
    · exact .inr (hleaves.free _ rfl)
  · next u heq =>
    rw [heq] at hleaves
    apply h.carried (t := { u with removals := s.removals.eraseIdx i }) hleaves.carried hleaves.uses
    exact fun other hother => .inl (List.mem_of_mem_eraseIdx hother)

theorem Aimed.step (h : Aimed s) {event : Event} (hheeds : s.Heeds event)
    (hstep : s.step event = some t) : Aimed t := by
  cases event with
  | moves i found => exact h.moves hheeds hstep
  | removes i => exact h.removes hstep
  | ops e =>
    simp only [System.step] at hstep
    split at hstep
    · next hadmits =>
      obtain ⟨ops, hops, rfl⟩ := Option.map_eq_some_iff.mp hstep
      exact h.still (carried_ops hadmits hops) rfl rfl
    · cases hstep
  | forgets backup =>
    rw [← Option.some.inj hstep]
    exact h.lets backup
  | deletes backups | prunes keep =>
    rw [← Option.some.inj hstep]
    refine h.carried (.of_eq rfl) rfl ?_
    intro removal hremoval
    rcases List.mem_append.mp hremoval with hremoval | hremoval
    · exact .inl hremoval
    · obtain rfl := List.mem_singleton.mp hremoval
      exact .inr fun b hb => by cases hb
  | _ =>
    rw [← Option.some.inj hstep]
    exact h.still (.of_eq rfl) rfl rfl

end Steps

theorem aimed_booted (id : Id) (db : Database) (archives : List Id) (stored : List String) :
    Aimed (booted id db archives stored) := by
  constructor
  · intro row hrow hopen hkind backup huses
    cases huses
  · intro removal hremoval
    cases hremoval

/-- No removal takes away a backup that a run is open for, in every run in which no run is made for
a backup that a removal has looked at. -/
theorem backups_in_use_are_spared {id : Id} {db : Database} {archives : List Id}
    {stored : List String} {events : List Event} {s : System}
    (hmeets : machine.Meets System.Heeds (booted id db archives stored) events)
    (hrun : machine.exec (booted id db archives stored) events = some s) : s.Spared := by
  have haimed : Aimed s :=
    machine.invariant (fun h hheeds hstep => h.step hheeds hstep)
      (aimed_booted id db archives stored) hmeets hrun
  exact haimed.spared

def oldBackup : Database where
  backups := ⟨[{ id := 11, serverId := 1, sizeBytes := 100 }], by decide⟩

def restoreAsked : List Event :=
  .enters (.restore 11) (some 7) :: .replicate 8 (.moves 0 {})

/-- It is deleted while a restore waits to make its run, up to the statement that removes the row. -/
def deleteAsked : List Event := [.deletes [11], .removes 0, .removes 0, .removes 0]

theorem backups_in_use_are_spared_deleted :
    ∃ s, machine.exec (booted 1 oldBackup [11] []) (deleteAsked ++ [.removes 0, .removes 0]) =
        some s ∧ s.db.backups.rows = [] ∧ s.archives = [] ∧ s.Spared := by
  have hmeets : machine.Meets System.Heeds (booted 1 oldBackup [11] [])
      (deleteAsked ++ [.removes 0, .removes 0]) := by
    decide +kernel
  have hend : machine.Ends (booted 1 oldBackup [11] []) (deleteAsked ++ [.removes 0, .removes 0])
      fun s => s.db.backups.rows = [] ∧ s.archives = [] := by
    decide +kernel
  obtain ⟨s, hrun, hrows, harchives⟩ := hend
  exact ⟨s, hrun, hrows, harchives, backups_in_use_are_spared hmeets hrun⟩

theorem restored_backup_is_removed :
    ¬ ∀ (id : Id) (db : Database) (archives : List Id) (stored : List String)
      (events : List Event) (s : System),
      machine.exec (booted id db archives stored) events = some s → s.Spared := by
  intro hall
  have hend : machine.Ends (booted 1 oldBackup [11] [])
      (restoreAsked ++ deleteAsked ++ [.moves 0 { fresh := 21 }]) fun s => ¬ s.Spared := by
    decide +kernel
  obtain ⟨s, hrun, hnot⟩ := hend
  exact hnot (hall _ _ _ _ _ s hrun)

/-- The restore is queued, and its backup is gone. -/
example : machine.Ends (booted 1 oldBackup [11] [])
    (restoreAsked ++ deleteAsked ++ [.moves 0 { fresh := 21 }, .removes 0, .removes 0]) fun s =>
      s.db.backups.rows = [] ∧ s.archives = [] ∧
        s.db.operations.rows.map (fun row => (row.kind, row.state, row.targetId)) =
          [(.backupRestore, .queued, none)] := by
  decide +kernel

end CraftPanel.Backups.Entries
