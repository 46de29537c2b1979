import CraftPanel.Framework.Moving
import CraftPanel.Backups.Entries

/-!
# The quota of the backups

An entry counts the backups when it comes, and puts its own row in when it has looked at the rest:
between the two it waits, and nobody counts those that wait. The rows stay within the quota in the
runs in which a count that passes leaves room for them, and in which no quota is set that the rows
and those that wait exceed.
-/

namespace CraftPanel.Backups.Entries

open Framework Restore

def Check.counts : Check → Bool
  | .copy | .quota | .count _ | .atLimit | .limit _ => true
  | _ => false

def Entry.waits (entry : Entry) : Bool :=
  entry.counted && match entry.phase with
    | .checks _ | .adds _ => true
    | _ => false

/-- Nobody comes to add a row who has not been counted. -/
def Entry.Sound (entry : Entry) : Prop :=
  match entry.phase with
  | .checks todo => (match entry.purpose with
      | .request | .scheduled => True
      | .retryCreate _ => False
      | .restore _ | .retryRestore _ => entry.adds = true) →
    entry.counted = true ∨ todo.any Check.counts = true
  | .adds _ => entry.counted = true
  | _ => True

namespace System

variable (s : System)

def waiting : Nat := s.entries.countP Entry.waits

def passes (entry : Entry) : Bool :=
  match entry.phase with
  | .checks (.count quota :: _) => count s.db s.id + 1 ≤ quota
  | .checks (.limit count :: _) => count < quota s.db
  | _ => false

/-- A count that passes leaves room for those that wait, and so does a quota that is set. -/
def MakesRoom : Event → Prop
  | .moves i _ => match s.entries[i]? with
    | some entry => s.passes entry = true → count s.db s.id + s.waiting < quota s.db
    | none => True
  | .setsQuota quota => 0 < s.waiting → count s.db s.id + s.waiting ≤ min quota maxQuota
  | _ => True

instance (event : Event) : Decidable (s.MakesRoom event) := by
  unfold MakesRoom
  split
  · split <;> infer_instance
  · infer_instance
  · infer_instance

end System

/-- Those that wait have room. -/
structure Room (s : System) : Prop where
  sound : ∀ entry ∈ s.entries, entry.Sound
  room : 0 < s.waiting → count s.db s.id + s.waiting ≤ quota s.db

section Rows

variable {s t : System} {db db' : Database}

theorem count_deleteBackup (backup server : Id) :
    count (Ops.deleteBackup db backup) server ≤ count db server := by
  apply List.Sublist.countP_le
  exact List.filter_sublist

theorem count_insert {row : BackupRow} {backups : Table BackupRow.id}
    (h : db.backups.insert row = some backups) :
    count { db with backups } row.serverId = count db row.serverId + 1 := by
  unfold count Table.count
  rw [Table.rows_of_insert h, List.countP_append]
  simp

theorem count_updateBackup {backup server : Id} {f : BackupRow → BackupRow}
    {hf : ∀ r, (f r).id = r.id} (hserver : ∀ r, (f r).serverId = r.serverId) :
    count (db.updateBackup backup f hf) server = count db server := by
  unfold count Table.count Database.updateBackup Table.modify Table.map
  simp only [List.countP_map]
  apply List.countP_congr
  intro row _
  simp only [Function.comp_apply, decide_eq_true_eq]
  split
  · rw [hserver]
  · rfl

theorem commits_backups {o : Ops.System} {e : Ops.Event} (h : Ops.Commits o e db')
    (hrecovery : ∀ now, e ≠ .recoveryMoves now) :
    db'.backups = o.db.backups ∧ db'.settings = o.db.settings := by
  cases h with
  | nothing => exact ⟨rfl, rfl⟩
  | advances _ _ _ | asksCancel _ | dismisses _ _ | pays _ | settles _ _ _ _ =>
    exact ⟨SafetyCopies.rewrite_backups _ _, Ops.settings_after_rewrite _ _⟩
  | inserts new id now hinserts hdraws =>
    exact ⟨SafetyCopies.after_insert_backups new now, Ops.settings_after_insert⟩
  | begins id now hevent =>
    refine ⟨SafetyCopies.after_begin_backups now, ?_⟩
    unfold Ops.after
    cases htx : Ops.begin id now o.db with
    | error fault => rfl
    | ok answer =>
      obtain ⟨made, started⟩ := answer
      rcases Ops.begin_ok htx with ⟨-, hdb⟩ | ⟨old, -, -, -, hsettings, -⟩
      · exact congrArg Database.settings hdb
      · exact hsettings
  | cleansUp kind server target now hevent => exact absurd hevent (hrecovery now)

theorem ops_backups_eq {o : Ops.System} {e : Ops.Event} (hadmits : s.admits e = true)
    (h : s.ops.step e = some o) :
    o.db.backups = s.db.backups ∧ o.db.settings = s.db.settings := by
  apply commits_backups (Ops.commits_step h)
  rintro now rfl
  cases hadmits

end Rows

section Steps

variable {s t : System} {entry : Entry} {found : Found} {left : Option Entry}

/-- What a statement of an entry does to the count: it adds the row of one that waited, or it adds
none, and nobody waits who did not wait and was not counted. -/
structure Counted (s : System) (entry : Entry) (t : System) (left : Option Entry) : Prop where
  id : t.id = s.id
  entries : t.entries = s.entries
  quota : quota t.db = quota s.db
  sound : ∀ rest, left = some rest → rest.Sound
  rows : count t.db s.id ≤ count s.db s.id ∧
      (left.any Entry.waits = true → entry.waits = true ∨ s.passes entry = true) ∨
    count t.db s.id = count s.db s.id + 1 ∧ entry.waits = true ∧ left.any Entry.waits = false

theorem Counted.refuses (s : System) (entry : Entry) : Counted s entry s none := by
  refine ⟨rfl, rfl, rfl, ?_, .inl ⟨le_refl _, ?_⟩⟩
  · intro rest hrest
    cases hrest
  · intro hwaits
    cases hwaits

theorem counted_goes {check : Check} {todo : List Check} (hsound : entry.Sound)
    (hphase : entry.phase = .checks (check :: todo)) (hcounts : check.counts = false) :
    Counted s entry s (some { entry with phase := .checks todo }) := by
  refine ⟨rfl, rfl, rfl, ?_, .inl ⟨le_refl _, fun hwaits => .inl ?_⟩⟩
  · rintro rest ⟨⟩
    unfold Entry.Sound at hsound ⊢
    simpa [hphase, hcounts] using hsound
  · simpa [Entry.waits, hphase] using hwaits

theorem counted_looks {check next : Check} {todo more : List Check}
    (hphase : entry.phase = .checks (check :: todo)) (hcounts : next.counts = true) :
    Counted s entry s (some { entry with phase := .checks (next :: more) }) := by
  refine ⟨rfl, rfl, rfl, ?_, .inl ⟨le_refl _, fun hwaits => .inl ?_⟩⟩
  · rintro rest ⟨⟩
    unfold Entry.Sound
    simp [hcounts]
  · simpa [Entry.waits, hphase] using hwaits

theorem counted_passes {todo : List Check} (hpasses : s.passes entry = true) :
    Counted s entry s (some { entry with counted := true, phase := .checks todo }) := by
  refine ⟨rfl, rfl, rfl, ?_, .inl ⟨le_refl _, fun _ => .inr hpasses⟩⟩
  rintro rest ⟨⟩
  unfold Entry.Sound
  simp

theorem counted_check {check : Check} {todo : List Check} (hsound : entry.Sound)
    (hphase : entry.phase = .checks (check :: todo)) :
    Counted s entry s (s.check found.ok entry todo check) := by
  cases check with
  | copy =>
    simp only [System.check]
    split
    · next copy hcopy =>
      cases s.db.backups.find? copy with
      | none => exact .refuses s entry
      | some row =>
        by_cases hdone : isDone s.db row = true
        · simp only [Option.map_some, hdone, if_true]
          refine ⟨rfl, rfl, rfl, ?_, .inl ⟨le_refl _, fun hwaits => .inl ?_⟩⟩
          · rintro rest ⟨⟩
            unfold Entry.Sound
            cases hpurpose : entry.purpose <;>
              simp [hpurpose, Purpose.backup] at hcopy ⊢
          · simpa [Entry.waits, hphase] using hwaits
        · simp only [Option.map_some, hdone, Bool.false_eq_true, if_false]
          exact counted_looks hphase rfl
    · exact counted_looks hphase rfl
  | quota | atLimit => exact counted_looks hphase rfl
  | count quota | limit taken =>
    simp only [System.check]
    split
    · next hroom =>
      apply counted_passes
      simpa [System.passes, hphase] using hroom
    · exact .refuses s entry
  | guardWrite =>
    simp only [System.check]
    split
    · exact .refuses s entry
    · exact counted_goes hsound hphase rfl
  | _ =>
    simp only [System.check]
    split
    · exact counted_goes hsound hphase rfl
    · exact .refuses s entry

theorem counted_addsRow {restore : Option Id} (hwaits : entry.waits = true) :
    Counted s entry (s.addsRow entry restore found).1 (s.addsRow entry restore found).2 := by
  unfold System.addsRow
  simp only
  split
  · next backups hinsert =>
    refine ⟨rfl, rfl, rfl, ?_, .inr ⟨?_, hwaits, rfl⟩⟩
    · rintro rest ⟨⟩
      exact trivial
    · exact count_insert hinsert
  · refine ⟨rfl, rfl, rfl, ?_, .inl ⟨le_refl _, fun _ => .inl hwaits⟩⟩
    intro rest hrest
    obtain ⟨r, -, rfl⟩ := Option.map_eq_some_iff.mp hrest
    exact trivial

theorem counted_still {db : Database} {uses : Id → Option Id} (hrows : db.backups = s.db.backups)
    (hsettings : db.settings = s.db.settings) (hsound : ∀ rest, left = some rest → rest.Sound)
    (hwaits : left.any Entry.waits = true → entry.waits = true) :
    Counted s entry { s.setDb db with uses } left := by
  refine ⟨rfl, rfl, ?_, hsound, .inl ⟨?_, fun h => .inl (hwaits h)⟩⟩
  · unfold quota
    rw [← hsettings]
    rfl
  · unfold count
    rw [← hrows]
    exact le_refl _

theorem counted_createRun {kind : OperationKind} {backup : Id} {parent : Option Id}
    {db : Database} {row : OperationRow}
    (h : createRun s.db (s.newRun entry kind backup parent) found.fresh found.now =
      .ok (db, row))
    (hsound : ∀ rest, left = some rest → rest.Sound)
    (hwaits : left.any Entry.waits = true → entry.waits = true) :
    Counted s entry (s.aims db row.id backup) left := by
  have hinsert := (createRun_ok h).2
  exact counted_still (SafetyCopies.insert_backups hinsert) (Ops.insert_ok hinsert).2.1 hsound hwaits

theorem counted_next (hsound : entry.Sound) :
    Counted s entry (s.next entry found).1 (s.next entry found).2 := by
  unfold System.next
  split
  · next check todo hphase => exact counted_check hsound hphase
  · next hphase =>
    unfold Entry.Sound at hsound
    simp only [hphase, List.any_nil, Bool.false_eq_true, or_false] at hsound
    split
    · next hpurpose =>
      apply counted_addsRow
      simp [Entry.waits, hphase, hsound (by simp [hpurpose])]
    · next hpurpose =>
      apply counted_addsRow
      simp [Entry.waits, hphase, hsound (by simp [hpurpose])]
    · split
      · next hcreate => exact counted_createRun hcreate (fun _ h => by cases h) fun h => by cases h
      · exact .refuses s entry
    · next backup hpurpose =>
      split
      · next hcreate =>
        apply counted_createRun hcreate
        · intro rest hrest
          split at hrest
          · next hadds =>
            cases hrest
            exact hsound (by simpa [hpurpose] using hadds)
          · cases hrest
        · split <;> simp [Entry.waits, hphase]
      · exact .refuses s entry
    · next backup hpurpose =>
      split
      · next hcreate =>
        apply counted_createRun hcreate
        · intro rest hrest
          split at hrest
          · next hadds =>
            cases hrest
            exact hsound (by simpa [hpurpose] using hadds)
          · cases hrest
        · split <;> simp [Entry.waits, hphase]
      · exact .refuses s entry
  · next restore hphase =>
    unfold Entry.Sound at hsound
    simp only [hphase] at hsound
    apply counted_addsRow
    simp [Entry.waits, hphase, hsound]
  · next backup restore hphase =>
    split
    · next hcreate =>
      apply counted_createRun hcreate
      · intro rest hrest
        obtain ⟨r, -, rfl⟩ := Option.map_eq_some_iff.mp hrest
        exact trivial
      · cases restore <;> simp [Entry.waits]
    · refine ⟨rfl, rfl, rfl, ?_, .inl ⟨le_refl _, ?_⟩⟩
      · rintro rest ⟨⟩
        exact trivial
      · simp [Entry.waits]
  · next backup restore hphase =>
    refine ⟨rfl, rfl, rfl, ?_, .inl ⟨count_deleteBackup backup s.id, ?_⟩⟩
    · intro rest hrest
      obtain ⟨r, -, rfl⟩ := Option.map_eq_some_iff.mp hrest
      exact trivial
    · cases restore <;> simp [Entry.waits]
  · exact counted_still (SafetyCopies.rewrite_backups _ _) (Ops.settings_after_rewrite _ _)
      (fun _ h => by cases h) fun h => by cases h
  · exact counted_still (SafetyCopies.rewrite_backups _ _) (Ops.settings_after_rewrite _ _)
      (fun _ h => by cases h) fun h => by cases h

theorem waiting_moves {i : Nat} (hi : s.entries[i]? = some entry) (hmoves : s.moves i found = some t)
    (hsound : ∀ entry ∈ s.entries, entry.Sound) :
    ∃ u left, Counted s entry u left ∧ t.db = u.db ∧ t.id = s.id ∧
      t.waiting + (if entry.waits then 1 else 0) =
        s.waiting + (if left.any Entry.waits then 1 else 0) ∧
      ∀ entry ∈ t.entries, entry.Sound := by
  have hcounted : Counted s entry (s.next entry found).1 (s.next entry found).2 :=
    counted_next (hsound entry (List.mem_of_getElem? hi))
  unfold System.moves at hmoves
  rw [hi, Option.map_some, Option.some.injEq] at hmoves
  cases hleft : (s.next entry found).2 with
  | none =>
    have ht : { (s.next entry found).1 with entries := s.entries.eraseIdx i } = t := by
      rw [← hmoves]
      split
      · next heq => simp [heq] at hleft
      · next heq => simp [heq]
    refine ⟨_, _, hcounted, by rw [← ht]; rfl, by rw [← ht]; exact hcounted.id, ?_, ?_⟩
    · rw [hleft, ← ht]
      exact countP_eraseIdx_add hi
    · rw [← ht]
      intro other hother
      exact hsound other (List.mem_of_mem_eraseIdx hother)
  | some rest =>
    have ht : { (s.next entry found).1 with entries := s.entries.set i rest } = t := by
      rw [← hmoves]
      split
      · next heq =>
        obtain rfl : _ = rest := by simpa [heq] using hleft
        simp [heq]
      · next heq => simp [heq] at hleft
    refine ⟨_, _, hcounted, by rw [← ht]; rfl, by rw [← ht]; exact hcounted.id, ?_, ?_⟩
    · rw [hleft, ← ht]
      exact countP_set_add hi
    rw [← ht]
    intro other hother
    rcases List.mem_or_eq_of_mem_set hother with hother | rfl
    · exact hsound other hother
    · exact hcounted.sound _ hleft

theorem Room.keeps (h : Room s) (hentries : t.entries = s.entries) (hid : t.id = s.id)
    (hrows : count t.db s.id ≤ count s.db s.id) (hquota : quota t.db = quota s.db) : Room t := by
  refine ⟨hentries ▸ h.sound, ?_⟩
  have hroom := h.room
  unfold System.waiting at hroom ⊢
  rw [hentries, hid, hquota]
  omega

theorem Room.moves (h : Room s) {i : Nat} (hmakes : s.MakesRoom (.moves i found))
    (hmoves : s.moves i found = some t) : Room t := by
  cases hi : s.entries[i]? with
  | none => simp [System.moves, hi] at hmoves
  | some entry =>
    obtain ⟨u, left, hcounted, hdb, hid, hwaiting, hsound⟩ := waiting_moves hi hmoves h.sound
    refine ⟨hsound, ?_⟩
    have hroom := h.room
    have hmakes : s.passes entry = true → count s.db s.id + s.waiting < quota s.db := by
      simpa [System.MakesRoom, hi] using hmakes
    rw [hdb, hid, hcounted.quota]
    rcases hcounted.rows with ⟨hrows, hleft⟩ | ⟨hrows, hwaits, hleft⟩
    · cases hrest : left.any Entry.waits with
      | false =>
        simp only [hrest, Bool.false_eq_true, if_false] at hwaiting
        split at hwaiting <;> omega
      | true =>
        simp only [hrest, if_true] at hwaiting
        rcases hleft hrest with hwaits | hpasses
        · simp only [hwaits, if_true] at hwaiting
          omega
        · have := hmakes hpasses
          split at hwaiting <;> omega
    · simp only [hwaits, hleft, if_true, Bool.false_eq_true, if_false] at hwaiting
      omega

theorem removes_rows {i : Nat} (h : s.removes i = some t) :
    t.entries = s.entries ∧ t.id = s.id ∧ count t.db s.id ≤ count s.db s.id ∧
      quota t.db = quota s.db := by
  unfold System.removes at h
  obtain ⟨removal, hi, rfl⟩ := Option.map_eq_some_iff.mp h
  unfold System.removesNext
  cases removal.phase with
  | next =>
    cases removal.todo with
    | nil => exact ⟨rfl, rfl, le_refl _, rfl⟩
    | cons backup todo => exact ⟨rfl, rfl, le_refl _, rfl⟩
  | asks backup | finds backup | clears backup known => exact ⟨rfl, rfl, le_refl _, rfl⟩
  | removes backup known => exact ⟨rfl, rfl, count_deleteBackup backup s.id, rfl⟩

theorem step_rows {event : Event} (hmoves : ∀ i found, event ≠ .moves i found)
    (hstep : s.step event = some t) : t.id = s.id ∧ count t.db s.id ≤ count s.db s.id := by
  cases event with
  | moves i found => exact absurd rfl (hmoves i found)
  | ops e =>
    simp only [System.step] at hstep
    split at hstep
    · next hadmits =>
      obtain ⟨ops, hops, rfl⟩ := Option.map_eq_some_iff.mp hstep
      have hbackups := (ops_backups_eq hadmits hops).1
      refine ⟨rfl, ?_⟩
      show ops.db.backups.count _ ≤ _
      rw [hbackups]
      exact le_refl _
    · cases hstep
  | removes i => exact ⟨(removes_rows hstep).2.1, (removes_rows hstep).2.2.1⟩
  | forgets backup =>
    rw [← Option.some.inj hstep]
    exact ⟨rfl, count_deleteBackup backup s.id⟩
  | packs backup size | stores backup stored size =>
    rw [← Option.some.inj hstep]
    refine ⟨rfl, le_of_eq ?_⟩
    apply count_updateBackup
    exact fun _ => rfl
  | marks backup state changedAt =>
    rw [← Option.some.inj hstep]
    refine ⟨rfl, le_of_eq ?_⟩
    have hstate : count (Drive.setFileState s.db backup state) s.id = count s.db s.id := by
      apply count_updateBackup
      exact fun _ => rfl
    rw [← hstate]
    apply count_updateBackup
    exact fun _ => rfl
  | _ =>
    rw [← Option.some.inj hstep]
    exact ⟨rfl, le_refl _⟩

theorem Room.step (h : Room s) {event : Event} (hmakes : s.MakesRoom event)
    (hstep : s.step event = some t) : Room t := by
  cases event with
  | moves i found => exact h.moves hmakes hstep
  | ops e =>
    have hrows := step_rows (by simp) hstep
    simp only [System.step] at hstep
    split at hstep
    · next hadmits =>
      obtain ⟨ops, hops, rfl⟩ := Option.map_eq_some_iff.mp hstep
      have hquota : quota ops.db = quota s.db := by
        unfold quota
        rw [(ops_backups_eq hadmits hops).2]
      exact Room.keeps (t := { s with ops }) h rfl rfl hrows.2 hquota
    · cases hstep
  | enters purpose startedBy =>
    have hrows := step_rows (by simp) hstep
    rw [← Option.some.inj hstep] at hrows ⊢
    constructor
    · intro entry hentry
      rcases List.mem_append.mp hentry with hentry | hentry
      · exact h.sound entry hentry
      · obtain rfl := List.mem_singleton.mp hentry
        unfold Entry.Sound
        cases purpose <;> simp [Purpose.checks, Purpose.adds, Check.counts]
    · have hwaiting : (s.enters purpose startedBy).waiting = s.waiting := by
        simp [System.waiting, System.enters, Entry.waits]
      rw [hwaiting]
      exact h.room
  | removes i =>
    obtain ⟨hentries, hid, hrows, hquota⟩ := removes_rows hstep
    exact h.keeps hentries hid hrows hquota
  | setsQuota limit =>
    rw [← Option.some.inj hstep]
    exact ⟨h.sound, hmakes⟩
  | _ =>
    have hrows := step_rows (by simp) hstep
    rw [← Option.some.inj hstep] at hrows ⊢
    exact Room.keeps h rfl rfl hrows.2 rfl

theorem Room.adds (h : Room s) {event : Event} (hstep : s.step event = some t)
    (hadds : count s.db s.id < count t.db t.id) : count t.db t.id ≤ quota t.db := by
  by_cases hmoves : ∃ i found, event = .moves i found
  · obtain ⟨i, found, rfl⟩ := hmoves
    have hentry : s.moves i found = some t := hstep
    cases hi : s.entries[i]? with
    | none => simp [System.moves, hi] at hentry
    | some entry =>
      obtain ⟨u, left, hcounted, hdb, hid, hwaiting, -⟩ := waiting_moves hi hentry h.sound
      rw [hdb, hid] at hadds ⊢
      rw [hcounted.quota]
      rcases hcounted.rows with ⟨hrows, -⟩ | ⟨hrows, hwaits, hleft⟩
      · omega
      · have hroom := h.room
        simp only [hwaits, hleft, if_true, Bool.false_eq_true, if_false] at hwaiting
        omega
  · have hrows := step_rows (fun i found heq => hmoves ⟨i, found, heq⟩) hstep
    rw [hrows.1] at hadds
    omega

end Steps

theorem room_booted (id : Id) (db : Database) (archives : List Id) (stored : List String) :
    Room (booted id db archives stored) := by
  constructor
  · intro entry hentry
    cases hentry
  · intro hwaiting
    cases hwaiting

/-- No step that adds a backup leaves the server with more than the quota, in every run in which
what is counted leaves room for those that wait. -/
theorem backups_stay_within_quota {id : Id} {db : Database} {archives : List Id}
    {stored : List String} {events : List Event} {s t : System} {event : Event}
    (hmeets : machine.Meets System.MakesRoom (booted id db archives stored) events)
    (hrun : machine.exec (booted id db archives stored) events = some s)
    (hstep : machine.step s event = some t) (hadds : count s.db s.id < count t.db t.id) :
    count t.db t.id ≤ quota t.db := by
  have hroom : Room s :=
    machine.invariant (fun h hmakes hstep => h.step hmakes hstep)
      (room_booted id db archives stored) hmeets hrun
  exact hroom.adds hstep hadds

def oneBackup : Database := { settings := { maxBackupsPerServer := 1 } }

def requested (i : Nat) : List Event :=
  .enters .request (some 7) :: .replicate 5 (.moves i {})

theorem backups_stay_within_quota_first :
    ∃ s t, machine.exec (booted 1 oneBackup [] []) (requested 0) = some s ∧
      machine.step s (.moves 0 { fresh := 11 }) = some t ∧
      count t.db t.id = 1 ∧ count t.db t.id ≤ quota t.db := by
  have hmeets : machine.Meets System.MakesRoom (booted 1 oneBackup [] []) (requested 0) := by
    decide +kernel
  have hend : machine.Ends (booted 1 oneBackup [] []) (requested 0) fun s =>
      ∃ t ∈ machine.step s (.moves 0 { fresh := 11 }),
        count s.db s.id = 0 ∧ count t.db t.id = 1 := by
    decide +kernel
  obtain ⟨s, hrun, t, hstep, hnone, hone⟩ := hend
  have hadds : count s.db s.id < count t.db t.id := by omega
  exact ⟨s, t, hrun, hstep, hone, backups_stay_within_quota hmeets hrun hstep hadds⟩

/-- Two requests are counted before either of them has added its row; the first makes its backup
while the second surveys the tree. -/
def surveyedMeanwhile : List Event :=
  requested 0 ++ requested 1 ++ [Event.moves 0 { fresh := 11 }, .moves 0 { fresh := 21 },
    .ops (.begin 21 5), .packs 11 100, .ops (.finish 21 6)]

theorem requests_overrun_the_quota :
    ¬ ∀ (id : Id) (db : Database) (archives : List Id) (stored : List String)
      (events : List Event) (s t : System) (event : Event),
      machine.exec (booted id db archives stored) events = some s →
      machine.step s event = some t → count s.db s.id < count t.db t.id →
      count t.db t.id ≤ quota t.db := by
  intro hall
  have hend : machine.Ends (booted 1 oneBackup [] []) surveyedMeanwhile fun s =>
      ∃ t ∈ machine.step s (.moves 0 { fresh := 12 }),
        count s.db s.id = 1 ∧ count t.db t.id = 2 ∧ quota t.db = 1 := by
    decide +kernel
  obtain ⟨s, hrun, t, hstep, hone, htwo, hquota⟩ := hend
  have hwithin := hall _ _ _ _ _ s t _ hrun hstep (by omega)
  omega

end CraftPanel.Backups.Entries
