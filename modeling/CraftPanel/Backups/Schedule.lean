import CraftPanel.Backups.Status

/-!
# The schedule of the backups

`write_schedule`, `tick` and `run_scheduled` for one server, over the entry points of the backups. A
scheduled run reads the schedule once, and writes the time of the next run twice: before it looks at
anything else, and when the backup is made. A schedule that is saved in between is kept only by the
runs that write and prune nothing any more after it.
-/

namespace CraftPanel.Backups.Schedule

open Framework Restore Status

inductive BackupScheduleStatus
  | completed | failed | timedOut | skippedUnchanged | skippedLimit
  deriving DecidableEq

structure UpdateBackupScheduleRequest where
  enabled : Bool := false
  intervalHours : Nat := 24
  hourUtc : Nat := 4
  keepLast : Nat := 5

/-- A row of `backup_schedules`; as it stands here it is what is read where there is none. -/
structure BackupSchedule extends UpdateBackupScheduleRequest where
  nextRunAt : Option Timestamp := none
  lastRunAt : Option Timestamp := none
  lastStatus : Option BackupScheduleStatus := none
  lastError : Option String := none

def minInterval : Nat := 1

def maxInterval : Nat := 168

def UpdateBackupScheduleRequest.check (wanted : UpdateBackupScheduleRequest) (maxBackups : Nat) :
    Except Ops.Fault Unit :=
  let refuse (message : String) : Except Ops.Fault Unit := .error ⟨400, "invalid_schedule", message⟩
  if wanted.intervalHours < minInterval || maxInterval < wanted.intervalHours then
    refuse ("interval_hours is " ++ toString wanted.intervalHours ++ " and has to be between " ++
      toString minInterval ++ " and " ++ toString maxInterval)
  else if 23 < wanted.hourUtc then
    refuse ("hour_utc is " ++ toString wanted.hourUtc ++ " and has to be between 0 and 23")
  else if wanted.keepLast < 1 || maxQuota < wanted.keepLast then
    refuse ("keep_last is " ++ toString wanted.keepLast ++ " and has to be between 1 and " ++
      toString maxQuota)
  else if maxBackups < wanted.keepLast then
    refuse ("keep_last is " ++ toString wanted.keepLast ++ " and cannot be more than the quota of " ++
      toString maxBackups)
  else .ok ()

def hour : Nat := 3600 * 1000

def day : Nat := 24 * hour

/-- The loop of `next_after`: the candidate moves on by whole days until it is past the moment. -/
def skipDays (moment : Timestamp) (days : Nat) (candidate : Timestamp) : Timestamp :=
  if _h : candidate ≤ moment then skipDays moment days (candidate + max days 1 * day) else candidate
termination_by moment + 1 - candidate
decreasing_by
  have hstep : 0 < max days 1 * day := Nat.mul_pos (by omega) (by decide)
  exact Nat.sub_lt_sub_left (Nat.lt_succ_of_le _h) (Nat.lt_add_of_pos_right hstep)

def nextAfter (moment : Timestamp) (intervalHours hourUtc : Nat) : Timestamp :=
  if intervalHours % 24 = 0 then
    skipDays moment (intervalHours / 24) (moment / day * day + min hourUtc 23 * hour)
  else moment + intervalHours * hour

/-- Where `run_scheduled` is. `enters` looks at the quota and the tree and makes the backup. -/
inductive Stage
  | due
  | reserves
  | enters (entry : Entries.Entry)
  | runs (backup operation : Id)
  | looks (backup operation : Id)
  | dismisses (operation : Id)
  | settles (status : BackupScheduleStatus) (error : Option String)
  | prunes

structure Run where
  now : Timestamp
  /-- What it has read of the schedule. -/
  schedule : BackupSchedule := {}
  /-- The schedule was saved since. -/
  stale : Bool := false
  stage : Stage := .due

/-- `write_schedule` after its check: the statement that is still to come. -/
structure Writer where
  wanted : UpdateBackupScheduleRequest
  now : Timestamp

structure System where
  base : Entries.System
  row : Option BackupSchedule := none
  writers : List Writer := []
  run : Option Run := none
  /-- What was saved last. -/
  written : UpdateBackupScheduleRequest := {}
  /-- When that was, or the tick of the last run since that gave up its slot. -/
  since : Timestamp := 0
  /-- What the prunes have kept, and what the schedule said at that time. -/
  pruned : List (Nat × Nat) := []

inductive Event
  | base (e : Entries.Event)
  | asks (wanted : UpdateBackupScheduleRequest) (now : Timestamp)
  | saves (i : Nat)
  | ticks (now : Timestamp)
  | runs (found : Entries.Found)
  | fails

def scheduledEntry : Entries.Entry where
  purpose := .scheduled
  adds := Entries.Purpose.scheduled.adds
  phase := .checks Entries.Purpose.scheduled.checks

def reserve (next : Timestamp) (row : BackupSchedule) : BackupSchedule :=
  { row with nextRunAt := some next }

def recordRun (at' : Timestamp) (status : BackupScheduleStatus) (error : Option String)
    (next : Timestamp) (row : BackupSchedule) : BackupSchedule :=
  { row with
    lastRunAt := some at', lastStatus := some status, lastError := error, nextRunAt := some next }

def Run.next (run : Run) : Timestamp :=
  nextAfter run.now run.schedule.intervalHours run.schedule.hourUtc

namespace System

variable (s : System)

def schedule : BackupSchedule := s.row.getD {}

def admits : Entries.Event → Bool
  | .enters purpose _ => purpose ≠ .scheduled
  | .prunes _ => false
  | _ => true

def asks (wanted : UpdateBackupScheduleRequest) (now : Timestamp) : System :=
  match wanted.check (Entries.quota s.base.db) with
  | .ok () => { s with writers := s.writers ++ [⟨wanted, now⟩] }
  | .error _ => s

/-- `save_schedule`: what is known of the runs stays. -/
def saves (i : Nat) : Option System :=
  (s.writers[i]?).map fun writer => { s with
    writers := s.writers.eraseIdx i
    row := some { s.schedule with
      toUpdateBackupScheduleRequest := writer.wanted
      nextRunAt := if writer.wanted.enabled then
        some (nextAfter writer.now writer.wanted.intervalHours writer.wanted.hourUtc) else none }
    run := s.run.map fun run => { run with stale := true }
    written := writer.wanted
    since := writer.now }

def due (now : Timestamp) : Bool :=
  s.row.any fun row => row.enabled && row.nextRunAt.any (· ≤ now)

def ticks (now : Timestamp) : System :=
  if s.run.isNone && s.due now then { s with run := some { now } } else s

def outcomeOf (entry : Entries.Entry) (fresh : Id) : Option Stage :=
  match entry.phase with
  | .checks (.limit _ :: _) => some (.settles .skippedLimit none)
  | .checks (.changed :: _) => some (.settles .skippedUnchanged none)
  | .creates backup _ => some (.runs backup fresh)
  | _ => none

def outcome (backup operation : Id) : Stage :=
  match (newestRun s.base.db backup).map stateOf with
  | some .completed => .dismisses operation
  | some .timedOut => .settles .timedOut (some "the run timed out")
  | _ => .settles .failed (some "the run did not finish")

def next (run : Run) (found : Entries.Found) : System :=
  match run.stage with
  | .due => { s with run := some { run with
      schedule := s.schedule, stale := false, stage := .reserves } }
  | .reserves => { s with
      row := s.row.map (reserve run.next)
      since := run.now
      run := some { run with stage := .enters scheduledEntry } }
  | .enters entry => match s.base.next entry found with
    | (base, some entry) => { s with base, run := some { run with stage := .enters entry } }
    | (base, none) => { s with
        base
        run := (outcomeOf entry found.fresh).map fun stage => { run with stage } }
  | .runs backup operation => { s with run := some { run with stage := .looks backup operation } }
  | .looks backup operation => { s with
      run := some { run with stage := s.outcome backup operation } }
  | .dismisses operation => { s with
      base := s.base.setDb (Ops.after s.base.db (Ops.dismiss operation found.now))
      run := some { run with stage := .settles .completed none } }
  | .settles status error => { s with
      row := s.row.map (recordRun run.now status error run.next)
      run := if status = .completed then some { run with stage := .prunes } else none }
  | .prunes => { s with
      base := { s.base with removals := s.base.removals ++ [{
        prunes := true
        todo := Entries.automaticOver s.base.db s.base.id run.schedule.keepLast }] }
      pruned := (run.schedule.keepLast, s.schedule.keepLast) :: s.pruned
      run := none }

def step : Event → Option System
  | .base e => if admits e then (s.base.step e).map fun base => { s with base } else none
  | .asks wanted now => some (s.asks wanted now)
  | .saves i => s.saves i
  | .ticks now => some (s.ticks now)
  | .runs found => s.run.map fun run => s.next run found
  | .fails => some { s with run := none }

/-- The stored schedule is what follows from the last one that was saved, and so is what the prunes
have kept. -/
structure Follows : Prop where
  settings : s.schedule.toUpdateBackupScheduleRequest = s.written
  next : s.schedule.nextRunAt = if s.written.enabled then
    some (nextAfter s.since s.written.intervalHours s.written.hourUtc) else none
  pruned : ∀ kept ∈ s.pruned, kept.1 = kept.2

/-- A run finds the schedule still enabled when it reads it, and writes and prunes nothing once
another one has been saved. -/
def heeds : Event → Bool
  | .runs _ => s.run.all fun run => match run.stage with
    | .due => s.schedule.enabled
    | .reserves | .settles _ _ | .prunes => !run.stale
    | _ => true
  | _ => true

end System

def machine : Machine System Event := ⟨System.step⟩

section Times

theorem lt_skipDays (moment : Timestamp) (days : Nat) (candidate : Timestamp) :
    moment < skipDays moment days candidate := by
  induction candidate using skipDays.induct moment days with
  | case1 candidate hle ih =>
    rw [skipDays, dif_pos hle]
    exact ih
  | case2 candidate hlt =>
    rw [skipDays, dif_neg hlt]
    exact Nat.lt_of_not_le hlt

theorem lt_nextAfter {moment : Timestamp} {intervalHours : Nat} (hourUtc : Nat)
    (hpos : 0 < intervalHours) : moment < nextAfter moment intervalHours hourUtc := by
  unfold nextAfter
  split
  · exact lt_skipDays _ _ _
  · exact Nat.lt_add_of_pos_right (Nat.mul_pos hpos (by decide))

theorem skipDays_mod (moment : Timestamp) (days : Nat) (candidate : Timestamp) :
    skipDays moment days candidate % day = candidate % day := by
  induction candidate using skipDays.induct moment days with
  | case1 candidate hle ih =>
    rw [skipDays, dif_pos hle, ih]
    exact Nat.add_mul_mod_self_right _ _ _
  | case2 candidate hlt => rw [skipDays, dif_neg hlt]

theorem nextAfter_mod (moment : Timestamp) {intervalHours : Nat} (hourUtc : Nat)
    (hdays : intervalHours % 24 = 0) :
    nextAfter moment intervalHours hourUtc % day = min hourUtc 23 * hour := by
  have hlt : min hourUtc 23 * hour < day := by
    have hle : min hourUtc 23 ≤ 23 := Nat.min_le_right _ _
    unfold day hour
    omega
  rw [nextAfter, if_pos hdays, skipDays_mod, Nat.add_comm, Nat.add_mul_mod_self_right,
    Nat.mod_eq_of_lt hlt]

theorem skipDays_le {moment : Timestamp} {days : Nat} {candidate : Timestamp}
    (h : candidate ≤ moment + max days 1 * day) :
    skipDays moment days candidate ≤ moment + max days 1 * day := by
  induction candidate using skipDays.induct moment days with
  | case1 candidate hle ih =>
    rw [skipDays, dif_pos hle]
    apply ih
    exact Nat.add_le_add_right hle _
  | case2 candidate hlt =>
    rw [skipDays, dif_neg hlt]
    exact h

theorem hourOf_le (moment : Timestamp) {hourUtc : Nat} (hhour : hourUtc ≤ 23) :
    moment / day * day + hourUtc * hour ≤ moment + day := by
  have hfloor : moment / day * day ≤ moment := Nat.div_mul_le_self moment day
  have hlt : hourUtc * hour ≤ day := by
    unfold day hour
    omega
  exact Nat.add_le_add hfloor hlt

theorem days_mul_day {intervalHours : Nat} (hpos : 1 ≤ intervalHours)
    (hdays : intervalHours % 24 = 0) : max (intervalHours / 24) 1 * day = intervalHours * hour := by
  have hone : 1 ≤ intervalHours / 24 := by omega
  have hback : intervalHours / 24 * 24 = intervalHours := by omega
  rw [Nat.max_eq_left hone]
  calc intervalHours / 24 * day = intervalHours / 24 * 24 * hour := (Nat.mul_assoc _ _ _).symm
    _ = intervalHours * hour := by rw [hback]

theorem nextAfter_le (moment : Timestamp) {intervalHours : Nat} (hourUtc : Nat)
    (hpos : 1 ≤ intervalHours) :
    nextAfter moment intervalHours hourUtc ≤ moment + intervalHours * hour := by
  unfold nextAfter
  split
  · next hdays =>
    rw [← days_mul_day hpos hdays]
    apply skipDays_le
    have hday : day ≤ max (intervalHours / 24) 1 * day :=
      Nat.le_mul_of_pos_left day (Nat.le_max_right _ _)
    have hhour := hourOf_le moment (Nat.min_le_right hourUtc 23)
    exact hhour.trans (Nat.add_le_add_left hday moment)
  · exact Nat.le_refl _

theorem nextAfter_of_mod {moment : Timestamp} {intervalHours hourUtc : Nat}
    (hpos : 1 ≤ intervalHours)
    (hmod : intervalHours % 24 = 0 → moment % day = min hourUtc 23 * hour) :
    nextAfter moment intervalHours hourUtc = moment + intervalHours * hour := by
  unfold nextAfter
  split
  · next hdays =>
    have hself : moment / day * day + min hourUtc 23 * hour = moment := by
      rw [← hmod hdays, Nat.mul_comm]
      exact Nat.div_add_mod moment day
    have hpast : ¬ moment + max (intervalHours / 24) 1 * day ≤ moment := by
      have hstep : 0 < max (intervalHours / 24) 1 * day :=
        Nat.mul_pos (Nat.le_max_right _ _) (by decide)
      exact Nat.not_le_of_lt (Nat.lt_add_of_pos_right hstep)
    rw [hself, skipDays, dif_pos (Nat.le_refl moment), skipDays, dif_neg hpast,
      days_mul_day hpos hdays]
  · rfl

/-- The times at which a schedule is due, each reckoned from the one before it. -/
def dueTimes (moment : Timestamp) (intervalHours hourUtc : Nat) : Nat → Timestamp
  | 0 => nextAfter moment intervalHours hourUtc
  | n + 1 => nextAfter (dueTimes moment intervalHours hourUtc n) intervalHours hourUtc

theorem dueTimes_mod (moment : Timestamp) {intervalHours : Nat} (hourUtc : Nat)
    (hdays : intervalHours % 24 = 0) (n : Nat) :
    dueTimes moment intervalHours hourUtc n % day = min hourUtc 23 * hour := by
  cases n with
  | zero => exact nextAfter_mod moment hourUtc hdays
  | succ n => exact nextAfter_mod _ hourUtc hdays

/-- The next time is later than the moment, by no more than the interval; at the hour, where the
interval is whole days; and from there on an interval lies between two times. Nothing here depends
on which midnight the moments are counted from. -/
theorem next_after_keeps_its_interval (moment : Timestamp) (intervalHours hourUtc : Nat)
    (hinterval : minInterval ≤ intervalHours ∧ intervalHours ≤ maxInterval) (hhour : hourUtc ≤ 23) :
    moment < nextAfter moment intervalHours hourUtc ∧
      nextAfter moment intervalHours hourUtc ≤ moment + intervalHours * hour ∧
      (intervalHours % 24 = 0 → nextAfter moment intervalHours hourUtc % day = hourUtc * hour) ∧
      ∀ n, dueTimes moment intervalHours hourUtc (n + 1) =
        dueTimes moment intervalHours hourUtc n + intervalHours * hour := by
  have hpos : 1 ≤ intervalHours := hinterval.1
  refine ⟨lt_nextAfter hourUtc hpos, nextAfter_le moment hourUtc hpos, ?_, ?_⟩
  · intro hdays
    rw [nextAfter_mod moment hourUtc hdays, Nat.min_eq_left hhour]
  · intro n
    exact nextAfter_of_mod hpos fun hdays => dueTimes_mod moment hourUtc hdays n

/-- Every two days at four, from five past four. -/
theorem next_after_two_days :
    (minInterval ≤ 48 ∧ 48 ≤ maxInterval) ∧ 4 ≤ 23 ∧
      nextAfter (4 * hour + 300000) 48 4 ≤ 4 * hour + 300000 + 48 * hour :=
  ⟨by decide, by decide,
    (next_after_keeps_its_interval (4 * hour + 300000) 48 4 (by decide) (by decide)).2.1⟩

end Times

section Steps

variable {s t : System} {found : Entries.Found}

/-- A run past its look at the schedule has read the one that was saved last, or is stale. -/
structure Run.Sound (s : System) (run : Run) : Prop where
  read : run.stage ≠ .due → run.stale = false →
    run.schedule.toUpdateBackupScheduleRequest = s.written ∧ s.written.enabled = true
  slot : run.stage ≠ .due → run.stage ≠ .reserves → run.stale = false → s.since = run.now

structure Inv (s : System) : Prop where
  follows : s.Follows
  run : ∀ run, s.run = some run → run.Sound s

theorem Inv.asks (h : Inv s) (wanted : UpdateBackupScheduleRequest) (now : Timestamp) :
    Inv (s.asks wanted now) := by
  unfold System.asks
  split
  · constructor
    · exact ⟨h.follows.settings, h.follows.next, h.follows.pruned⟩
    · intro run hrun
      exact ⟨(h.run run hrun).read, (h.run run hrun).slot⟩
  · exact h

theorem Inv.saves (h : Inv s) {i : Nat} (hsaves : s.saves i = some t) : Inv t := by
  obtain ⟨writer, -, rfl⟩ := Option.map_eq_some_iff.mp hsaves
  constructor
  · exact ⟨rfl, rfl, h.follows.pruned⟩
  · intro run hrun
    obtain ⟨old, -, rfl⟩ := Option.map_eq_some_iff.mp hrun
    constructor
    · intro _ hstale
      cases hstale
    · intro _ _ hstale
      cases hstale

theorem Inv.ticks (h : Inv s) (now : Timestamp) : Inv (s.ticks now) := by
  unfold System.ticks
  split
  · constructor
    · exact ⟨h.follows.settings, h.follows.next, h.follows.pruned⟩
    · intro run hrun
      cases hrun
      exact ⟨fun hdue => absurd rfl hdue, fun hdue _ => absurd rfl hdue⟩
  · exact h

theorem Inv.goes (h : Inv s) (base : Entries.System) {next : Option Run}
    (hnext : ∀ run, next = some run → run.Sound s) : Inv { s with base, run := next } := by
  constructor
  · exact ⟨h.follows.settings, h.follows.next, h.follows.pruned⟩
  · intro run hrun
    exact ⟨(hnext run hrun).read, (hnext run hrun).slot⟩

theorem Run.Sound.goes {run : Run} (h : run.Sound s) {stage : Stage} (hdue : run.stage ≠ .due)
    (hreserves : run.stage ≠ .reserves) : Run.Sound s { run with stage } :=
  ⟨fun _ => h.read hdue, fun _ _ => h.slot hdue hreserves⟩

theorem Inv.writes (h : Inv s) {run : Run} (hrun : s.run = some run) (hdue : run.stage ≠ .due)
    (hfresh : run.stale = false) {f : BackupSchedule → BackupSchedule}
    (hf : ∀ row, (f row).toUpdateBackupScheduleRequest = row.toUpdateBackupScheduleRequest ∧
      (f row).nextRunAt = some run.next) {left : Option Run}
    (hleft : ∀ next, left = some next → ∃ stage, next = { run with stage })
    {since : Timestamp} (hsince : since = run.now) :
    Inv { s with row := s.row.map f, since, run := left } := by
  obtain ⟨hread, henabled⟩ := (h.run run hrun).read hdue hfresh
  have hstored : s.schedule.enabled = true :=
    (congrArg UpdateBackupScheduleRequest.enabled h.follows.settings).trans henabled
  obtain ⟨row, hrow⟩ : ∃ row, s.row = some row := by
    cases hrow : s.row with
    | some row => exact ⟨row, rfl⟩
    | none => simp [System.schedule, hrow] at hstored
  have hschedule : s.schedule = row := by simp [System.schedule, hrow]
  have hafter : System.schedule { s with row := s.row.map f, since, run := left } = f row := by
    simp [System.schedule, hrow]
  constructor
  · constructor
    · rw [hafter, (hf row).1, ← hschedule]
      exact h.follows.settings
    · rw [hafter, (hf row).2]
      rw [if_pos henabled, ← hread, hsince]
      rfl
    · exact h.follows.pruned
  · intro next hnext
    obtain ⟨stage, rfl⟩ := hleft next hnext
    exact ⟨fun _ _ => ⟨hread, henabled⟩, fun _ _ _ => hsince⟩

theorem Inv.settles (h : Inv s) {run : Run} (hrun : s.run = some run)
    {status : BackupScheduleStatus} {error : Option String}
    (hstage : run.stage = .settles status error) (hfresh : run.stale = false) :
    Inv { s with
      row := s.row.map (recordRun run.now status error run.next)
      run := if status = .completed then some { run with stage := .prunes } else none } := by
  have hslot := (h.run run hrun).slot (by simp [hstage]) (by simp [hstage]) hfresh
  apply h.writes (f := recordRun run.now status error run.next) hrun (by simp [hstage]) hfresh _ _
    hslot
  · exact fun row => ⟨rfl, rfl⟩
  intro next hnext
  split at hnext
  · exact ⟨.prunes, (Option.some.inj hnext).symm⟩
  · cases hnext

theorem Inv.prunes (h : Inv s) {run : Run} (hrun : s.run = some run)
    (hstage : run.stage = .prunes) (hfresh : run.stale = false) (base : Entries.System) :
    Inv { s with
      base
      pruned := (run.schedule.keepLast, s.schedule.keepLast) :: s.pruned
      run := none } := by
  obtain ⟨hread, -⟩ := (h.run run hrun).read (by simp [hstage]) hfresh
  have hsame : run.schedule.keepLast = s.schedule.keepLast :=
    congrArg UpdateBackupScheduleRequest.keepLast (hread.trans h.follows.settings.symm)
  constructor
  · refine ⟨h.follows.settings, h.follows.next, ?_⟩
    intro kept hmem
    rcases List.mem_cons.mp hmem with rfl | hold
    · exact hsame
    · exact h.follows.pruned kept hold
  · intro next hnext
    cases hnext

theorem Inv.next (h : Inv s) {run : Run} (hrun : s.run = some run)
    (hheeds : s.heeds (.runs found) = true) : Inv (s.next run found) := by
  have hsound := h.run run hrun
  simp only [System.heeds, hrun, Option.all_some] at hheeds
  have hgoes : ∀ stage, run.stage ≠ .due → run.stage ≠ .reserves →
      ∀ next, some { run with stage } = some next → next.Sound s := by
    rintro stage hdue hreserves next ⟨⟩
    exact hsound.goes hdue hreserves
  unfold System.next
  split
  · next hstage =>
    rw [hstage] at hheeds
    apply h.goes s.base
    rintro next ⟨⟩
    refine ⟨fun _ _ => ⟨h.follows.settings, ?_⟩, fun _ hreserves => absurd rfl hreserves⟩
    rw [← h.follows.settings]
    exact hheeds
  · next hstage =>
    rw [hstage] at hheeds
    apply h.writes hrun (by simp [hstage]) (by simpa using hheeds)
    · exact fun row => ⟨rfl, rfl⟩
    · intro next hnext
      exact ⟨_, (Option.some.inj hnext).symm⟩
    · rfl
  · next entry hstage =>
    have hdue : run.stage ≠ .due := by simp [hstage]
    have hreserves : run.stage ≠ .reserves := by simp [hstage]
    split
    · exact h.goes _ (hgoes _ hdue hreserves)
    apply h.goes
    intro next hnext
    obtain ⟨stage, -, rfl⟩ := Option.map_eq_some_iff.mp hnext
    exact hsound.goes hdue hreserves
  · next backup operation hstage =>
    exact h.goes s.base (hgoes _ (by simp [hstage]) (by simp [hstage]))
  · next backup operation hstage =>
    exact h.goes s.base (hgoes _ (by simp [hstage]) (by simp [hstage]))
  · next operation hstage =>
    exact h.goes _ (hgoes _ (by simp [hstage]) (by simp [hstage]))
  · next status error hstage =>
    rw [hstage] at hheeds
    exact h.settles hrun hstage (by simpa using hheeds)
  · next hstage =>
    rw [hstage] at hheeds
    exact h.prunes hrun hstage (by simpa using hheeds) _

theorem Inv.step (h : Inv s) {e : Event} (hheeds : s.heeds e = true) (hstep : s.step e = some t) :
    Inv t := by
  cases e with
  | base e =>
    simp only [System.step] at hstep
    split at hstep
    · obtain ⟨base, -, rfl⟩ := Option.map_eq_some_iff.mp hstep
      exact h.goes base h.run
    · cases hstep
  | asks wanted now =>
    cases hstep
    exact h.asks wanted now
  | saves i => exact h.saves hstep
  | ticks now =>
    cases hstep
    exact h.ticks now
  | runs found =>
    obtain ⟨run, hrun, rfl⟩ := Option.map_eq_some_iff.mp hstep
    exact h.next hrun hheeds
  | fails =>
    cases hstep
    apply h.goes s.base
    intro next hnext
    cases hnext

/-- Where no run reads a disabled schedule, and none writes or prunes once another schedule has been
saved, the stored schedule is always the one that was saved last. -/
theorem schedule_follows_last_save {es : List Event} (hs : s.Follows) (hidle : s.run = none)
    (hheeds : machine.Meets (fun s e => s.heeds e) s es) (hrun : machine.exec s es = some t) :
    t.Follows := by
  have hinv : Inv s := by
    refine ⟨hs, ?_⟩
    intro run hsome
    rw [hidle] at hsome
    cases hsome
  have hafter : Inv t :=
    machine.invariant (fun h hok hstep => h.step hok hstep) hinv hheeds hrun
  exact hafter.follows

def unscheduled (backups : Table BackupRow.id) : System where
  base := Entries.booted 1 { backups, settings := { maxBackupsPerServer := 1 } } [] []

/-- A backup is wanted every hour from midnight on, and one of them is to be kept. -/
def hourly : List Event :=
  [.asks { enabled := true, intervalHours := 1, keepLast := 1 } 0, .saves 0]

def makesBackup : List Event :=
  Event.ticks hour :: .replicate 5 (.runs {}) ++ [Event.runs { fresh := 5 }, .runs { fresh := 6 },
    .base (.ops (.begin 6 hour)), .base (.packs 5 1), .base (.ops (.finish 6 hour))] ++
    List.replicate 5 (Event.runs {})

theorem schedule_follows_last_save_made :
    ∃ t, machine.exec (unscheduled .empty) (hourly ++ makesBackup) = some t ∧
      t.schedule.lastStatus = some .completed ∧ t.pruned = [(1, 1)] ∧ t.Follows := by
  have hheeds : machine.Meets (fun s e => s.heeds e) (unscheduled .empty)
      (hourly ++ makesBackup) := by decide +kernel
  have hend : machine.Ends (unscheduled .empty) (hourly ++ makesBackup) fun t =>
      t.schedule.lastStatus = some .completed ∧ t.pruned = [(1, 1)] := by decide +kernel
  obtain ⟨t, hrun, hstatus, hpruned⟩ := hend
  refine ⟨t, hrun, hstatus, hpruned, schedule_follows_last_save ?_ rfl hheeds hrun⟩
  refine ⟨rfl, rfl, ?_⟩
  intro kept hmem
  cases hmem

/-- The schedule is disabled while the run looks at the quota, which is full. -/
def disabledMeanwhile : List Event :=
  hourly ++ [Event.ticks hour, .runs {}, .runs {}, .asks { enabled := false, keepLast := 1 } hour,
    .saves 0, .runs {}, .runs {}, .runs {}]

/-- The run puts back the time that it has reckoned from the schedule before. -/
theorem run_overwrites_saved_schedule :
    ¬ ∀ (s : System) (es : List Event) (t : System),
      s.Follows → s.run = none → machine.exec s es = some t → t.run = none → t.Follows := by
  intro hall
  have hend : machine.Ends (unscheduled ⟨[{ id := 5, serverId := 1 }], by decide⟩)
      disabledMeanwhile fun t => t.run = none ∧ t.written.enabled = false ∧
        t.schedule.nextRunAt = some (2 * hour) := by decide +kernel
  obtain ⟨t, hrun, hidle, hdisabled, hnext⟩ := hend
  have hfollows : t.Follows := by
    apply hall _ _ t _ rfl hrun hidle
    refine ⟨rfl, rfl, ?_⟩
    intro kept hmem
    cases hmem
  have hnone := hfollows.next
  rw [hdisabled, hnext] at hnone
  cases hnone

end Steps

end CraftPanel.Backups.Schedule
