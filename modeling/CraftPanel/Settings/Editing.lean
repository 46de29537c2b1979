import CraftPanel.Framework.Edits
import CraftPanel.Framework.Machine
import CraftPanel.Settings.Startup

/-!
# Edits of the startup settings of a running server

`write_startup`, `read_startup` and `settle_restart_flag` of `api/settings.rs` beside what else
writes the row of the server: `record` and `reset_to_setup` of `settings/install.rs` and
`move_game_version` of `content/mod.rs`. A start reads the row some time before the process is
there, and the process is there some time before it has attached to the panel. The checks in front
of a patch are the event that turns it away.
-/

namespace CraftPanel.Settings.Editing

open Framework
open Settings.Startup (StartupOptionsPatch Change plan)

inductive Setting
  | javaVersion | vendor | memory | command | loader | gameVersion
  deriving DecidableEq

def Setting.all : List Setting := [.javaVersion, .vendor, .memory, .command, .loader, .gameVersion]

theorem Setting.mem_all (setting : Setting) : setting ∈ Setting.all := by
  cases setting <;> decide

instance {P : Setting → Prop} [DecidablePred P] : Decidable (∀ setting, P setting) :=
  decidable_of_iff (∀ setting ∈ Setting.all, P setting)
    ⟨fun h setting => h setting setting.mem_all, fun h setting _ => h setting⟩

abbrev Setting.Value : Setting → Type
  | .javaVersion => Option Nat
  | .vendor => Option JreVendor
  | .memory => Nat
  | .command => List Text
  | .loader => Option LoaderId
  | .gameVersion => Option Text

instance : ∀ setting : Setting, DecidableEq setting.Value
  | .javaVersion => inferInstanceAs (DecidableEq (Option Nat))
  | .vendor => inferInstanceAs (DecidableEq (Option JreVendor))
  | .memory => inferInstanceAs (DecidableEq Nat)
  | .command => inferInstanceAs (DecidableEq (List Text))
  | .loader => inferInstanceAs (DecidableEq (Option LoaderId))
  | .gameVersion => inferInstanceAs (DecidableEq (Option Text))

def settings (row : Startup.ServerRow) : ∀ setting : Setting, setting.Value
  | .javaVersion => row.javaMajor
  | .vendor => row.jreVendor
  | .memory => row.memoryMib
  | .command => row.extraFlags
  | .loader => row.loader
  | .gameVersion => row.gameVersion

/-- A patch on its way: the row it has read, and whether the server was running when it asked. -/
structure Patch where
  patch : StartupOptionsPatch
  row : Startup.ServerRow
  running : Option Bool := none

def Patch.change (p : Patch) : Except Failure Change :=
  plan p.patch p.row (p.patch.memoryMib.getD p.row.memoryMib)

def moved (change : Change) (row : Startup.ServerRow) : Bool :=
  change.javaMajor ≠ row.javaMajor || change.jreVendor ≠ row.jreVendor ||
    change.memoryMib ≠ row.memoryMib || change.extraFlags ≠ row.extraFlags

/-- `UPDATE servers SET java_major = ?, jre_vendor = ?, memory_mib = ?, extra_flags = ?,
restart_required = ? WHERE id = ?`. -/
def writeStartup (change : Change) (restart : Bool) (row : Startup.ServerRow) :
    Startup.ServerRow :=
  { row with
    javaMajor := change.javaMajor
    jreVendor := change.jreVendor
    memoryMib := change.memoryMib
    extraFlags := change.extraFlags
    restartRequired := restart }

def Patch.edit (p : Patch) (change : Change) : Edit Setting.Value where
  read := settings p.row
  names
    | .javaVersion => p.patch.javaVersion
    | .vendor => p.patch.jreVendor
    | .memory => p.patch.memoryMib
    | .command => p.patch.startupCommand.map fun _ => change.extraFlags
    | .loader | .gameVersion => none
  covers setting := setting ≠ .loader && setting ≠ .gameVersion
  within setting h := by cases setting <;> first | rfl | exact absurd rfl h

inductive LoaderChange
  | install (loader : LoaderId) (gameVersion : Text)
  | repair
  | changeGameVersion (gameVersion : Text) (loader : Option LoaderId)
  | resetToSetup

/-- `facts`: the row as a job goes on with it. -/
def facts (row : Startup.ServerRow) : Startup.ServerRow :=
  { row with
    loader := some (row.loader.getD .vanilla)
    gameVersion := some (row.gameVersion.getD []) }

namespace LoaderChange

def fails : LoaderChange → Startup.ServerRow → Bool
  | repair, row => row.loader.isNone
  | _, _ => false

def names : LoaderChange → ∀ setting : Setting, Option setting.Value
  | install loader _, .loader => some (some loader)
  | install _ gameVersion, .gameVersion => some (some gameVersion)
  | changeGameVersion _ loader, .loader => loader.map some
  | changeGameVersion gameVersion _, .gameVersion => some (some gameVersion)
  | resetToSetup, .loader => some none
  | resetToSetup, .gameVersion => some none
  | _, _ => none

def marks : LoaderChange → Bool
  | changeGameVersion _ _ => true
  | _ => false

/-- The update at the end of the change, which was asked for when the row was `read`. -/
def record (change : LoaderChange) (read row : Startup.ServerRow) : Startup.ServerRow :=
  match change with
  | install loader gameVersion =>
    { row with loader := some loader, gameVersion := some gameVersion }
  | repair => { row with loader := (facts read).loader, gameVersion := (facts read).gameVersion }
  | changeGameVersion gameVersion loader =>
    { row with
      loader := (loader.map some).getD (facts read).loader
      gameVersion := some gameVersion
      restartRequired := true }
  | resetToSetup => { row with loader := none, gameVersion := none }

def edit (change : LoaderChange) (read : Startup.ServerRow) : Edit Setting.Value where
  read := settings (facts read)
  names := change.names
  covers setting := setting = .loader || setting = .gameVersion
  within setting h := by
    cases change <;> cases setting <;> first | rfl | exact absurd rfl h

end LoaderChange

structure System where
  row : Startup.ServerRow
  /-- What the last change that named a setting has set it to. -/
  asked : ∀ setting : Setting, setting.Value
  /-- The row that the process which is there was started from. -/
  process : Option Startup.ServerRow := none
  attached : Bool := false
  starts : List Startup.ServerRow := []
  patches : List Patch := []
  views : List (Bool × Option Bool) := []
  jobs : List (LoaderChange × Startup.ServerRow) := []

inductive Event
  | reads (patch : StartupOptionsPatch)
  | refuses (k : Nat)
  | plans (k : Nat)
  | writes (k : Nat)
  | looks
  | asks (k : Nat)
  | settles (k : Nat)
  | begins (change : LoaderChange)
  | fails (k : Nat)
  | records (k : Nat)
  | readsRow
  | launches (k : Nat)
  | attaches
  | detaches
  | exits

/-- The row after `settle_restart_flag`. -/
def settleRestartFlag (restartRequired running : Bool) (row : Startup.ServerRow) :
    Startup.ServerRow :=
  if restartRequired && !running then { row with restartRequired := false } else row

namespace System

variable (s : System)

def writes (k : Nat) : Option System :=
  match s.patches[k]? with
  | none => none
  | some p =>
    match p.running, p.change with
    | some running, .ok change =>
      let restart := running && (moved change p.row || p.row.restartRequired)
      some { s with
        row := writeStartup change restart s.row
        asked := overlay (p.edit change).names s.asked
        patches := s.patches.eraseIdx k }
    | _, _ => none

def plans (k : Nat) : Option System :=
  match s.patches[k]? with
  | some ⟨patch, row, none⟩ =>
    match Patch.change ⟨patch, row, none⟩ with
    | .ok _ => some { s with patches := s.patches.set k ⟨patch, row, some s.attached⟩ }
    | .error _ => some { s with patches := s.patches.eraseIdx k }
  | _ => none

def asks (k : Nat) : Option System :=
  match s.views[k]? with
  | some (flag, none) => some { s with views := s.views.set k (flag, some s.attached) }
  | _ => none

def settles (k : Nat) : Option System :=
  match s.views[k]? with
  | some (flag, some running) => some { s with
      row := settleRestartFlag flag running s.row
      views := s.views.eraseIdx k }
  | _ => none

def records (k : Nat) : Option System :=
  match s.jobs[k]? with
  | none => none
  | some (change, read) =>
    if change.fails read then some { s with jobs := s.jobs.eraseIdx k }
    else some { s with
      row := change.record read s.row
      asked := overlay change.names s.asked
      jobs := s.jobs.eraseIdx k }

def launches (k : Nat) : Option System :=
  match s.starts[k]? with
  | none => none
  | some row => some { s with process := some row, starts := s.starts.eraseIdx k }

def step : Event → Option System
  | .reads patch => some { s with patches := s.patches ++ [⟨patch, s.row, none⟩] }
  | .refuses k => some { s with patches := s.patches.eraseIdx k }
  | .plans k => s.plans k
  | .writes k => s.writes k
  | .looks => some { s with views := s.views ++ [(s.row.restartRequired, none)] }
  | .asks k => s.asks k
  | .settles k => s.settles k
  | .begins change => some { s with jobs := s.jobs ++ [(change, s.row)] }
  | .fails k => some { s with jobs := s.jobs.eraseIdx k }
  | .records k => s.records k
  | .readsRow => some { s with starts := s.starts ++ [s.row] }
  | .launches k => s.launches k
  | .attaches => if s.process.isSome then some { s with attached := true } else none
  | .detaches => some { s with attached := false }
  | .exits => some { s with process := none }

/-- Every setting is what the last change that named it has set it to. -/
def InForce : Prop := ∀ setting, settings s.row setting = s.asked setting

end System

def SameSettings (started row : Startup.ServerRow) : Prop :=
  ∀ setting, settings started setting = settings row setting

/-- The flag is set, or the process was started with the settings of the row. -/
def Flagged (process : Option Startup.ServerRow) (row : Startup.ServerRow) : Prop :=
  ∀ started ∈ process, row.restartRequired = true ∨ SameSettings started row

instance (started row : Startup.ServerRow) : Decidable (SameSettings started row) :=
  inferInstanceAs (Decidable (∀ setting, settings started setting = settings row setting))

instance (process : Option Startup.ServerRow) (row : Startup.ServerRow) :
    Decidable (Flagged process row) :=
  inferInstanceAs (Decidable (∀ started ∈ process, _ ∨ _))

instance (s : System) : Decidable s.InForce :=
  inferInstanceAs (Decidable (∀ setting, settings s.row setting = s.asked setting))

instance (e : Edit Setting.Value) (now : ∀ setting : Setting, setting.Value) :
    Decidable (e.Fresh now) :=
  inferInstanceAs (Decidable (∀ setting, e.covers setting = true → e.names setting = none →
    e.read setting = now setting))

def machine : Framework.Machine System Event := ⟨System.step⟩

/-- A change finds the settings that it writes without naming them as it has read them. A process
that was not started with what a patch writes had attached when the patch asked, and the patch moves
a setting or has read a set flag; none is there when a flag is cleared, none when a loader is
recorded while the flag is not set; and a start goes on with the settings of the row, or the flag is
set. -/
def heeds (s : System) : Event → Bool
  | .writes k => s.patches[k]?.all fun p => match p.running, p.change with
    | some running, .ok change => (p.edit change).Fresh (settings s.row) ∧
        ∀ started ∈ s.process, SameSettings started (writeStartup change false s.row) ∨
          running = true ∧ (moved change p.row = true ∨ p.row.restartRequired = true)
    | _, _ => true
  | .settles k => s.views[k]?.all fun view => view ≠ (true, some false) ∨
      ∀ started ∈ s.process, SameSettings started s.row
  | .records k => s.jobs[k]?.all fun job => job.1.fails job.2 = true ∨
      (job.1.edit job.2).Fresh (settings s.row) ∧
        (s.row.restartRequired = true ∨ job.1.marks = true ∨
          ∀ started ∈ s.process, SameSettings started (job.1.record job.2 s.row))
  | .launches k => s.starts[k]?.all fun row =>
      s.row.restartRequired = true ∨ SameSettings row s.row
  | _ => true

section Updates

variable {p : Patch} {change : Change} {restart : Bool} {read row : Startup.ServerRow}

theorem plan_ok {patch : StartupOptionsPatch} {mib : Nat} (h : plan patch row mib = .ok change) :
    change.javaMajor = patch.javaVersion.getD row.javaMajor ∧
      change.jreVendor = patch.jreVendor.getD row.jreVendor ∧ change.memoryMib = mib ∧
      (patch.startupCommand = none → change.extraFlags = row.extraFlags) := by
  unfold plan at h
  cases hcommand : patch.startupCommand with
  | none =>
    rw [hcommand] at h
    cases h
    exact ⟨rfl, rfl, rfl, fun _ => rfl⟩
  | some command =>
    rw [hcommand] at h
    obtain ⟨read, -, hread⟩ := bind_ok.mp h
    obtain rfl := pure_ok.mp hread
    exact ⟨rfl, rfl, rfl, nofun⟩

theorem settings_writeStartup (h : p.change = .ok change) (setting : Setting) :
    settings (writeStartup change restart row) setting =
      (p.edit change).write (settings row) setting := by
  obtain ⟨hjava, hvendor, hmemory, hflags⟩ := plan_ok h
  cases setting with
  | javaVersion => exact hjava
  | vendor => exact hvendor
  | memory => exact hmemory
  | command =>
    show change.extraFlags = (p.patch.startupCommand.map fun _ => change.extraFlags).getD _
    cases hcommand : p.patch.startupCommand with
    | none => exact hflags hcommand
    | some command => rfl
  | loader | gameVersion => rfl

theorem settings_record (job : LoaderChange) (setting : Setting) :
    settings (job.record read row) setting = (job.edit read).write (settings row) setting := by
  cases job <;> cases setting <;> rfl

theorem sameSettings_writeStartup {started : Startup.ServerRow} :
    SameSettings started (writeStartup change restart row) ↔
      SameSettings started (writeStartup change false row) := by
  apply forall_congr'
  intro setting
  cases setting <;> rfl

theorem settings_settleRestartFlag {flag running : Bool} (setting : Setting) :
    settings (settleRestartFlag flag running row) setting = settings row setting := by
  unfold settleRestartFlag
  split
  · cases setting <;> rfl
  · rfl

theorem restartRequired_record {job : LoaderChange} :
    (job.record read row).restartRequired = true ↔
      row.restartRequired = true ∨ job.marks = true := by
  cases job <;> simp [LoaderChange.record, LoaderChange.marks]

end Updates

section Runs

variable {s t : System}

theorem inForce_iff {e : Edit Setting.Value} {row : Startup.ServerRow} (hs : s.InForce)
    (hrow : ∀ setting, settings row setting = e.write (settings s.row) setting) :
    (∀ setting, settings row setting = overlay e.names s.asked setting) ↔
      e.Fresh (settings s.row) := by
  have hasked : settings s.row = s.asked := funext hs
  rw [← e.write_eq_overlay_iff, ← hasked]
  apply forall_congr'
  intro setting
  rw [hrow]

theorem inForce_writes_iff {p : Patch} {change : Change} {restart : Bool} (hs : s.InForce)
    (hchange : p.change = .ok change) (hrow : t.row = writeStartup change restart s.row)
    (hasked : t.asked = overlay (p.edit change).names s.asked) :
    t.InForce ↔ (p.edit change).Fresh (settings s.row) := by
  unfold System.InForce
  rw [hrow, hasked]
  exact inForce_iff hs (settings_writeStartup hchange)

theorem inForce_records_iff {job : LoaderChange} {read : Startup.ServerRow} (hs : s.InForce)
    (hrow : t.row = job.record read s.row) (hasked : t.asked = overlay job.names s.asked) :
    t.InForce ↔ (job.edit read).Fresh (settings s.row) := by
  unfold System.InForce
  rw [hrow, hasked]
  exact inForce_iff (e := job.edit read) hs (settings_record job)

theorem flagged_writes_iff {process : Option Startup.ServerRow} {change : Change}
    {row : Startup.ServerRow} {restart : Bool} :
    Flagged process (writeStartup change restart row) ↔
      ∀ started ∈ process, SameSettings started (writeStartup change false row) ∨
        restart = true := by
  apply forall₂_congr
  intro started _
  rw [sameSettings_writeStartup]
  exact Or.comm

theorem flagged_records_iff {process : Option Startup.ServerRow} {job : LoaderChange}
    {read row : Startup.ServerRow} :
    Flagged process (job.record read row) ↔
      row.restartRequired = true ∨ job.marks = true ∨
        ∀ started ∈ process, SameSettings started (job.record read row) := by
  have hmarks : (job.record read row).restartRequired = true ↔ _ := restartRequired_record
  unfold Flagged
  rw [← or_assoc, ← hmarks]
  by_cases hflag : (job.record read row).restartRequired = true
  · simp [hflag]
  · simp [hflag]

theorem step_cases {e : Event} (h : machine.step s e = some t) :
    (t.row = s.row ∧ t.asked = s.asked ∧ (t.process = s.process ∨ t.process = none) ∧
      heeds s e = true) ∨
    (∃ k p running change, e = .writes k ∧ s.patches[k]? = some p ∧ p.running = some running ∧
      p.change = .ok change ∧ t.process = s.process ∧
      t.asked = overlay (p.edit change).names s.asked ∧
      t.row = writeStartup change (running && (moved change p.row || p.row.restartRequired))
        s.row) ∨
    (∃ k flag running, e = .settles k ∧ s.views[k]? = some (flag, some running) ∧
      t.asked = s.asked ∧ t.process = s.process ∧ t.row = settleRestartFlag flag running s.row) ∨
    (∃ k job read, e = .records k ∧ s.jobs[k]? = some (job, read) ∧ job.fails read = false ∧
      t.process = s.process ∧ t.asked = overlay job.names s.asked ∧
      t.row = job.record read s.row) ∨
    ∃ k row, e = .launches k ∧ s.starts[k]? = some row ∧ t.row = s.row ∧ t.asked = s.asked ∧
      t.process = some row := by
  cases e with
  | writes k =>
    simp only [machine, System.step, System.writes] at h
    split at h
    · cases h
    next p hp =>
    split at h
    · next running change hrunning hchange =>
      cases h
      exact .inr (.inl ⟨k, p, running, change, rfl, hp, hrunning, hchange, rfl, rfl, rfl⟩)
    · cases h
  | settles k =>
    simp only [machine, System.step, System.settles] at h
    split at h
    · next flag running hview =>
      cases h
      exact .inr (.inr (.inl ⟨k, flag, running, rfl, hview, rfl, rfl, rfl⟩))
    · cases h
  | records k =>
    simp only [machine, System.step, System.records] at h
    split at h
    · cases h
    next job read hjob =>
    split at h
    · next hfails =>
      cases h
      exact .inl ⟨rfl, rfl, .inl rfl, by simp [heeds, hjob, hfails]⟩
    · next hfails =>
      cases h
      exact .inr (.inr (.inr (.inl ⟨k, job, read, rfl, hjob, by simpa using hfails, rfl, rfl,
        rfl⟩)))
  | launches k =>
    simp only [machine, System.step, System.launches] at h
    split at h
    · cases h
    · next row hrow =>
      cases h
      exact .inr (.inr (.inr (.inr ⟨k, row, rfl, hrow, rfl, rfl, rfl⟩)))
  | plans k =>
    left
    simp only [machine, System.step, System.plans] at h
    split at h
    · split at h <;> cases h <;> exact ⟨rfl, rfl, .inl rfl, rfl⟩
    · cases h
  | asks k =>
    left
    simp only [machine, System.step, System.asks] at h
    split at h <;> cases h
    exact ⟨rfl, rfl, .inl rfl, rfl⟩
  | attaches =>
    left
    simp only [machine, System.step] at h
    split at h <;> cases h
    exact ⟨rfl, rfl, .inl rfl, rfl⟩
  | exits =>
    cases h
    exact .inl ⟨rfl, rfl, .inr rfl, rfl⟩
  | reads patch | refuses k | looks | begins change | fails k | readsRow | detaches =>
    cases h
    exact .inl ⟨rfl, rfl, .inl rfl, rfl⟩

theorem inForce_of_settings (hs : s.InForce)
    (hrow : ∀ setting, settings t.row setting = settings s.row setting)
    (hasked : t.asked = s.asked) : t.InForce := by
  intro setting
  rw [hrow, hasked]
  exact hs setting

theorem flagged_of_quiet (hs : Flagged s.process s.row) (hrow : t.row = s.row)
    (hprocess : t.process = s.process ∨ t.process = none) : Flagged t.process t.row := by
  rcases hprocess with hsame | hnone
  · rw [hrow, hsame]
    exact hs
  · intro started hstarted
    rw [hnone] at hstarted
    cases hstarted

theorem flagged_settles_iff {process : Option Startup.ServerRow} {row : Startup.ServerRow}
    {flag running : Bool} (hs : Flagged process row) :
    Flagged process (settleRestartFlag flag running row) ↔
      (flag, some running) ≠ (true, some false) ∨
        ∀ started ∈ process, SameSettings started row := by
  by_cases hclears : (flag, some running) = (true, some false)
  · obtain ⟨rfl, hrunning⟩ := Prod.mk.inj hclears
    cases hrunning
    have hsame : ∀ started, SameSettings started (settleRestartFlag true false row) ↔
        SameSettings started row := fun started =>
      forall_congr' fun setting => by rw [settings_settleRestartFlag]
    have hflag : (settleRestartFlag true false row).restartRequired = false := rfl
    unfold Flagged
    simp [hflag, hsame]
  · have hkeeps : settleRestartFlag flag running row = row := by
      unfold settleRestartFlag
      rw [if_neg]
      intro hboth
      apply hclears
      simpa using hboth
    rw [hkeeps]
    exact iff_of_true hs (.inl hclears)

theorem holds_step_iff {e : Event} (hs : s.InForce ∧ Flagged s.process s.row)
    (h : machine.step s e = some t) :
    heeds s e = true ↔ t.InForce ∧ Flagged t.process t.row := by
  obtain ⟨hforce, hflag⟩ := hs
  rcases step_cases h with ⟨hrow, hasked, hprocess, hheeds⟩ |
    ⟨k, p, running, change, rfl, hp, hrunning, hchange, hprocess, hasked, hrow⟩ |
    ⟨k, flag, running, rfl, hview, hasked, hprocess, hrow⟩ |
    ⟨k, job, read, rfl, hjob, hfails, hprocess, hasked, hrow⟩ |
    ⟨k, row, rfl, hstart, hrow, hasked, hprocess⟩
  · have hsame := inForce_of_settings hforce (fun setting => by rw [hrow]) hasked
    exact iff_of_true hheeds ⟨hsame, flagged_of_quiet hflag hrow hprocess⟩
  · rw [inForce_writes_iff hforce hchange hrow hasked, hrow, hprocess, flagged_writes_iff]
    simp [heeds, hp, hrunning, hchange]
  · have hsame := inForce_of_settings hforce
      (fun setting => by rw [hrow, settings_settleRestartFlag]) hasked
    rw [and_iff_right hsame, hrow, hprocess, flagged_settles_iff hflag]
    simp only [heeds, hview, Option.all_some]
    exact decide_eq_true_iff
  · rw [inForce_records_iff hforce hrow hasked, hrow, hprocess, flagged_records_iff]
    simp [heeds, hjob, hfails]
  · have hsame := inForce_of_settings hforce (fun setting => by rw [hrow]) hasked
    rw [and_iff_right hsame, hrow, hprocess]
    simp [heeds, hstart, Flagged]

end Runs

/-- However startup patches, views, changes of the loader and starts of a server interleave: the
runs that meet `heeds` are the runs in which no change undoes another one, and the restart flag is
always set where the process was started with other settings. -/
theorem startup_edits_hold_iff {s t : System} {es : List Event}
    (hs : s.InForce ∧ Flagged s.process s.row) (hrun : machine.exec s es = some t) :
    machine.Meets (fun s e => heeds s e = true) s es ↔
      ∀ earlier u, earlier <+: es → machine.exec s earlier = some u →
        u.InForce ∧ Flagged u.process u.row := by
  apply machine.meets_iff_always (I := fun _ => True) _ _ trivial hs hrun
  · intros
    trivial
  · intro s e t _ hs h
    exact holds_step_iff hs h

def paperServer : Startup.ServerRow where
  loader := some .paper
  gameVersion := some "1.21.8".toList
  memoryMib := 2048

def start : System := { row := paperServer, asked := settings paperServer }

/-- More memory is given while the server is starting, and another Java once it is running. -/
def inTurn : List Event :=
  [.readsRow, .launches 0, .attaches, .reads { memoryMib := some 4096 }, .plans 0, .writes 0,
    .reads { javaVersion := some (some 21) }, .plans 0, .writes 0, .looks, .asks 0, .settles 0]

theorem startup_edits_hold_in_turn :
    ∃ t, machine.exec start inTurn = some t ∧ t.row.memoryMib = 4096 ∧
      t.row.javaMajor = some 21 ∧ t.row.restartRequired = true ∧ t.InForce ∧
      Flagged t.process t.row := by
  have hok : machine.Meets (fun s e => heeds s e = true) start inTurn := by decide +kernel
  have hend : machine.Ends start inTurn fun t => t.row.memoryMib = 4096 ∧
      t.row.javaMajor = some 21 ∧ t.row.restartRequired = true := by decide +kernel
  obtain ⟨t, hrun, hmemory, hjava, hflag⟩ := hend
  have hstart : start.InForce ∧ Flagged start.process start.row := by decide +kernel
  exact ⟨t, hrun, hmemory, hjava, hflag,
    (startup_edits_hold_iff hstart hrun).mp hok inTurn t List.prefix_rfl hrun⟩

/-- Two patches are read before either writes: the second puts the memory back. And a patch that
comes before the process has attached leaves the flag unset. -/
theorem overlapping_edits_are_lost :
    (¬ ∀ (s t : System) (es : List Event), s.InForce ∧ Flagged s.process s.row →
      machine.exec s es = some t → t.InForce) ∧
    ¬ ∀ (s t : System) (es : List Event), s.InForce ∧ Flagged s.process s.row →
      machine.exec s es = some t → Flagged t.process t.row := by
  have hstart : start.InForce ∧ Flagged start.process start.row := by decide +kernel
  constructor
  · intro hall
    have hend : machine.Ends start [.reads { memoryMib := some 4096 },
        .reads { javaVersion := some (some 21) }, .plans 0, .writes 0, .plans 0, .writes 0]
        fun t => ¬ t.InForce := by decide +kernel
    obtain ⟨t, hrun, hlost⟩ := hend
    exact hlost (hall start t _ hstart hrun)
  · intro hall
    have hend : machine.Ends start [.readsRow, .launches 0, .reads { memoryMib := some 4096 },
        .plans 0, .writes 0, .attaches] fun t => ¬ Flagged t.process t.row := by decide +kernel
    obtain ⟨t, hrun, hlost⟩ := hend
    exact hlost (hall start t _ hstart hrun)

end CraftPanel.Settings.Editing
