import CraftPanel.Settings.Overrides

/-!
# The primary port in server.properties

The keys that the panel owns have the port of the primary allocation in the file, or a request is
still to write it. What a request puts in place has the ports of what it read or of its own rows,
and whether these are the primary's yet nobody looks.
-/

namespace CraftPanel.Settings.Overrides

open Framework

/-- What a statement will have brought into the file, with the primary port as it is. -/
def Statement.writes (primary : Nat) : Statement → List Override
  | .renames wanted _ => wanted
  | .readsPrimary => portOverrides primary
  | _ => []

namespace System

variable (s : System)

def portText : Option Text := some (Nat.toDigits 10 s.primary)

def WritesPort (key : Text) : Prop :=
  Owed (Statement.writes s.primary) s.tasks key s.portText

def PortHolds (key : Text) : Prop :=
  s.WritesPort key ∨ s.disk.file.get key = s.portText

/-- The ports are right without the rest of a request. -/
def SparesPorts (k : Nat) (task : Task) (rest : List Statement) : Prop :=
  ∀ key ∈ PANEL_OWNED, (s.put k { task with rest }).PortHolds key

def KeepsAt (k : Nat) (task : Task) (tail : List Statement) : Statement → Prop
  | .creates => (s.disk.dirs task.dir).scratch = none ∨ s.SparesPorts k task []
  | .fills _ => (s.disk.dirs s.disk.here).main ≠ some task.node
  | .renames wanted _ =>
    if (s.disk.dirs task.dir).scratch = none then s.SparesPorts k task [.discards]
    else if task.dir = s.disk.here then
      (s.disk.dirs task.dir).scratch.map s.disk.nodes = some (task.read.apply wanted) ∧
      ∀ key ∈ PANEL_OWNED, (s.put k { task with rest := tail }).WritesPort key ∨
        (named wanted key).getD (task.read.get key) = s.portText
    else s.SparesPorts k task tail
  | _ => True

def Keeps (s : System) : Event → Prop
  | .runs k => ∀ task ∈ s.tasks[k]?, ∀ statement ∈ task.rest.head?,
    s.KeepsAt k task task.rest.tail statement
  | .fails k => ∀ task ∈ s.tasks[k]?, s.SparesPorts k task (afterFailure task.rest)
  | .rewrites => ∀ held ∈ s.game, ∀ key ∈ PANEL_OWNED, s.WritesPort key ∨ held.get key = s.portText
  | .edits row => row.1 ∈ PANEL_OWNED → s.WritesPort row.1 ∨ row.2 = s.portText
  | .restores content => ∀ key ∈ PANEL_OWNED, s.WritesPort key ∨ content.get key = s.portText
  | _ => True

section Decidable

variable (key : Text) (k : Nat) (task : Task) (rest tail : List Statement)

instance : Decidable (s.WritesPort key) := inferInstanceAs (Decidable (Owed ..))

instance : Decidable (s.PortHolds key) := inferInstanceAs (Decidable (_ ∨ _))

instance : Decidable (s.SparesPorts k task rest) :=
  inferInstanceAs (Decidable (∀ key ∈ PANEL_OWNED, _))

instance decidableKeepsAt : ∀ statement, Decidable (s.KeepsAt k task tail statement)
  | .creates => inferInstanceAs (Decidable (_ ∨ _))
  | .fills _ => inferInstanceAs (Decidable (_ ≠ _))
  | .renames _ _ => inferInstanceAs (Decidable (ite ..))
  | .asksRunning _ | .readsQueue | .readsFile _ | .unlinks | .discards | .deletesQueue | .queues _
  | .swaps _ | .asksToQueue _ | .readsPrimary | .clears => isTrue trivial

instance decidableKeeps : ∀ event, Decidable (s.Keeps event)
  | .runs k => inferInstanceAs (Decidable (∀ task ∈ s.tasks[k]?, _))
  | .fails k => inferInstanceAs (Decidable (∀ task ∈ s.tasks[k]?, _))
  | .rewrites => inferInstanceAs (Decidable (∀ held ∈ s.game, _))
  | .edits _ => inferInstanceAs (Decidable (_ → _))
  | .restores _ => inferInstanceAs (Decidable (∀ key ∈ PANEL_OWNED, _))
  | .patches _ | .makesPrimary _ | .installs _ | .starts | .attaches | .detaches | .stops =>
    isTrue trivial

end Decidable

variable {s} {t : System} {k : Nat} {task next : Task} {statement : Statement}
  {tail : List Statement} {key : Text} {wanted : List Override}

theorem named_portOverrides (port : Nat) (h : key ∈ PANEL_OWNED) :
    named (portOverrides port) key = some (some (Nat.toDigits 10 port)) := by
  simp only [PANEL_OWNED, List.mem_cons, List.not_mem_nil, or_false] at h
  rcases h with rfl | rfl
  · rfl
  · rfl

theorem PortHolds.goOn (h : s.PortHolds key) (hk : s.tasks[k]? = some task)
    (htasks : t.tasks = s.tasks.set k next) (hprimary : t.primary = s.primary)
    (hfile : t.disk.file = s.disk.file)
    (hrest : Owes (Statement.writes s.primary) task.rest key s.portText →
      Owes (Statement.writes s.primary) next.rest key s.portText) : t.PortHolds key := by
  unfold PortHolds WritesPort portText at h ⊢
  rw [htasks, hprimary, hfile]
  exact h.imp_left fun howed => howed.set hk hrest

theorem writes_of_rest (hrest : task.rest = statement :: tail)
    (hwrites : statement.writes s.primary = [])
    (h : Owes (Statement.writes s.primary) task.rest key s.portText) :
    Owes (Statement.writes s.primary) tail key s.portText := by
  rw [hrest] at h
  apply owes_tail h
  rw [hwrites]
  exact nofun

theorem portHolds_of_owes (hk : s.tasks[k]? = some task) (hkey : key ∈ PANEL_OWNED)
    (htasks : t.tasks = s.tasks.set k next)
    (hnext : ∃ statement ∈ next.rest, statement.writes t.primary = portOverrides t.primary) :
    t.PortHolds key := by
  left
  obtain ⟨writing, hwriting, hrows⟩ := hnext
  unfold WritesPort
  rw [htasks]
  apply Owed.of_set hk
  refine ⟨writing, hwriting, ?_⟩
  rw [hrows]
  exact named_portOverrides t.primary hkey

theorem PortHolds.execute (h : s.PortHolds key) (hkey : key ∈ PANEL_OWNED)
    (hk : s.tasks[k]? = some task) (hrest : task.rest = statement :: tail)
    (hkeeps : s.KeepsAt k task tail statement) :
    (s.execute k task tail statement).PortHolds key := by
  cases statement with
  | asksRunning wanted =>
    refine h.goOn hk rfl rfl rfl ?_
    intro howes
    exact owes_append.mpr (.inr (writes_of_rest hrest rfl howes))
  | readsQueue =>
    refine h.goOn hk rfl rfl rfl ?_
    intro howes
    exact owes_append.mpr (.inr (writes_of_rest hrest rfl howes))
  | readsFile orDefault => exact h.goOn hk rfl rfl rfl (writes_of_rest hrest rfl)
  | unlinks => exact h.goOn hk rfl rfl Disk.file_unlink (writes_of_rest hrest rfl)
  | creates =>
    simp only [System.execute]
    split
    · next hnone =>
      rcases hkeeps with hscratch | hspares
      · simp [Disk.create, hscratch] at hnone
      · exact hspares key hkey
    · next disk hdisk =>
      exact h.goOn hk rfl rfl (Disk.file_create hdisk) (writes_of_rest hrest rfl)
  | fills wanted => exact h.goOn hk rfl rfl (Disk.file_fill hkeeps) (writes_of_rest hrest rfl)
  | renames wanted edits =>
    simp only [KeepsAt] at hkeeps
    simp only [System.execute]
    split
    · next hnone =>
      rw [if_pos (Disk.rename_eq_none_iff.mp hnone)] at hkeeps
      exact hkeeps key hkey
    next disk hdisk =>
    rw [if_neg (Disk.scratch_ne_none hdisk)] at hkeeps
    split at hkeeps
    · next hhere =>
      obtain ⟨hcontent, hports⟩ := hkeeps
      rw [hhere] at hdisk hcontent
      refine (hports key hkey).imp_right ?_
      intro hport
      show disk.file.get key = _
      rw [Disk.file_rename hdisk hcontent, get_apply]
      exact hport
    · next hhere =>
      refine (hkeeps key hkey).imp_right ?_
      intro hholds
      show disk.file.get key = _
      rw [Disk.file_rename_ne hdisk hhere]
      exact hholds
  | discards => exact h.goOn hk rfl rfl Disk.file_unlink (writes_of_rest hrest rfl)
  | deletesQueue => exact h.goOn hk rfl rfl rfl (writes_of_rest hrest rfl)
  | queues row => exact h.goOn hk rfl rfl rfl (writes_of_rest hrest rfl)
  | swaps port =>
    refine portHolds_of_owes hk hkey rfl ?_
    exact ⟨.renames (portOverrides port) false, by simp [makePrimary, intoPlace], rfl⟩
  | asksToQueue wanted =>
    refine h.goOn hk rfl rfl rfl ?_
    intro howes
    exact owes_append.mpr (.inr (writes_of_rest hrest rfl howes))
  | readsPrimary =>
    refine portHolds_of_owes hk hkey rfl ?_
    exact ⟨.renames (portOverrides s.primary) false, by simp [writeConfig, intoPlace], rfl⟩
  | clears => exact portHolds_of_owes hk hkey rfl ⟨.readsPrimary, List.mem_cons_self, rfl⟩

theorem PortHolds.begins (h : s.PortHolds key) (statement : Statement) :
    (s.begins statement).PortHolds key := by
  refine h.imp_left ?_
  intro howed
  exact howed.begin

theorem PortHolds.step {event : Event} (h : s.PortHolds key) (hkey : key ∈ PANEL_OWNED)
    (hkeeps : s.Keeps event) (hstep : s.step event = some t) : t.PortHolds key := by
  cases event with
  | patches wanted =>
    simp only [System.step] at hstep
    split at hstep
    · cases hstep
      exact h.begins _
    · cases hstep
      exact h
  | makesPrimary port =>
    cases hstep
    exact h.begins _
  | installs wipeEverything =>
    cases hstep
    exact h.begins _
  | runs k =>
    obtain ⟨task, statement, tail, hk, hrest, rfl⟩ := runs_cases hstep
    have hkeeps := hkeeps task hk statement (by rw [hrest]; rfl)
    rw [hrest] at hkeeps
    exact h.execute hkey hk hrest hkeeps
  | fails k =>
    obtain ⟨task, hk, rfl⟩ := fails_cases hstep
    have hlength : k < s.tasks.length := (List.getElem?_eq_some_iff.mp hk).1
    exact (hkeeps task hk key hkey).goOn (List.getElem?_set_self hlength) (List.set_set _).symm
      rfl rfl id
  | starts =>
    simp only [System.step] at hstep
    split at hstep
    · cases hstep
    · cases hstep
      exact h
  | attaches =>
    simp only [System.step] at hstep
    split at hstep
    · cases hstep
      exact h
    · cases hstep
  | detaches =>
    cases hstep
    exact h
  | rewrites =>
    obtain ⟨held, hheld, rfl⟩ := Option.map_eq_some_iff.mp hstep
    refine (hkeeps held hheld key hkey).imp_right ?_
    intro hport
    show (s.disk.overwrite held).file.get key = _
    rw [Disk.file_overwrite]
    exact hport
  | stops =>
    cases hstep
    exact h
  | edits row =>
    simp only [System.step] at hstep
    split at hstep
    · cases hstep
    cases hstep
    unfold PortHolds
    have hfile : (s.disk.overwrite (s.disk.file.applyOne row)).file.get key =
        (named [row] key).getD (s.disk.file.get key) := by
      rw [Disk.file_overwrite]
      exact get_applyOne
    by_cases hsame : row.1 = key
    · subst hsame
      refine (hkeeps hkey).imp_right ?_
      intro hport
      refine hfile.trans ?_
      simp [named_cons, hport, portText]
    have hnamed : named [row] key = none := by simp [named_cons, hsame]
    refine h.imp_right ?_
    intro hholds
    refine hfile.trans ?_
    rw [hnamed, Option.getD_none]
    exact hholds
  | restores content =>
    cases hstep
    refine (hkeeps key hkey).imp_right ?_
    intro hport
    show (s.disk.replaceDir content).file.get key = _
    rw [Disk.file_replaceDir]
    exact hport

end System

section Runs

def withPort (port : Nat) : Properties := Properties.apply {} (portOverrides port)

def oldPort : Disk := Disk.overwrite {} (withPort 25565)

/-- A swap while the server runs and another one after it has stopped, with a patch between them
that replays what is queued; then a reset. -/
def swapped : List Event :=
  comesUp ++ Event.makesPrimary 25566 :: turns 0 9 ++ [Event.stops, .detaches] ++
    Event.patches [] :: turns 1 13 ++ Event.makesPrimary 25567 :: turns 2 7 ++
    Event.installs true :: turns 3 7

def restored : List Event :=
  Event.makesPrimary 25566 :: turns 0 7 ++ [Event.restores (withPort 25565)]

/-- A swap while the server runs, another one after it has stopped, and a patch. -/
def replayed : List Event :=
  comesUp ++ Event.makesPrimary 25566 :: turns 0 9 ++ [Event.stops, .detaches] ++
    Event.makesPrimary 25567 :: turns 1 7 ++ Event.patches [] :: turns 2 13

/-- Two swaps that store their ports in one order and write them in the other. -/
def crossed : List Event :=
  Event.makesPrimary 25566 :: turns 0 1 ++ Event.makesPrimary 25567 :: turns 1 7 ++ turns 0 6

end Runs

end CraftPanel.Settings.Overrides
