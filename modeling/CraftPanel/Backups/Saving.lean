import CraftPanel.Framework.Moving
import CraftPanel.Backups.Quiesce

/-!
# Saving is switched back on

`save-on` goes to the link the guard was taken on. As long as no connection ends between the
delivery of `save-off` and that of `save-on`, and no `save-on` is refused on an open one, every
process that has saving off has `save-on` on its way: in its connection, or in the hands of a
guard on that connection.
-/

namespace CraftPanel.Backups

open Framework

def savingOff (commands : List Command) : Bool :=
  commands.foldl (fun off command => match command with
    | .saveOff => true
    | .saveOn => false
    | .saveFlush => off) false

@[simp] theorem savingOff_saveOn (l : List Command) : savingOff (l ++ [.saveOn]) = false := by
  simp [savingOff]

@[simp] theorem savingOff_saveFlush (l : List Command) :
    savingOff (l ++ [.saveFlush]) = savingOff l := by
  simp [savingOff]

/-- Some task is going to say `save-on` on the link. -/
def Owed (tasks : List Task) (k : Nat) : Prop := ∃ task ∈ tasks, task.restores = some k

namespace System

variable (s : System)

def path (p : Nat) : List Command :=
  (s.processes p).received ++ match (s.processes p).connection with
    | some k => (s.connections k).wire ++ (s.connections k).outbox
    | none => []

def isOff (p : Nat) : Bool := (s.processes p).alive && savingOff (s.processes p).received

/-- `save-on` is owed on the open connection of the process. -/
def isHeld (p : Nat) : Prop :=
  ∃ k, (s.processes p).connection = some k ∧ Owed s.tasks k

/-- Nothing is going on: no guard and no command under way. -/
def atRest : Prop :=
  s.tasks = [] ∧ ∀ k, (s.connections k).outbox = [] ∧ (s.connections k).wire = []

end System

/-- Saving that was switched off is on its way to be switched on, and is on once nothing is under
way any more. -/
structure Restored (s : System) : Prop where
  underWay : ∀ p, s.isOff p = true → savingOff (s.path p) = false ∨ s.isHeld p
  restored : s.atRest → ∀ p, s.isOff p = false

/-- No connection ends, and the panel does not stop, while the process at its other end has
saving off; and `save-on` is not refused on the open connection of a process that runs. -/
def KeepsWay (s : System) : Event → Prop
  | .closes k => s.isOff (s.connections k).process = false
  | .speaks i taken => taken = false → ∀ task ∈ s.tasks[i]?, ∀ k ∈ task.restores,
      s.isOpen k = true → (s.processes (s.connections k).process).alive = false
  | .panelStops => ∀ p < s.spawned, (s.processes p).alive = true →
      savingOff ((s.processes p).received ++ (s.processes p).connection.elim []
        fun k => (s.connections k).wire) = false
  | _ => True

instance (s : System) : ∀ e, Decidable (KeepsWay s e)
  | .closes _ => inferInstanceAs (Decidable (_ = _))
  | .speaks i _ => inferInstanceAs (Decidable (_ → ∀ task ∈ s.tasks[i]?, ∀ k ∈ task.restores, _ → _))
  | .panelStops => inferInstanceAs (Decidable (∀ p < s.spawned, _ → _))
  | .spawns | .attaches _ | .detaches _ | .writes _ | .reads _ | .exits _ | .absorbsExit _
  | .takes | .drops _ | .rowChanges _ | .panelStarts | .recovers | .sweepFinds _
  | .sweepGivesUp _ => isTrue trivial

structure Inv (s : System) : Prop where
  known : ∀ p, (s.processes p).alive = true → p < s.spawned
  owner : ∀ p k, (s.processes p).connection = some k →
    (s.connections k).process = p ∧ k < s.opened
  held : ∀ p, (s.processes p).alive = true → savingOff (s.path p) = true → s.isHeld p

section Steps

variable {s t : System} {k p : Nat}

theorem Inv.isOpen_of_connection (hinv : Inv s)
    (h : (s.processes p).connection = some k) : s.isOpen k = true := by
  simp [System.isOpen, (hinv.owner p k h).1, h]

theorem path_setConnection_ne {c : Connection}
    (h : (s.processes p).connection ≠ some k) : (s.setConnection k c).path p = s.path p := by
  unfold System.path
  cases hp : (s.processes p).connection with
  | none => simp [System.setConnection, hp]
  | some j =>
    have hj : j ≠ k := fun hjk => h (hjk ▸ hp)
    simp [System.setConnection, hp, hj]

theorem path_setConnection_self {c : Connection}
    (h : (s.processes p).connection = some k) :
    (s.setConnection k c).path p = (s.processes p).received ++ (c.wire ++ c.outbox) := by
  simp [System.path, System.setConnection, h]

theorem path_eq (h : (s.processes p).connection = some k) :
    s.path p = (s.processes p).received ++ ((s.connections k).wire ++ (s.connections k).outbox) := by
  simp [System.path, h]

variable {i : Nat}

theorem Owed.set {tasks : List Task} {a b : Task} (h : Owed tasks k)
    (ha : tasks[i]? = some a) (hab : a.restores = some k → b.restores = some k) :
    Owed (tasks.set i b) k := exists_mem_set ha hab h

theorem owed_set_self {tasks : List Task} {a b : Task} (ha : tasks[i]? = some a)
    (hb : b.restores = some k) : Owed (tasks.set i b) k := ⟨b, mem_set_self ha b, hb⟩

theorem Owed.eraseIdx {tasks : List Task} {a : Task} (h : Owed tasks k)
    (ha : tasks[i]? = some a) (hne : a.restores ≠ some k) : Owed (tasks.eraseIdx i) k :=
  exists_mem_eraseIdx ha hne h

theorem Owed.append {tasks : List Task} (h : Owed tasks k) (task : Task) :
    Owed (tasks ++ [task]) k := by
  obtain ⟨other, hmem, hrestores⟩ := h
  exact ⟨other, List.mem_append_left _ hmem, hrestores⟩

/-- A step that changes no process: where saving is off behind a connection, either it was so
before and what was owed on the connection still is, or `save-on` is owed on it now. -/
theorem inv_of_processes (hinv : Inv s) (hprocesses : t.processes = s.processes)
    (hspawned : t.spawned = s.spawned) (hopened : t.opened = s.opened)
    (howner : ∀ k, (t.connections k).process = (s.connections k).process)
    (hheld : ∀ p k, (s.processes p).alive = true → (s.processes p).connection = some k →
      savingOff (t.path p) = true →
        (savingOff (s.path p) = true ∧ (Owed s.tasks k → Owed t.tasks k)) ∨ Owed t.tasks k) :
    Inv t := by
  refine ⟨fun p hp => hspawned ▸ hinv.known p (hprocesses ▸ hp), fun p k hk => ?_,
    fun p hp hoff => ?_⟩
  · rw [howner, hopened]
    exact hinv.owner p k (hprocesses ▸ hk)
  have hp' : (s.processes p).alive = true := hprocesses ▸ hp
  cases hconn : (s.processes p).connection with
  | none =>
    have hpath : t.path p = s.path p := by simp [System.path, hprocesses, hconn]
    obtain ⟨k, hk, -⟩ := hinv.held p hp' (hpath ▸ hoff)
    simp [hconn] at hk
  | some k =>
    refine ⟨k, by rw [hprocesses, hconn], ?_⟩
    rcases hheld p k hp' hconn hoff with ⟨hoff', howed⟩ | howed
    · obtain ⟨j, hj, hold⟩ := hinv.held p hp' hoff'
      obtain rfl : j = k := by simpa [hconn] using hj.symm
      exact howed hold
    · exact howed

theorem inv_of_tasks (hinv : Inv s) (hprocesses : t.processes = s.processes)
    (hconnections : t.connections = s.connections) (hspawned : t.spawned = s.spawned)
    (hopened : t.opened = s.opened) (howed : ∀ k, Owed s.tasks k → Owed t.tasks k) : Inv t :=
  inv_of_processes hinv hprocesses hspawned hopened (fun k => by rw [hconnections])
    fun p k _ _ hoff => .inl ⟨by simpa [System.path, hprocesses, hconnections] using hoff, howed k⟩

/-- A step of one process, which leaves the others and the connections they have alone. -/
theorem inv_of_process (q : Nat) (hinv : Inv s) (htasks : t.tasks = s.tasks)
    (hsame : ∀ p, p ≠ q → t.processes p = s.processes p)
    (hother : ∀ p j, p ≠ q → (s.processes p).connection = some j →
      t.connections j = s.connections j)
    (hspawned : s.spawned ≤ t.spawned) (hopened : s.opened ≤ t.opened)
    (hknown : (t.processes q).alive = true → q < t.spawned)
    (howner : ∀ j, (t.processes q).connection = some j →
      (t.connections j).process = q ∧ j < t.opened)
    (hheld : (t.processes q).alive = true → savingOff (t.path q) = true → t.isHeld q) : Inv t := by
  refine ⟨fun p hp => ?_, fun p j hj => ?_, fun p hp hoff => ?_⟩ <;>
    rcases Decidable.eq_or_ne p q with rfl | hpq
  · exact hknown hp
  · exact Nat.lt_of_lt_of_le (hinv.known p (hsame p hpq ▸ hp)) hspawned
  · exact howner j hj
  · rw [hsame p hpq] at hj
    rw [hother p j hpq hj]
    exact ⟨(hinv.owner p j hj).1, Nat.lt_of_lt_of_le (hinv.owner p j hj).2 hopened⟩
  · exact hheld hp hoff
  have hpath : t.path p = s.path p := by
    rw [System.path, System.path, hsame p hpq]
    cases hconn : (s.processes p).connection with
    | none => rfl
    | some j => simp only [hother p j hpq hconn]
  obtain ⟨j, hj, howed⟩ := hinv.held p (hsame p hpq ▸ hp) (hpath ▸ hoff)
  exact ⟨j, by rw [hsame p hpq, hj], htasks ▸ howed⟩

theorem inv_writes (hinv : Inv s) (h : s.writes k = some t) : Inv t := by
  simp only [System.writes] at h
  split at h
  · rename_i command outbox houtbox
    cases h
    refine inv_of_processes hinv rfl rfl rfl (fun j => ?_) fun p j _ hj hoff => .inl ⟨?_, id⟩
    · simp only [System.setConnection, Function.update_apply]
      split
      · rename_i hjk
        rw [hjk]
        split <;> rfl
      · rfl
    · by_cases hjk : (s.processes p).connection = some k
      · rw [path_setConnection_self hjk, if_pos (hinv.isOpen_of_connection hjk)] at hoff
        rw [path_eq hjk, houtbox]
        simpa using hoff
      · rwa [path_setConnection_ne hjk] at hoff
  · simp at h

theorem inv_detaches (hinv : Inv s) (h : s.detaches k = some t) : Inv t := by
  simp only [System.detaches] at h
  split at h
  · simp at h
  rename_i hclosed
  cases h
  refine inv_of_processes hinv rfl rfl rfl (fun j => ?_) fun p j _ hj hoff => .inl ⟨?_, id⟩
  · simp only [System.setConnection, Function.update_apply]
    split
    · rename_i hjk
      rw [hjk]
    · rfl
  have hne : (s.processes p).connection ≠ some k := fun hk =>
    hclosed (hinv.isOpen_of_connection hk)
  have hpath := path_setConnection_ne (s := s)
    (c := { s.connections k with listening := false, outbox := [] }) hne
  rw [← hpath]
  exact hoff

theorem say_some {command : Command} {taken : Bool} (h : s.say k command taken = some t) :
    t = if taken then s.setConnection k
      { s.connections k with outbox := (s.connections k).outbox ++ [command] } else s := by
  simp only [System.say] at h
  split at h
  · exact ((Option.some.injEq _ _).mp h).symm
  · simp at h

theorem path_say {command : Command} :
    (s.setConnection k
      { s.connections k with outbox := (s.connections k).outbox ++ [command] }).path p =
      if (s.processes p).connection = some k then s.path p ++ [command] else s.path p := by
  split
  · rename_i hk
    rw [path_setConnection_self hk, path_eq hk]
    simp
  · rename_i hk
    exact path_setConnection_ne hk

theorem owner_say {k j : Nat} {command : Command} :
    ((s.setConnection k
      { s.connections k with outbox := (s.connections k).outbox ++ [command] }).connections j).process =
      (s.connections j).process := by
  simp only [System.setConnection, Function.update_apply]
  split
  · rename_i hjk
    rw [hjk]
  · rfl

theorem inv_speaks {taken : Bool} (hinv : Inv s) (hok : KeepsWay s (.speaks i taken))
    (h : s.speaks i taken = some t) : Inv t := by
  simp only [System.speaks] at h
  split at h
  · rename_i k htask
    obtain ⟨u, hu, rfl⟩ := Option.map_eq_some_iff.mp h
    obtain rfl := say_some hu
    cases taken with
    | false =>
      refine inv_of_tasks hinv rfl rfl rfl rfl fun j howed => howed.eraseIdx htask ?_
      simp [Task.restores]
    | true =>
      refine inv_of_processes hinv rfl rfl rfl (fun j => owner_say) fun p j _ hj hoff => ?_
      change savingOff ((s.setConnection k _).path p) = true at hoff
      rw [path_say] at hoff
      by_cases hjk : j = k
      · exact .inr (hjk ▸ owed_set_self htask rfl)
      · have hne : (s.processes p).connection ≠ some k := by simpa [hj] using hjk
        rw [if_neg hne] at hoff
        exact .inl ⟨hoff, fun howed => howed.set htask (by simp [Task.restores])⟩
  · rename_i k htask
    obtain ⟨u, hu, rfl⟩ := Option.map_eq_some_iff.mp h
    obtain rfl := say_some hu
    have howed : ∀ j, Owed s.tasks j → Owed (s.tasks.set i (.holds k)) j := fun j howed =>
      howed.set htask fun hj => hj
    cases taken with
    | false => exact inv_of_tasks hinv rfl rfl rfl rfl howed
    | true =>
      refine inv_of_processes hinv rfl rfl rfl (fun j => owner_say) fun p j _ hj hoff =>
        .inl ⟨?_, howed j⟩
      change savingOff ((s.setConnection k _).path p) = true at hoff
      rw [path_say] at hoff
      split at hoff
      · simpa using hoff
      · exact hoff
  · rename_i k htask
    obtain ⟨u, hu, rfl⟩ := Option.map_eq_some_iff.mp h
    obtain rfl := say_some hu
    have herase : ∀ j, j ≠ k → Owed s.tasks j → Owed (s.tasks.eraseIdx i) j := fun j hjk howed =>
      howed.eraseIdx htask (by simpa [Task.restores] using fun hkj => hjk hkj.symm)
    cases taken with
    | false =>
      refine inv_of_processes hinv rfl rfl rfl (fun j => rfl) fun p j hp hj hoff => .inl ⟨hoff, ?_⟩
      by_cases hjk : j = k
      · -- refused on an open connection: its process does not run
        subst hjk
        have hdead := hok rfl (.owes j) (by simp [htask]) j rfl (hinv.isOpen_of_connection hj)
        rw [(hinv.owner p j hj).1] at hdead
        simp [hp] at hdead
      · exact herase j hjk
    | true =>
      refine inv_of_processes hinv rfl rfl rfl (fun j => owner_say) fun p j _ hj hoff => ?_
      change savingOff ((s.setConnection k _).path p) = true at hoff
      rw [path_say] at hoff
      split at hoff
      · simp at hoff
      · rename_i hne
        exact .inl ⟨hoff, herase j fun hjk => hne (hjk ▸ hj)⟩
  · simp at h

theorem Inv.other (hinv : Inv s) {p j k : Nat} (hp : p ≠ (s.connections k).process)
    (hj : (s.processes p).connection = some j) : j ≠ k := by
  rintro rfl
  exact hp (hinv.owner p j hj).1.symm

theorem inv_reads (hinv : Inv s) (h : s.reads k = some t) : Inv t := by
  simp only [System.reads] at h
  split at h
  · rename_i command wire hopen hwire
    cases h
    have hconn : (s.processes (s.connections k).process).connection = some k := by
      simpa [System.isOpen] using hopen
    refine inv_of_process (s.connections k).process hinv rfl
      (fun p hp => by simp [System.setProcess, System.setConnection, hp])
      (fun p j hp hj => by simp [System.setProcess, System.setConnection, hinv.other hp hj])
      (Nat.le_refl _) (Nat.le_refl _) (fun hp => ?_) (fun j hj => ?_) fun hp hoff => ?_
    · simp only [System.setProcess, System.setConnection, Function.update_self] at hp
      exact hinv.known _ (by split at hp <;> exact hp)
    · have hj' : (s.processes (s.connections k).process).connection = some j := by
        simp only [System.setProcess, System.setConnection, Function.update_self] at hj
        split at hj <;> exact hj
      obtain rfl : j = k := by simpa [hconn] using hj'.symm
      simp [System.setProcess, System.setConnection, (hinv.owner _ j hconn).2]
    simp only [System.setProcess, System.setConnection, Function.update_self] at hp
    have halive : (s.processes (s.connections k).process).alive = true := by
      split at hp
      · exact ‹_›
      · exact hp
    have hoff' : savingOff (s.path (s.connections k).process) = true := by
      rw [path_eq hconn, hwire]
      simpa [System.path, System.setProcess, System.setConnection, halive, hconn] using hoff
    obtain ⟨j, hj, howed⟩ := hinv.held _ halive hoff'
    refine ⟨j, ?_, howed⟩
    simp [System.setProcess, System.setConnection, halive, hj]
  · simp at h

theorem inv_closes (hinv : Inv s) (hok : s.isOff (s.connections k).process = false)
    (h : s.closes k = some t) : Inv t := by
  simp only [System.closes] at h
  split at h
  · cases h
    refine inv_of_process (s.connections k).process hinv rfl
      (fun p hp => by simp [System.setProcess, System.setConnection, hp])
      (fun p j hp hj => by simp [System.setProcess, System.setConnection, hinv.other hp hj])
      (Nat.le_refl _) (Nat.le_refl _) (fun hp => ?_) (fun j hj => ?_) fun hp hoff => ?_
    · exact hinv.known _ (by simpa [System.setProcess, System.setConnection] using hp)
    · simp [System.setProcess, System.setConnection] at hj
    · simp only [System.setProcess, System.setConnection, Function.update_self] at hp
      simp [System.path, System.setProcess, System.setConnection] at hoff
      simp [System.isOff, hp, hoff] at hok
  · simp at h

theorem inv_attaches {q : Nat} (hinv : Inv s) (h : s.attaches q = some t) : Inv t := by
  simp only [System.attaches] at h
  split at h
  · rename_i hguard
    simp only [Bool.and_eq_true, decide_eq_true_eq, Option.isNone_iff_eq_none] at hguard
    cases h
    refine inv_of_process q hinv rfl (fun p hp => by simp [hp]) (fun p j _ hj => ?_) (Nat.le_refl _)
      (Nat.le_succ _) (fun _ => hguard.1.2) (fun j hj => ?_) fun hp hoff => ?_
    · simp [Nat.ne_of_lt (hinv.owner p j hj).2]
    · simp only [Function.update_self] at hj
      cases hj
      simp
    have hp' : (s.processes q).alive = true := by simpa using hp
    have hoff' : savingOff (s.path q) = true := by
      simpa [System.path, hguard.2] using hoff
    obtain ⟨j, hj, -⟩ := hinv.held q hp' hoff'
    simp [hguard.2] at hj
  · simp at h

theorem inv_spawns (hinv : Inv s) (h : s.step .spawns = some t) : Inv t := by
  cases h
  refine inv_of_process s.spawned hinv rfl (fun p hp => by simp [System.setProcess, hp])
    (fun _ _ _ _ => rfl) (Nat.le_succ _) (Nat.le_refl _) (fun _ => Nat.lt_succ_self _) (fun j hj => ?_)
    fun _ hoff => ?_
  · simp [System.setProcess] at hj
  · simp [System.path, System.setProcess, savingOff] at hoff

theorem inv_exits {q : Nat} (hinv : Inv s) (h : s.step (.exits q) = some t) : Inv t := by
  cases h
  refine inv_of_process q hinv rfl (fun p hp => by simp [System.setProcess, hp])
    (fun _ _ _ _ => rfl) (Nat.le_refl _) (Nat.le_refl _) (fun hp => ?_)
    (fun j hj => hinv.owner q j (by simpa [System.setProcess] using hj)) fun hp _ => ?_
  · simp [System.setProcess] at hp
  · simp [System.setProcess] at hp

theorem inv_panelStops (hinv : Inv s) (hok : KeepsWay s .panelStops)
    (h : s.step .panelStops = some t) : Inv t := by
  cases h
  refine ⟨hinv.known, fun p j hj => hinv.owner p j hj, fun p hp hoff => ?_⟩
  have hon := hok p (hinv.known p hp) hp
  simp only [System.path] at hoff
  cases hconn : (s.processes p).connection with
  | none => simp_all
  | some k => simp_all

theorem inv_step {e : Event} (hinv : Inv s) (hok : KeepsWay s e) (h : s.step e = some t) :
    Inv t := by
  cases e with
  | spawns => exact inv_spawns hinv h
  | attaches p => exact inv_attaches hinv h
  | closes k => exact inv_closes hinv hok h
  | detaches k => exact inv_detaches hinv h
  | writes k => exact inv_writes hinv h
  | reads k => exact inv_reads hinv h
  | exits p => exact inv_exits hinv h
  | speaks i taken => exact inv_speaks hinv hok h
  | panelStops => exact inv_panelStops hinv hok h
  | absorbsExit k =>
    simp only [System.step] at h
    split at h
    · simp at h
    cases h
    refine inv_of_processes hinv rfl rfl rfl (fun j => ?_) fun p j _ hj hoff => .inl ⟨?_, id⟩
    · simp only [System.setConnection, Function.update_apply]
      split
      · rename_i hjk
        rw [hjk]
      · rfl
    · by_cases hk : (s.processes p).connection = some k
      · rwa [path_setConnection_self hk, ← path_eq hk] at hoff
      · rwa [path_setConnection_ne hk] at hoff
  | takes =>
    obtain ⟨k, -, rfl⟩ := Option.map_eq_some_iff.mp h
    exact inv_of_tasks hinv rfl rfl rfl rfl fun j howed => howed.append _
  | drops i =>
    simp only [System.step] at h
    split at h
    · rename_i k htask
      cases h
      exact inv_of_tasks hinv rfl rfl rfl rfl fun j howed => howed.set htask id
    · rename_i k htask
      cases h
      exact inv_of_tasks hinv rfl rfl rfl rfl fun j howed => howed.set htask id
    · simp at h
  | rowChanges isOpen | panelStarts =>
    cases h
    exact inv_of_tasks hinv rfl rfl rfl rfl fun j howed => howed
  | recovers =>
    simp only [System.step] at h
    split at h
    · cases h
      refine inv_of_tasks hinv rfl rfl rfl rfl fun j howed => ?_
      simp only
      split
      · exact howed.append _
      · exact howed
    · simp at h
  | sweepFinds i =>
    simp only [System.step] at h
    split at h
    · rename_i k htask hlink
      cases h
      exact inv_of_tasks hinv rfl rfl rfl rfl fun j howed => howed.set htask (by simp [Task.restores])
    · simp at h
  | sweepGivesUp i =>
    simp only [System.step] at h
    split at h
    · rename_i htask
      cases h
      exact inv_of_tasks hinv rfl rfl rfl rfl fun j howed =>
        howed.eraseIdx htask (by simp [Task.restores])
    · simp at h

end Steps

theorem inv_init : Inv {} := ⟨by simp, by simp, by simp⟩

theorem Inv.restored {s : System} (hinv : Inv s) : Restored s := by
  have hway : ∀ p, s.isOff p = true → savingOff (s.path p) = false ∨ s.isHeld p := by
    intro p hoff
    simp only [System.isOff, Bool.and_eq_true] at hoff
    cases hpath : savingOff (s.path p) with
    | false => exact .inl rfl
    | true => exact .inr (hinv.held p hoff.1 hpath)
  refine ⟨hway, fun hrest p => ?_⟩
  by_contra hoff
  have hoff' : s.isOff p = true := by simpa using hoff
  rcases hway p hoff' with hon | ⟨k, -, task, htask, -⟩
  · have hpath : s.path p = (s.processes p).received := by
      unfold System.path
      split
      · rename_i k hk
        simp [hrest.2 k]
      · simp
    rw [hpath] at hon
    simp [System.isOff, hon] at hoff'
  · simp [hrest.1] at htask

/-- A backup begins on an attached process, which has `save-off` from it. -/
def heldRun : List Event :=
  [.spawns, .attaches 0, .takes, .speaks 0 true, .writes 0, .reads 0, .speaks 0 true, .writes 0,
    .reads 0]

def releasedRun : List Event := heldRun ++ [.drops 0, .speaks 0 true, .writes 0, .reads 0]

/-- The supervisor reconnects during the backup; the guard sends `save-on` on the link it was taken
on, and the process keeps running without saving. -/
def reattachedRun : List Event :=
  heldRun ++ [Event.closes 0, .detaches 0, .attaches 0, .drops 0, .speaks 0 false]

end CraftPanel.Backups
