import CraftPanel.Settings.Overrides

/-!
# Edits that survive

The last edit of a key is safe while the queue or a request carries it, and where nothing is queued
for the key and the file, and the running game with it, has the value. Nothing of the source keeps
it so: a file is put in place from what was read some time before, and the queue is replayed,
written and emptied without a look at what else was asked for in the meantime.
-/

namespace CraftPanel.Settings.Overrides

open Framework

def Statement.rows : Statement → List Override
  | .renames wanted _ => wanted
  | .asksToQueue wanted => wanted
  | .queues row => [row]
  | _ => []

namespace System

variable (s : System)

def Carried (key : Text) (value : Option Text) : Prop :=
  named s.queue key = some value ∨ Owed Statement.rows s.tasks key value

/-- Neither the queue nor the game knows another value. -/
def Clear (key : Text) (value : Option Text) : Prop :=
  named s.queue key = none ∧ ∀ held ∈ s.game, held.get key = value

def Safe (key : Text) : Prop :=
  s.Carried key (s.asked key) ∨
    s.Clear key (s.asked key) ∧ s.disk.file.get key = s.asked key

/-- The edits are safe without the rest of a request. -/
def Spares (k : Nat) (task : Task) (rest : List Statement) : Prop :=
  ∀ statement ∈ task.rest, ∀ row ∈ statement.rows, (s.put k { task with rest }).Safe row.1

/-- What is put in place is what the task has written, in the directory of the server. It keeps what
stands in the file under the keys it has no rows of; and of its rows none is older than the last
edit. An edit that is not to be queued finds nothing queued. -/
def Replaces (k : Nat) (task : Task) (tail : List Statement) (wanted : List Override)
    (edits : Bool) : Prop :=
  let left := { s with asked := if edits then askedBy wanted s.asked else s.asked }.put k
    { task with rest := tail }
  (task.dir = s.disk.here ∧
    (s.disk.dirs task.dir).scratch.map s.disk.nodes = some (task.read.apply wanted)) ∧
  (∀ row ∈ wanted, left.Carried row.1 (left.asked row.1) ∨
    left.Clear row.1 (left.asked row.1) ∧ named wanted row.1 = some (left.asked row.1)) ∧
  ∀ key ∈ task.read.keys ++ s.disk.file.keys, named wanted key = none →
    left.Carried key (s.asked key) ∨ task.read.get key = s.disk.file.get key

def HeedsTo (k : Nat) (task : Task) (tail : List Statement) : Statement → Prop
  | .creates => (s.disk.dirs task.dir).scratch = none ∨ s.Spares k task []
  | .fills _ => (s.disk.dirs s.disk.here).main ≠ some task.node
  | .renames wanted edits =>
    if (s.disk.dirs task.dir).scratch = none then s.Spares k task [.discards]
    else s.Replaces k task tail wanted edits
  | .deletesQueue => ∀ row ∈ s.queue,
    Owed Statement.rows (s.tasks.set k { task with rest := tail }) row.1 (s.asked row.1) ∨
      s.disk.file.get row.1 = s.asked row.1 ∧ ∀ held ∈ s.game, held.get row.1 = s.asked row.1
  | .queues row => row.2 = s.asked row.1 ∨
    Owed Statement.rows (s.tasks.set k { task with rest := tail }) row.1 (s.asked row.1)
  | .asksToQueue wanted => s.attached = false →
    ∀ row ∈ wanted, (s.put k { task with rest := tail }).Safe row.1
  | .clears => s.game = none ∧ ∀ row ∈ s.queue, s.Carried row.1 none
  | _ => True

def Heeds (s : System) : Event → Prop
  | .runs k => ∀ task ∈ s.tasks[k]?, ∀ statement ∈ task.rest.head?,
    s.HeedsTo k task task.rest.tail statement
  | .fails k => ∀ task ∈ s.tasks[k]?, s.Spares k task (afterFailure task.rest)
  | .edits row => named s.queue row.1 = none ∨ s.Carried row.1 row.2
  | .restores content =>
    s.game = none ∧ ∀ row ∈ s.queue, s.Carried row.1 (content.get row.1)
  | _ => True

section Decidable

variable (key : Text) (value : Option Text) (k : Nat) (task : Task) (rest tail : List Statement)

instance : Decidable (s.Carried key value) := inferInstanceAs (Decidable (_ ∨ _))

instance : Decidable (s.Clear key value) := inferInstanceAs (Decidable (_ ∧ _))

instance : Decidable (s.Safe key) := inferInstanceAs (Decidable (_ ∨ _))

instance : Decidable (s.Spares k task rest) :=
  inferInstanceAs (Decidable (∀ statement ∈ task.rest, _))

instance (wanted : List Override) (edits : Bool) : Decidable (s.Replaces k task tail wanted edits) :=
  inferInstanceAs (Decidable (_ ∧ _))

instance decidableHeedsTo : ∀ statement, Decidable (s.HeedsTo k task tail statement)
  | .creates | .queues _ => inferInstanceAs (Decidable (_ ∨ _))
  | .fills _ => inferInstanceAs (Decidable (_ ≠ _))
  | .renames _ _ => inferInstanceAs (Decidable (ite ..))
  | .deletesQueue => inferInstanceAs (Decidable (∀ row ∈ s.queue, _))
  | .asksToQueue _ => inferInstanceAs (Decidable (_ → _))
  | .clears => inferInstanceAs (Decidable (_ ∧ _))
  | .asksRunning _ | .readsQueue | .readsFile _ | .unlinks | .discards | .swaps _
  | .readsPrimary => isTrue trivial

instance decidableHeeds : ∀ event, Decidable (s.Heeds event)
  | .runs k => inferInstanceAs (Decidable (∀ task ∈ s.tasks[k]?, _))
  | .fails k => inferInstanceAs (Decidable (∀ task ∈ s.tasks[k]?, _))
  | .edits _ => inferInstanceAs (Decidable (_ ∨ _))
  | .restores _ => inferInstanceAs (Decidable (_ ∧ _))
  | .patches _ | .makesPrimary _ | .installs _ | .starts | .attaches | .detaches | .rewrites
  | .stops => isTrue trivial

end Decidable

variable {s} {t : System} {k : Nat} {task next : Task} {statement : Statement}
  {tail : List Statement} {key : Text} {value : Option Text} {wanted : List Override}

theorem Safe.mono (h : s.Safe key) (hqueue : t.queue = s.queue) (hgame : t.game = s.game)
    (hasked : t.asked key = s.asked key)
    (hfile : s.Clear key (s.asked key) → s.disk.file.get key = s.asked key →
      t.Carried key (s.asked key) ∨ t.disk.file.get key = s.asked key)
    (howed : Owed Statement.rows s.tasks key (s.asked key) →
      t.Carried key (s.asked key)) : t.Safe key := by
  unfold Safe
  rw [hasked]
  rcases h with (hqueued | hrequest) | ⟨hclear, hholds⟩
  · left
    left
    rwa [hqueue]
  · left
    exact howed hrequest
  rcases hfile hclear hholds with hcarried | hfile
  · left
    exact hcarried
  right
  unfold Clear at hclear ⊢
  rw [hqueue, hgame]
  exact ⟨hclear, hfile⟩

theorem Safe.goOn (h : s.Safe key) (hk : s.tasks[k]? = some task)
    (htasks : t.tasks = s.tasks.set k next) (hqueue : t.queue = s.queue)
    (hgame : t.game = s.game) (hasked : t.asked key = s.asked key)
    (hfile : t.disk.file = s.disk.file)
    (hrest : Owes Statement.rows task.rest key (s.asked key) →
      Owes Statement.rows next.rest key (s.asked key)) : t.Safe key := by
  apply h.mono hqueue hgame hasked
  · intro _ hholds
    right
    rw [hfile, hholds]
  · intro howed
    right
    rw [htasks]
    exact howed.set hk hrest

theorem owes_of_rest (hrest : task.rest = statement :: tail) (hrows : statement.rows = [])
    (h : Owes Statement.rows task.rest key value) : Owes Statement.rows tail key value := by
  rw [hrest] at h
  apply owes_tail h
  rw [hrows]
  exact nofun

theorem Safe.spared (h : s.Safe key) (hk : s.tasks[k]? = some task) {rest : List Statement}
    (hspares : s.Spares k task rest) : (s.put k { task with rest }).Safe key := by
  by_cases howes : Owes Statement.rows task.rest key (s.asked key)
  · obtain ⟨statement, hstatement, hnamed⟩ := howes
    exact hspares statement hstatement (key, s.asked key) (mem_of_named hnamed)
  · apply h.goOn (t := s.put k { task with rest }) hk rfl rfl rfl rfl rfl
    intro h
    exact absurd h howes

section Run

variable (h : s.Safe key) (hk : s.tasks[k]? = some task)

include h hk

theorem safe_of_replaces {disk : Disk} {edits : Bool} (hrest : task.rest = .renames wanted edits :: tail)
    (hdisk : s.disk.rename task.dir = some disk) (hheeds : s.Replaces k task tail wanted edits) :
    ({ s with disk, asked := if edits then askedBy wanted s.asked else s.asked }.put k
      { task with rest := tail }).Safe key := by
  obtain ⟨⟨hhere, hscratch⟩, hrows, hothers⟩ := hheeds
  rw [hhere] at hdisk hscratch
  have hfile : disk.file = task.read.apply wanted := Disk.file_rename hdisk hscratch
  cases hnamed : named wanted key with
  | some found =>
    rcases hrows _ (mem_of_named hnamed) with hcarried | ⟨hclear, hvalue⟩
    · left
      exact hcarried
    right
    refine ⟨hclear, ?_⟩
    show disk.file.get key = _
    rw [hfile, get_apply, hvalue]
    rfl
  | none =>
    have hasked : (if edits then askedBy wanted s.asked else s.asked) key = s.asked key := by
      split
      · rw [askedBy, hnamed]
        rfl
      · rfl
    refine h.mono rfl rfl hasked ?_ ?_
    · intro _ hholds
      by_cases hkeys : key ∈ task.read.keys ++ s.disk.file.keys
      · refine (hothers key hkeys hnamed).imp_right ?_
        intro hsame
        show disk.file.get key = _
        rw [hfile, get_apply, hnamed, ← hholds]
        exact hsame
      · right
        rw [List.mem_append, not_or] at hkeys
        show disk.file.get key = _
        rw [hfile, get_apply, hnamed, ← hholds, get_eq_none hkeys.2]
        exact get_eq_none hkeys.1
    · intro howed
      right
      apply howed.set hk
      intro howes
      rw [hrest] at howes
      apply owes_tail howes
      show named wanted key ≠ _
      rw [hnamed]
      exact nofun

theorem safe_of_deletesQueue (hrest : task.rest = .deletesQueue :: tail)
    (hheeds : s.HeedsTo k task tail .deletesQueue) :
    ({ s with queue := [] }.put k { task with rest := tail }).Safe key := by
  rcases h with (hqueued | howed) | ⟨hclear, hholds⟩
  · rcases hheeds _ (mem_of_named hqueued) with howed | ⟨hholds, hgame⟩
    · left
      right
      exact howed
    · right
      exact ⟨⟨rfl, hgame⟩, hholds⟩
  · left
    right
    exact howed.set hk (owes_of_rest hrest rfl)
  · right
    exact ⟨⟨rfl, hclear.2⟩, hholds⟩

theorem safe_of_queues {row : Override} (hrest : task.rest = .queues row :: tail)
    (hheeds : s.HeedsTo k task tail (.queues row)) :
    ({ s with queue := upsert s.queue row }.put k { task with rest := tail }).Safe key := by
  by_cases hkey : row.1 = key
  · subst hkey
    left
    refine hheeds.imp ?_ id
    intro hvalue
    show named (upsert s.queue row) row.1 = _
    rw [named_upsert, if_pos rfl, hvalue]
    rfl
  have hqueue : named (upsert s.queue row) key = named s.queue key := by
    rw [named_upsert, if_neg hkey]
  rcases h with (hqueued | howed) | ⟨hclear, hholds⟩
  · left
    left
    exact hqueue.trans hqueued
  · left
    right
    apply howed.set hk
    intro howes
    rw [hrest] at howes
    apply owes_tail howes
    show named [row] key ≠ _
    rw [named_eq_none_iff.mpr (by simpa using hkey)]
    exact nofun
  · right
    exact ⟨⟨hqueue.trans hclear.1, hclear.2⟩, hholds⟩

theorem safe_of_asksToQueue (hrest : task.rest = .asksToQueue wanted :: tail)
    (hheeds : s.HeedsTo k task tail (.asksToQueue wanted)) :
    (s.put k { task with
      rest := (if s.attached then wanted.map .queues else []) ++ tail }).Safe key := by
  cases hattached : s.attached with
  | true =>
    refine h.goOn hk rfl rfl rfl rfl rfl ?_
    intro howes
    rw [hrest] at howes
    refine owes_append.mpr ((owes_cons.mp howes).imp_left ?_)
    intro hnamed
    refine ⟨.queues (key, s.asked key), List.mem_map_of_mem (mem_of_named hnamed), ?_⟩
    show named [(key, s.asked key)] key = _
    simp [named_cons]
  | false =>
    by_cases hnamed : named wanted key = some (s.asked key)
    · exact hheeds hattached _ (mem_of_named hnamed)
    refine h.goOn hk rfl rfl rfl rfl rfl ?_
    intro howes
    rw [hrest] at howes
    exact owes_tail howes hnamed

omit h in
theorem safe_of_clears (hrest : task.rest = .clears :: tail)
    (hheeds : s.HeedsTo k task tail .clears) :
    ({ s with disk := s.disk.clear, asked := fun _ => none }.put k
      { task with rest := .readsPrimary :: tail }).Safe key := by
  obtain ⟨hgame, hqueue⟩ := hheeds
  cases hqueued : named s.queue key with
  | none =>
    right
    refine ⟨⟨hqueued, ?_⟩, ?_⟩
    · show ∀ held ∈ s.game, _
      rw [hgame]
      exact nofun
    · show s.disk.clear.file.get key = none
      rw [Disk.file_clear]
      rfl
  | some found =>
    left
    refine (hqueue _ (mem_of_named hqueued)).imp_right ?_
    intro howed
    apply howed.set hk
    intro howes
    exact owes_cons.mpr (.inr (owes_of_rest hrest rfl howes))

theorem safe_of_asks (hrest : task.rest = statement :: tail) (hrows : statement.rows = [])
    (htasks : t.tasks = s.tasks.set k next) (hqueue : t.queue = s.queue) (hgame : t.game = s.game)
    (hdisk : t.disk = s.disk) (hasked : t.asked = askedBy wanted s.asked)
    (hnext : ∃ statement ∈ next.rest, statement.rows = wanted) (htail : tail ⊆ next.rest) :
    t.Safe key := by
  cases hnamed : named wanted key with
  | some found =>
    left
    right
    obtain ⟨writing, hwriting, hrows⟩ := hnext
    have hvalue : t.asked key = found := by rw [hasked, askedBy, hnamed, Option.getD_some]
    rw [htasks, hvalue]
    apply Owed.of_set hk
    exact ⟨writing, hwriting, hrows ▸ hnamed⟩
  | none =>
    have hvalue : t.asked key = s.asked key := by rw [hasked, askedBy, hnamed, Option.getD_none]
    apply h.goOn hk htasks hqueue hgame hvalue (by rw [hdisk])
    intro howes
    obtain ⟨writing, hwriting, hnamed⟩ := owes_of_rest hrest hrows howes
    exact ⟨writing, htail hwriting, hnamed⟩

theorem Safe.execute (hrest : task.rest = statement :: tail)
    (hheeds : s.HeedsTo k task tail statement) : (s.execute k task tail statement).Safe key := by
  cases statement with
  | asksRunning wanted =>
    refine h.goOn hk rfl rfl rfl rfl rfl ?_
    intro howes
    exact owes_append.mpr (.inr (owes_of_rest hrest rfl howes))
  | readsQueue =>
    refine h.goOn hk rfl rfl rfl rfl rfl ?_
    intro howes
    exact owes_append.mpr (.inr (owes_of_rest hrest rfl howes))
  | readsFile orDefault => exact h.goOn hk rfl rfl rfl rfl rfl (owes_of_rest hrest rfl)
  | unlinks =>
    exact h.goOn hk rfl rfl rfl rfl Disk.file_unlink (owes_of_rest hrest rfl)
  | creates =>
    simp only [System.execute]
    split
    · next hnone =>
      rcases hheeds with hscratch | hspares
      · simp [Disk.create, hscratch] at hnone
      · exact h.spared hk hspares
    · next disk hdisk =>
      exact h.goOn hk rfl rfl rfl rfl (Disk.file_create hdisk) (owes_of_rest hrest rfl)
  | fills wanted =>
    exact h.goOn hk rfl rfl rfl rfl (Disk.file_fill hheeds) (owes_of_rest hrest rfl)
  | renames wanted edits =>
    simp only [HeedsTo] at hheeds
    simp only [System.execute]
    split
    · next hnone =>
      rw [if_pos (Disk.rename_eq_none_iff.mp hnone)] at hheeds
      exact h.spared hk hheeds
    · next disk hdisk =>
      rw [if_neg (Disk.scratch_ne_none hdisk)] at hheeds
      exact safe_of_replaces h hk hrest hdisk hheeds
  | discards =>
    exact h.goOn hk rfl rfl rfl rfl Disk.file_unlink (owes_of_rest hrest rfl)
  | deletesQueue => exact safe_of_deletesQueue h hk hrest hheeds
  | queues row => exact safe_of_queues h hk hrest hheeds
  | swaps port =>
    refine safe_of_asks h hk hrest rfl rfl rfl rfl rfl rfl ?_ (List.subset_append_right _ _)
    exact ⟨.renames (portOverrides port) false, by simp [makePrimary, intoPlace], rfl⟩
  | asksToQueue wanted => exact safe_of_asksToQueue h hk hrest hheeds
  | readsPrimary =>
    refine safe_of_asks h hk hrest rfl rfl rfl rfl rfl rfl ?_ (List.subset_append_right _ _)
    exact ⟨.renames (portOverrides s.primary) false, by simp [writeConfig, intoPlace], rfl⟩
  | clears => exact safe_of_clears hk hrest hheeds

theorem Safe.fails (hheeds : s.Spares k task (afterFailure task.rest)) :
    (s.put k { task with read := {}, rest := afterFailure task.rest }).Safe key := by
  have hspared := h.spared hk hheeds
  have hlength : k < s.tasks.length := (List.getElem?_eq_some_iff.mp hk).1
  exact hspared.goOn (List.getElem?_set_self hlength) (List.set_set _).symm rfl rfl rfl rfl id

end Run

theorem Safe.begins (h : s.Safe key) (statement : Statement) : (s.begins statement).Safe key := by
  apply h.mono (t := s.begins statement) rfl rfl rfl
  · intro _ hholds
    right
    exact hholds
  · intro howed
    right
    exact howed.begin

theorem Safe.edits {row : Override} (h : s.Safe key) (hgame : ¬ s.game.isSome)
    (hheeds : named s.queue row.1 = none ∨ s.Carried row.1 row.2) :
    System.Safe { s with
      disk := s.disk.overwrite (s.disk.file.applyOne row), asked := askedBy [row] s.asked } key := by
  have hfile : (s.disk.overwrite (s.disk.file.applyOne row)).file.get key =
      askedBy [row] s.disk.file.get key := by
    rw [Disk.file_overwrite]
    exact get_applyOne
  by_cases hkey : row.1 = key
  · subst hkey
    have hnamed : named [row] row.1 = some row.2 := by simp [named_cons]
    have hvalue : askedBy [row] s.asked row.1 = row.2 := by
      rw [askedBy, hnamed, Option.getD_some]
    rcases hheeds with hqueue | hcarried
    · right
      refine ⟨⟨hqueue, ?_⟩, ?_⟩
      · intro held hheld
        rw [Option.mem_def] at hheld
        simp [show s.game = some held from hheld] at hgame
      · show (s.disk.overwrite _).file.get row.1 = askedBy [row] s.asked row.1
        rw [hfile, hvalue, askedBy, hnamed, Option.getD_some]
    · left
      show s.Carried row.1 (askedBy [row] s.asked row.1)
      rw [hvalue]
      exact hcarried
  · have hnamed : named [row] key = none := by simp [named_cons, hkey]
    refine h.mono rfl rfl ?_ ?_ Or.inr
    · show askedBy [row] s.asked key = _
      rw [askedBy, hnamed, Option.getD_none]
    intro _ hholds
    right
    show (s.disk.overwrite _).file.get key = _
    rw [hfile, askedBy, hnamed, Option.getD_none, hholds]

theorem safe_of_restores {content : Properties} (hgame : s.game = none)
    (hqueue : ∀ row ∈ s.queue, s.Carried row.1 (content.get row.1)) :
    System.Safe { s with disk := s.disk.replaceDir content, asked := content.get } key := by
  cases hqueued : named s.queue key with
  | none =>
    right
    refine ⟨⟨hqueued, ?_⟩, ?_⟩
    · show ∀ held ∈ s.game, _
      rw [hgame]
      exact nofun
    · show (s.disk.replaceDir content).file.get key = content.get key
      rw [Disk.file_replaceDir]
  | some found =>
    left
    exact hqueue _ (mem_of_named hqueued)

theorem Safe.step {event : Event} (h : s.Safe key) (hheeds : s.Heeds event)
    (hstep : s.step event = some t) : t.Safe key := by
  cases event with
  | patches wanted =>
    simp only [System.step] at hstep
    split at hstep
    · cases hstep
      exact h.begins _
    · cases hstep
      exact h
  | makesPrimary port =>
    cases hstep
    exact h.begins _
  | installs wipeEverything =>
    cases hstep
    exact h.begins _
  | runs k =>
    obtain ⟨task, statement, tail, hk, hrest, rfl⟩ := runs_cases hstep
    have hheeds := hheeds task hk statement (by rw [hrest]; rfl)
    rw [hrest] at hheeds
    exact h.execute hk hrest hheeds
  | fails k =>
    obtain ⟨task, hk, rfl⟩ := fails_cases hstep
    exact h.fails hk (hheeds task hk)
  | starts =>
    simp only [System.step] at hstep
    split at hstep
    · cases hstep
    cases hstep
    refine h.imp_right ?_
    intro ⟨hclear, hholds⟩
    refine ⟨⟨hclear.1, ?_⟩, hholds⟩
    intro held hheld
    cases hheld
    exact hholds
  | attaches =>
    simp only [System.step] at hstep
    split at hstep
    · cases hstep
      exact h
    · cases hstep
  | detaches =>
    cases hstep
    exact h
  | rewrites =>
    obtain ⟨held, hheld, rfl⟩ := Option.map_eq_some_iff.mp hstep
    refine h.imp_right ?_
    intro ⟨hclear, _⟩
    refine ⟨hclear, ?_⟩
    show (s.disk.overwrite held).file.get key = _
    rw [Disk.file_overwrite]
    exact hclear.2 held hheld
  | stops =>
    cases hstep
    refine h.imp_right ?_
    intro ⟨hclear, hholds⟩
    exact ⟨⟨hclear.1, nofun⟩, hholds⟩
  | edits row =>
    simp only [System.step] at hstep
    split at hstep
    · cases hstep
    · next hgame =>
      cases hstep
      exact h.edits hgame hheeds
  | restores content =>
    cases hstep
    exact safe_of_restores hheeds.1 hheeds.2

end System

/-- No request is at work, nothing is queued, and the game does not run. -/
def System.AtRest (s : System) : Prop :=
  (∀ task ∈ s.tasks, task.rest = []) ∧ s.queue = [] ∧ s.game = none

instance (s : System) : Decidable s.AtRest := inferInstanceAs (Decidable (_ ∧ _ ∧ _))

theorem System.Safe.atRest {s : System} {key : Text} (h : s.Safe key) (hrest : s.AtRest) :
    s.disk.file.get key = s.asked key := by
  obtain ⟨htasks, hqueue, -⟩ := hrest
  rcases h with (hqueued | howed) | ⟨-, hholds⟩
  · rw [hqueue] at hqueued
    cases hqueued
  · exact absurd howed (not_owed htasks)
  · exact hholds

theorem edits_survive (disk : Disk) (primary : Nat) (events : List Event) (t : System)
    (hheeds : machine.Meets System.Heeds (start disk primary) events)
    (hrun : machine.exec (start disk primary) events = some t) (hrest : t.AtRest) (key : Text) :
    t.disk.file.get key = t.asked key := by
  have hstart : ∀ key, (start disk primary).Safe key := by
    intro key
    right
    exact ⟨⟨rfl, nofun⟩, rfl⟩
  have hsafe : ∀ key, t.Safe key :=
    machine.invariant (I := fun s => ∀ key, s.Safe key)
      (fun hsafe hheeds hstep key => (hsafe key).step hheeds hstep) hstart hheeds hrun
  exact (hsafe key).atRest hrest

section Runs

def motd : Text := "motd".toList

def pvp : Text := "pvp".toList

/-- A key is patched while the server runs and another one edited in the file after it has stopped;
the next patch replays the first. -/
def inTurn : List Event :=
  comesUp ++ Event.patches [(motd, some ['1'])] :: turns 0 7 ++ goesDown ++
    [Event.edits (pvp, some ['2']), .patches []] ++ turns 1 13

theorem edits_survive_in_turn :
    ∃ t, machine.exec (start {} 25565) inTurn = some t ∧
      ∀ key, t.disk.file.get key = t.asked key := by
  have hends : machine.Ends (start {} 25565) inTurn System.AtRest := by decide +kernel
  obtain ⟨t, hrun, hrest⟩ := hends
  exact ⟨t, hrun, edits_survive {} 25565 inTurn t (by decide +kernel) hrun hrest⟩

/-- A value is queued, and the key edited in the file once the server has stopped. -/
def queuedLongAgo : List Event :=
  comesUp ++ Event.patches [(motd, some ['1'])] :: turns 0 7 ++ goesDown ++
    [Event.edits (motd, some ['2']), .patches []] ++ turns 1 13

def atTheSameTime : List Event :=
  [Event.patches [(motd, some ['1'])], .patches [(pvp, some ['2'])]] ++
    turns 0 3 ++ turns 1 7 ++ turns 0 4

def queuedMeanwhile : List Event :=
  comesUp ++ Event.patches [(motd, some ['1'])] :: turns 0 7 ++ goesDown ++
    Event.patches [] :: turns 1 7 ++ comesUp ++ Event.patches [(pvp, some ['2'])] :: turns 2 7 ++
    turns 1 6 ++ goesDown

theorem edits_are_lost :
    machine.Ends (start {} 25565) queuedLongAgo (fun t =>
        t.AtRest ∧ t.disk.file.get motd = some ['1'] ∧ t.asked motd = some ['2']) ∧
      machine.Ends (start {} 25565) atTheSameTime (fun t =>
        t.AtRest ∧ t.disk.file.get pvp = none ∧ t.asked pvp = some ['2']) ∧
      machine.Ends (start {} 25565) queuedMeanwhile (fun t =>
        t.AtRest ∧ t.disk.file.get pvp = none ∧ t.asked pvp = some ['2']) := by
  decide +kernel

end Runs

end CraftPanel.Settings.Overrides
