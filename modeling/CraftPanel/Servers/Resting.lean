import CraftPanel.Servers.Reconciling

/-!
# A server that is down stays down

Every start has `guard_write` behind it or a wish to restart. Where no process lives, nothing under
the gate has passed the guard on its way to a start, and nobody wishes a restart, a server on
which the guard refuses stays down, whatever else happens to it.
-/

namespace CraftPanel.Servers

open Framework

/-- The statement may come to a start without another look at the operations. -/
def Statement.leadsToStart : Statement → Bool
  | .powerRow action | .currentLink action _ | .currentRow action _ =>
    action = .start || action = .restart
  | .mayStart _ | .claim | .spawn _ | .startAgain => true
  | .askLink target | .requestStop _ target | .expectsStop target => target = .restart
  | .setWish wish => wish.target = some .restart
  | _ => false

def Watcher.restarts : Watcher → Bool
  | .handing _ _ wish => wish.target = some .restart
  | _ => false

/-- The server is down, and nothing that has begun brings it up. -/
structure Quiet (s : System) : Prop where
  dead : s.processes.all (fun process => !process.alive) = true
  gate : s.gate.all (fun holder => holder.todo.all fun statement => !statement.leadsToStart) = true
  wish : s.wish.target ≠ some .restart
  watcher : s.watcher.all (fun watcher => !watcher.restarts) = true

instance : DecidablePred Quiet := fun s => decidable_of_iff
  (s.processes.all (fun process => !process.alive) = true ∧
    s.gate.all (fun holder => holder.todo.all fun statement => !statement.leadsToStart) = true ∧
    s.wish.target ≠ some .restart ∧ s.watcher.all (fun watcher => !watcher.restarts) = true)
  ⟨fun ⟨hdead, hgate, hwish, hwatcher⟩ => ⟨hdead, hgate, hwish, hwatcher⟩,
    fun ⟨hdead, hgate, hwish, hwatcher⟩ => ⟨hdead, hgate, hwish, hwatcher⟩⟩

/-- None of the statements leads to a start. -/
abbrev StartsNothing (todo : List Statement) : Prop :=
  todo.all (fun statement => !statement.leadsToStart) = true

theorem startsNothing_append {first rest : List Statement} (hfirst : StartsNothing first)
    (hrest : StartsNothing rest) : StartsNothing (first ++ rest) := by
  rw [StartsNothing, List.all_append, hfirst, hrest]
  rfl

theorem startsNothing_cons {statement : Statement} {rest : List Statement} :
    StartsNothing (statement :: rest) ↔ statement.leadsToStart = false ∧ StartsNothing rest := by
  simp [StartsNothing]

theorem startsNothing_routine {action : PowerAction} (row : ServerRow) (now : RunState)
    (hstart : action ≠ .start) (hrestart : action ≠ .restart) :
    StartsNothing (routine action row now) := by
  unfold routine
  split
  · cases action with
    | start => exact absurd rfl hstart
    | restart => exact absurd rfl hrestart
    | stop | kill => rfl
  · rfl

theorem startsNothing_stopping {target : PowerTarget} (undelivered : Bool)
    (h : target ≠ .restart) : StartsNothing (stopping target undelivered) := by
  simp [stopping, Statement.leadsToStart, h]

theorem startsNothing_settle {wish : Wish} (last : RunState) (h : wish.target ≠ some .restart) :
    StartsNothing (settle wish last) := by
  simp [settle, Statement.leadsToStart, h]

section Steps

variable {s t : System}

theorem perform_startsNothing {ok : Bool} {statement : Statement} {todo : List Statement}
    (hbusy : s.busy = true) (hstatement : statement.leadsToStart = false)
    (hwish : s.wish.target ≠ some .restart) (h : s.perform ok statement = some (t, todo)) :
    StartsNothing todo ∧ t.wish.target ≠ some .restart := by
  cases statement with
  | claim | spawn token => simp [System.perform] at h
  | mayStart row => exact absurd hstatement (by simp [Statement.leadsToStart])
  | startAgain => exact absurd hstatement (by simp [Statement.leadsToStart])
  | guardWrite action =>
    simp only [System.perform, hbusy, if_true, Option.some.injEq, Prod.mk.injEq] at h
    obtain ⟨rfl, rfl⟩ := h
    exact ⟨rfl, hwish⟩
  | powerRow action =>
    cases h
    exact ⟨startsNothing_cons.mpr ⟨hstatement, rfl⟩, hwish⟩
  | currentLink action row =>
    cases h
    have haction : action ≠ .start ∧ action ≠ .restart := by
      simpa [Statement.leadsToStart] using hstatement
    refine ⟨?_, hwish⟩
    split
    · exact startsNothing_routine _ _ haction.1 haction.2
    · exact startsNothing_cons.mpr ⟨hstatement, rfl⟩
  | currentRow action row =>
    cases h
    have haction : action ≠ .start ∧ action ≠ .restart := by
      simpa [Statement.leadsToStart] using hstatement
    exact ⟨startsNothing_routine _ _ haction.1 haction.2, hwish⟩
  | askLink target =>
    cases h
    refine ⟨?_, hwish⟩
    split <;> exact startsNothing_cons.mpr ⟨hstatement, rfl⟩
  | requestStop k target =>
    simp only [System.perform, Option.map_eq_some_iff, Prod.mk.injEq] at h
    obtain ⟨⟨u, taken⟩, hgive, rfl, rfl⟩ := h
    obtain ⟨links, rfl⟩ := System.give_eq hgive
    have htarget : target ≠ .restart := by simpa [Statement.leadsToStart] using hstatement
    refine ⟨?_, hwish⟩
    split
    · exact startsNothing_stopping _ htarget
    · rfl
  | expectsStop target =>
    cases h
    have htarget : target ≠ .restart := by simpa [Statement.leadsToStart] using hstatement
    refine ⟨?_, hwish⟩
    split
    · exact startsNothing_stopping _ htarget
    · rfl
  | requestKill k =>
    simp only [System.perform, Option.map_eq_some_iff, Prod.mk.injEq] at h
    obtain ⟨⟨u, taken⟩, hgive, rfl, rfl⟩ := h
    obtain ⟨links, rfl⟩ := System.give_eq hgive
    refine ⟨?_, hwish⟩
    cases taken <;> rfl
  | killLink =>
    cases h
    refine ⟨?_, hwish⟩
    split <;> rfl
  | setWish wish =>
    cases h
    exact ⟨rfl, by simpa [Statement.leadsToStart] using hstatement⟩
  | watch =>
    cases h
    refine ⟨rfl, ?_⟩
    unfold System.watch
    split <;> exact hwish
  | _ =>
    cases h
    exact ⟨rfl, hwish⟩

theorem restarts_watch (h : s.watcher.all (fun watcher => !watcher.restarts) = true) :
    s.watch.watcher.all (fun watcher => !watcher.restarts) = true := by
  unfold System.watch
  split
  · exact h
  · rfl

theorem restarts_of_frame {statement : Statement} (hframe : s.Frame statement t)
    (h : s.watcher.all (fun watcher => !watcher.restarts) = true) :
    t.watcher.all (fun watcher => !watcher.restarts) = true := by
  rw [hframe.watcher]
  split
  · exact restarts_watch h
  · exact h

theorem Quiet.congr (hquiet : Quiet s) (hprocesses : t.processes = s.processes)
    (hgate : t.gate = s.gate) (hwish : t.wish = s.wish) (hwatcher : t.watcher = s.watcher) :
    Quiet t :=
  ⟨hprocesses ▸ hquiet.dead, hgate ▸ hquiet.gate, hwish ▸ hquiet.wish, hwatcher ▸ hquiet.watcher⟩

theorem quiet_watcher {watcher : Watcher} (hquiet : Quiet s)
    (hprocesses : t.processes = s.processes) (hgate : t.gate = s.gate) (hwish : t.wish = s.wish)
    (hwatcher : t.watcher = some watcher) (hrestarts : watcher.restarts = false) : Quiet t := by
  refine ⟨hprocesses ▸ hquiet.dead, hgate ▸ hquiet.gate, hwish ▸ hquiet.wish, ?_⟩
  rw [hwatcher]
  simp [hrestarts]

theorem quiet_runs {ok : Bool} (hquiet : Quiet s) (hbusy : s.busy = true)
    (h : machine.step s (.runs ok) = some t) : Quiet t := by
  cases moved_of_step h with
  | @runs _ holder statement rest u todo hgate htodo hperform =>
    have hframe := System.perform_frame hperform
    have hbefore : StartsNothing (statement :: rest) := by
      have := hquiet.gate
      simpa only [hgate, Option.all_some, htodo] using this
    obtain ⟨hstatement, hrest⟩ := startsNothing_cons.mp hbefore
    obtain ⟨htodo', hwish⟩ := perform_startsNothing hbusy hstatement hquiet.wish hperform
    have hwatcher := restarts_of_frame hframe hquiet.watcher
    exact ⟨hframe.processes ▸ hquiet.dead, startsNothing_append htodo' hrest, hwish, hwatcher⟩

theorem head_of_quiet {holder : Holder} {statement : Statement} {rest : List Statement}
    (hquiet : Quiet s) (hgate : s.gate = some holder) (htodo : holder.todo = statement :: rest) :
    statement.leadsToStart = false := by
  have hbefore : StartsNothing (statement :: rest) := by
    have := hquiet.gate
    simpa only [hgate, Option.all_some, htodo] using this
  exact (startsNothing_cons.mp hbefore).1

theorem quiet_watches (hquiet : Quiet s) (h : s.watches = some t) : Quiet t := by
  cases System.moved_watches h with
  | lies | ends => exact quiet_watcher hquiet rfl rfl rfl rfl rfl
  | waits => exact hquiet
  | wakes =>
    refine quiet_watcher hquiet rfl rfl rfl rfl ?_
    split
    · simpa [Watcher.restarts] using hquiet.wish
    · rfl
  | @hands watch k wish u taken hw hgive =>
    obtain ⟨links, rfl⟩ := System.give_eq hgive
    have hwish : wish.target ≠ some .restart := by
      have := hquiet.watcher
      simpa [hw, Watcher.restarts] using this
    refine ⟨hquiet.dead, hquiet.gate, ?_, rfl⟩
    show (if taken = true then { wish with undelivered := false } else s.wish).target ≠ _
    split
    · exact hwish
    · exact hquiet.wish
  | looks | records =>
    refine quiet_watcher hquiet rfl rfl rfl rfl ?_
    split <;> rfl
  | leaves => exact ⟨hquiet.dead, hquiet.gate, hquiet.wish, rfl⟩

theorem quiet_recovers (hquiet : Quiet s) (hbusy : s.busy = true) (hreconciles : Reconciles s)
    (h : s.recovers = some t) : Quiet t := by
  cases System.moved_recovers h with
  | adopts | adopted | finds | judges => exact hquiet.congr rfl rfl rfl rfl
  | @clears statement rest u todo hrecovery hperform =>
    have hframe := System.perform_frame hperform
    have hclearing : ∀ statement ∈ clearing, statement.leadsToStart = false := by decide
    have hstatement : statement.leadsToStart = false := by
      obtain hwatch | hall := hreconciles _ hrecovery
      · cases hwatch
        rfl
      · exact hclearing statement (hall statement (List.mem_cons_self ..))
    obtain ⟨-, hwish⟩ := perform_startsNothing hbusy hstatement hquiet.wish hperform
    have hwatcher := restarts_of_frame hframe hquiet.watcher
    exact ⟨hframe.processes ▸ hquiet.dead, hframe.gate ▸ hquiet.gate, hwish, hwatcher⟩

theorem dead_setProcess {p : Nat} {f : Process → Process}
    (hf : ∀ process, process.alive = false → (f process).alive = false)
    (hdead : s.processes.all (fun process => !process.alive) = true) :
    (s.setProcess p f).processes.all (fun process => !process.alive) = true := by
  simp only [List.all_eq_true, Bool.not_eq_true', System.setProcess] at hdead ⊢
  intro process hmem
  obtain ⟨i, hi, rfl⟩ := List.getElem_of_mem hmem
  simp only [List.length_modify] at hi
  rw [List.getElem_modify]
  have hold := hdead s.processes[i] (List.getElem_mem hi)
  split
  · exact hf _ hold
  · exact hold

theorem quiet_step {e : Event} (hquiet : Quiet s) (hbusy : s.busy = true)
    (hreconciles : Reconciles s) (h : machine.step s e = some t) : Quiet t := by
  cases moved_of_step h with
  | runs => exact quiet_runs hquiet hbusy h
  | lies | wakes | waits | ends | hands | looks | records | leaves => exact quiet_watches hquiet h
  | adopts | adopted | finds | judges | clears => exact quiet_recovers hquiet hbusy hreconciles h
  | enters => exact ⟨hquiet.dead, rfl, hquiet.wish, hquiet.watcher⟩
  | claims hgate htodo => exact absurd (head_of_quiet hquiet hgate htodo) (by decide)
  | spawns hgate htodo =>
    exact absurd (head_of_quiet hquiet hgate htodo) (by simp [Statement.leadsToStart])
  | releases =>
    refine ⟨hquiet.dead, rfl, hquiet.wish, ?_⟩
    split
    · rfl
    · exact hquiet.watcher
  | settles => exact ⟨hquiet.dead, startsNothing_settle _ hquiet.wish, hquiet.wish, rfl⟩
  | greets | attaches | closes | reads =>
    exact ⟨dead_setProcess (fun _ => id) hquiet.dead, hquiet.gate, hquiet.wish, hquiet.watcher⟩
  | exits =>
    exact ⟨dead_setProcess (fun _ _ => rfl) hquiet.dead, hquiet.gate, hquiet.wish, hquiet.watcher⟩
  | _ => exact hquiet.congr rfl rfl rfl rfl

end Steps

end CraftPanel.Servers
