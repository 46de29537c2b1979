import CraftPanel.Backups.Restore
import CraftPanel.Servers.Resting

/-!
# The exchange of the directory

An open restore makes `guard_write` refuse every request that would start the server, so a server
that is wholly down when the restore is created is down until the restore is settled. The link
that `restore` and `retry` look at does not tell them that: it shows neither a process that has
not attached, nor a start that has passed the guard, nor a restart whose second half is to come.
-/

namespace CraftPanel.Backups.Restore

open Framework

/-- `begin` has granted the run its turn. -/
def Phase.begun : Phase → Bool
  | .prepares | .movesAway | .movesIn _ | .movesBack _ | .clears | .ends _ => true
  | _ => false

/-- The directory is being exchanged, or has been and the run is not over. -/
def Phase.exchanges : Phase → Bool
  | .movesIn _ | .movesBack _ | .clears | .ends _ => true
  | _ => false

/-- No process lives, and no start has claimed the row for one. -/
def Down (s : Servers.System) : Prop :=
  s.processes.all (fun process => !process.alive) = true ∧
    s.gate.all (fun holder => holder.todo.all fun statement => match statement with
      | .spawn _ => false
      | _ => true) = true

instance : DecidablePred Down := fun _ => inferInstanceAs (Decidable (_ ∧ _))

/-- Whatever run exchanges the directory, the server is down, until that run is over. -/
def ExchangesDown (s : System) : Prop :=
  ∀ run ∈ s.runs.rows, run.phase.exchanges = true → Down s.server

/-- A restore is created on a server that is down and stays so by itself; and nobody else settles
the operation of a restore between its turn and its own end. -/
def RestoresQuiet (s : System) : Event → Prop
  | .creates _ _ _ => Servers.Quiet s.server
  | .ops e => (s.ops.settles e).all (fun id =>
      (s.runs.find? id).all fun run => !run.phase.begun) = true
  | _ => True

instance (s : System) (e : Event) : Decidable (RestoresQuiet s e) := by
  unfold RestoresQuiet
  split <;> infer_instance

instance : DecidablePred ExchangesDown := fun s => by
  unfold ExchangesDown
  infer_instance

/-- The operation of a run: open as long as the run acts on it, and while it is open the server is
quiet. -/
def Guarded (s : System) (run : Run) : Prop :=
  ∃ row, s.ops.db.operations.find? run.id = some row ∧ row.serverId = s.id ∧
    row.kind = .backupRestore ∧ (row.state.isOpen = true → Servers.Quiet s.server) ∧
    (run.phase.begun = true → row.state.isOpen = true)

structure Inv (s : System) : Prop where
  reconciles : Servers.Reconciles s.server
  runs : ∀ run ∈ s.runs.rows, Guarded s run

theorem begun_of_exchanges {phase : Phase} (h : phase.exchanges = true) : phase.begun = true := by
  cases phase with
  | movesIn | movesBack | clears | ends => rfl
  | _ => simp [Phase.exchanges] at h

theorem down_of_quiet {s : Servers.System} (h : Servers.Quiet s) : Down s := by
  refine ⟨h.dead, ?_⟩
  have hgate := h.gate
  cases hholder : s.gate with
  | none => rfl
  | some holder =>
    rw [hholder] at hgate
    simp only [Option.all_some, List.all_eq_true] at hgate ⊢
    intro statement hmem
    have hstatement := hgate statement hmem
    cases statement with
    | spawn token => simp [Servers.Statement.leadsToStart] at hstatement
    | _ => rfl

theorem Inv.exchangesDown {s : System} (h : Inv s) : ExchangesDown s := by
  intro run hmem hexchanges
  obtain ⟨row, -, -, -, hquiet, hopen⟩ := h.runs run hmem
  exact down_of_quiet (hquiet (hopen (begun_of_exchanges hexchanges)))

theorem refuses_of_open {db : Database} {id server : Id} {row : OperationRow}
    (hrow : db.operations.find? id = some row) (hserver : row.serverId = server)
    (hkind : row.kind = .backupRestore) (hopen : row.state.isOpen = true) :
    refuses db server = true := by
  have hmem : row ∈ db.operations.select (Ops.openOn server) :=
    List.mem_filter.mpr ⟨Table.find?_mem hrow, by simp [Ops.openOn, hserver, hopen]⟩
  have hreason : BusyReasonCode.backupRestoring ∈ Ops.busyReasons db server := by
    refine List.mem_filter.mpr ⟨by decide, ?_⟩
    simp only [decide_eq_true_eq, List.mem_filterMap]
    exact ⟨row, hmem, by rw [hkind]; rfl⟩
  unfold refuses Ops.guardWrite
  cases hreasons : Ops.busyReasons db server with
  | nil => simp [hreasons] at hreason
  | cons reason reasons => rfl

section Steps

variable {s t : System}

theorem inv_serves {e : Servers.Event} (hinv : Inv s) (h : s.serves e = some t) : Inv t := by
  have hkept : ∀ server, Servers.machine.step { s.server with busy := refuses s.ops.db s.id } e =
      some server → t = { s with server := server } → Inv t := by
    rintro server hstep rfl
    have hreconciles : Servers.Reconciles { s.server with busy := refuses s.ops.db s.id } :=
      hinv.reconciles
    refine ⟨Servers.reconciles_step hreconciles hstep, fun run hmem => ?_⟩
    obtain ⟨row, hrow, hserver, hkind, hquiet, hopen⟩ := hinv.runs run hmem
    refine ⟨row, hrow, hserver, hkind, fun hrowOpen => ?_, hopen⟩
    have hbefore : Servers.Quiet { s.server with busy := refuses s.ops.db s.id } :=
      (hquiet hrowOpen).congr rfl rfl rfl rfl
    exact Servers.quiet_step hbefore (refuses_of_open hrow hserver hkind hrowOpen) hreconciles hstep
  unfold System.serves at h
  split at h
  · simp at h
  · simp only [Option.map_eq_some_iff] at h
    obtain ⟨server, hstep, rfl⟩ := h
    exact hkept server hstep rfl

theorem guarded_of_rowAfter {run run' : Run} {settled enabled : Prop} (hguarded : Guarded s run)
    (hserver : t.server = s.server) (hid : t.id = s.id) (hrun : run'.id = run.id)
    (hafter : ∀ row, s.ops.db.operations.find? run.id = some row →
      Ops.RowAfter row run.id t.ops.db settled enabled)
    (hsettled : ¬ settled)
    (hbegun : run'.phase.begun = true → run.phase.begun = true ∨
      ∃ row, t.ops.db.operations.find? run.id = some row ∧ row.state.isOpen = true) :
    Guarded t run' := by
  obtain ⟨row, hrow, hrowServer, hkind, hquiet, hopen⟩ := hguarded
  obtain ⟨row', hrow', hserver', hkind', hstate, -⟩ := hafter row hrow
  refine ⟨row', hrun ▸ hrow', ?_, hkind'.trans hkind, ?_, ?_⟩
  · rw [hserver', hrowServer, hid]
  · intro hrowOpen
    rw [hserver]
    exact hquiet (hstate.isOpen hrowOpen)
  intro hrunBegun
  obtain hbefore | ⟨row'', hrow'', hopen''⟩ := hbegun hrunBegun
  · rcases hstate with hsame | ⟨-, hongoing⟩ | ⟨hsettles, -⟩
    · rw [hsame]
      exact hopen hbefore
    · rw [hongoing]
      rfl
    · exact absurd hsettles hsettled
  · obtain rfl := Option.some.inj (hrow'.symm.trans hrow'')
    exact hopen''

theorem guarded_of_not_begun {run : Run} {settled enabled : Prop} (hguarded : Guarded s run)
    (hserver : t.server = s.server) (hid : t.id = s.id)
    (hafter : ∀ row, s.ops.db.operations.find? run.id = some row →
      Ops.RowAfter row run.id t.ops.db settled enabled)
    (hbegun : run.phase.begun = false) : Guarded t run := by
  obtain ⟨row, hrow, hrowServer, hkind, hquiet, -⟩ := hguarded
  obtain ⟨row', hrow', hserver', hkind', hstate, -⟩ := hafter row hrow
  refine ⟨row', hrow', ?_, hkind'.trans hkind, ?_, ?_⟩
  · rw [hserver', hrowServer, hid]
  · intro hrowOpen
    rw [hserver]
    exact hquiet (hstate.isOpen hrowOpen)
  · intro hrunBegun
    rw [hbegun] at hrunBegun
    exact absurd hrunBegun (by decide)

theorem inv_ops {e : Ops.Event} (hinv : Inv s) (hok : RestoresQuiet s (.ops e))
    (h : machine.step s (.ops e) = some t) : Inv t := by
  simp only [machine, System.step, Option.map_eq_some_iff] at h
  obtain ⟨ops, hstep, rfl⟩ := h
  refine ⟨hinv.reconciles, fun run hmem => ?_⟩
  have hguarded := hinv.runs run hmem
  have hafter : ∀ row, s.ops.db.operations.find? run.id = some row →
      Ops.RowAfter row run.id ops.db (s.ops.settles e = some run.id) (e.enables = some run.id) :=
    fun row hrow => Ops.rowAfter_step hstep hrow
  cases hbegun : run.phase.begun with
  | false => exact guarded_of_not_begun hguarded rfl rfl hafter hbegun
  | true =>
    refine guarded_of_rowAfter hguarded rfl rfl rfl hafter (fun hsettles => ?_) .inl
    have hfind := Table.find?_of_mem hmem
    simp only [RestoresQuiet, hsettles, Option.all_some, hfind, hbegun] at hok
    exact absurd hok (by decide)

theorem inv_creates {i : Nat} {id : Id} {now : Timestamp} (hinv : Inv s)
    (hok : RestoresQuiet s (.creates i id now)) (h : s.creates i id now = some t) : Inv t := by
  unfold System.creates at h
  split at h
  · rename_i request hrequest
    split at h
    · split at h
      · rename_i db made hinsert
        simp only [Option.map_eq_some_iff] at h
        obtain ⟨runs, hruns, rfl⟩ := h
        obtain ⟨hrows, -, rfl⟩ := Ops.insert_ok hinsert
        refine ⟨hinv.reconciles, fun run hmem => ?_⟩
        have hmem' : run ∈ s.runs.rows ++ [_] := Table.rows_of_insert hruns ▸ hmem
        rcases List.mem_append.mp hmem' with hold | hnew
        · obtain ⟨row, hrow, hrest⟩ := hinv.runs run hold
          exact ⟨row, Table.find?_of_insert hrows hrow, hrest⟩
        obtain rfl := List.mem_singleton.mp hnew
        refine ⟨(s.newRestore request).row id now, ?_, rfl, rfl, fun _ => hok, fun hbegun => ?_⟩
        · rw [Table.find?_insert hrows]
          exact if_pos rfl
        · rfl
      · cases h
        exact ⟨hinv.reconciles, hinv.runs⟩
    · simp at h
  · simp at h

theorem rowAfter_next {run : Run} {choice : Choice} {ops : Ops.System} {phase : Option Phase}
    {j : Id} {row : OperationRow} (h : s.next run choice = some (ops, phase))
    (hrow : s.ops.db.operations.find? j = some row) :
    Ops.RowAfter row j ops.db (j = run.id ∧ phase = none) False := by
  have hsettling : ∀ e : Ops.Event, s.ops.settles e = some run.id → e.enables = none →
      s.ops.step e = some ops → phase = none →
      Ops.RowAfter row j ops.db (j = run.id ∧ phase = none) False := by
    intro e hsettles henables hstep hphase
    refine (Ops.rowAfter_step hstep hrow).mono (fun hsettled => ?_) fun henabled => ?_
    · exact ⟨Option.some.inj (hsettled.symm.trans hsettles), hphase⟩
    · rw [henables] at henabled
      exact absurd henabled (by simp)
  have hstill : ops = s.ops → Ops.RowAfter row j ops.db (j = run.id ∧ phase = none) False := by
    rintro rfl
    exact Ops.rowAfter_same hrow
  cases hphase : run.phase with
  | copies =>
    simp only [System.next, hphase] at h
    split at h
    · cases h
      exact Ops.rowAfter_same hrow
    · exact hstill (Prod.mk.inj (Option.some.inj h)).1.symm
  | copying backup =>
    simp only [System.next, hphase] at h
    split at h
    · rename_i hinsert
      cases h
      exact Ops.rowAfter_same (Table.find?_of_insert (Ops.insert_ok hinsert).1 hrow)
    · cases h
      exact Ops.rowAfter_deleteBackup backup hrow
  | copied copy =>
    simp only [System.next, hphase] at h
    cases h
    exact Ops.rowAfter_rests (fun _ => rfl) (fun _ => rfl) hrow ⟨rfl, rfl, rfl, id⟩
  | gaveUp =>
    simp only [System.next, hphase, Option.map_eq_some_iff, Prod.mk.injEq] at h
    obtain ⟨_, hstep, rfl, rfl⟩ := h
    exact hsettling (.cancelled run.id choice.now) rfl rfl hstep rfl
  | blames error =>
    simp only [System.next, hphase, Option.map_eq_some_iff, Prod.mk.injEq] at h
    obtain ⟨_, hstep, rfl, rfl⟩ := h
    exact hsettling (.fail run.id error choice.now) rfl rfl hstep rfl
  | ends outcome =>
    simp only [System.next, hphase, Option.map_eq_some_iff, Prod.mk.injEq] at h
    obtain ⟨_, hstep, rfl, rfl⟩ := h
    have hown : s.ops.settles (outcome.settling run.id choice.now) = some run.id ∧
        (outcome.settling run.id choice.now).enables = none := by
      cases outcome <;> exact ⟨rfl, rfl⟩
    exact hsettling _ hown.1 hown.2 hstep rfl
  | waits =>
    simp only [System.next, hphase] at h
    split at h
    · simp only [Option.map_eq_some_iff, Prod.mk.injEq] at h
      obtain ⟨_, hstep, rfl, rfl⟩ := h
      exact (Ops.rowAfter_step hstep hrow).mono (fun hsettled => nomatch hsettled)
        fun henabled => nomatch henabled
    · exact hstill (Prod.mk.inj (Option.some.inj h)).1.symm
    · exact hstill (Prod.mk.inj (Option.some.inj h)).1.symm
  | _ =>
    simp only [System.next, hphase] at h
    exact hstill (Prod.mk.inj (Option.some.inj h)).1.symm

theorem begun_next {run : Run} {choice : Choice} {ops : Ops.System} {phase : Phase}
    (h : s.next run choice = some (ops, some phase)) (hbegun : phase.begun = true) :
    run.phase.begun = true ∨
      ∃ row, ops.db.operations.find? run.id = some row ∧ row.state.isOpen = true := by
  have hnot : ∀ {before : Phase}, before.begun = false → some before = some phase → False := by
    intro before hbefore heq
    rw [Option.some.inj heq, hbegun] at hbefore
    exact absurd hbefore (by decide)
  cases hphase : run.phase with
  | prepares | movesAway | movesIn _ | movesBack _ | clears | ends _ => exact .inl rfl
  | waits =>
    right
    simp only [System.next, hphase] at h
    split at h
    · rename_i db row hbegin
      simp only [Ops.System.step, hbegin, Option.map_some, Option.some.injEq,
        Prod.mk.injEq] at h
      obtain ⟨rfl, -⟩ := h
      obtain ⟨hnone, -⟩ | ⟨old, hold, ⟨hqueued, -⟩, -, -, hfind⟩ := Ops.begin_ok hbegin
      · simp at hnone
      · refine ⟨Ops.begunRow choice.now old, ?_, ?_⟩
        · simp [hfind, hold]
        · simp [Ops.begunRow, hqueued, OperationState.isOpen, OperationState.isTerminal]
    · exact (hnot rfl (Prod.mk.inj (Option.some.inj h)).2).elim
    · simp at h
  | copies | copying backup =>
    simp only [System.next, hphase] at h
    split at h <;> exact (hnot rfl (Prod.mk.inj (Option.some.inj h)).2).elim
  | gaveUp | blames error => simp [System.next, hphase] at h
  | copied copy =>
    simp only [System.next, hphase] at h
    exact (hnot rfl (Prod.mk.inj (Option.some.inj h)).2).elim
  | opened =>
    simp only [System.next, hphase] at h
    obtain ⟨row, -, hnext⟩ := Option.map_eq_some_iff.mp (Prod.mk.inj (Option.some.inj h)).2
    split at hnext <;> exact (hnot rfl (congrArg some hnext)).elim
  | seeks | saving safety =>
    simp only [System.next, hphase] at h
    have hnext := (Prod.mk.inj (Option.some.inj h)).2
    split at hnext <;> exact (hnot rfl hnext).elim
  | looks =>
    simp only [System.next, hphase] at h
    have hnext := (Prod.mk.inj (Option.some.inj h)).2
    split at hnext
    · exact (hnot rfl hnext).elim
    · simp at hnext

theorem inv_moves {id : Id} {choice : Choice} (hinv : Inv s) (h : s.moves id choice = some t) :
    Inv t := by
  unfold System.moves at h
  split at h
  · rename_i run hrun
    have hkey : run.id = id := Table.find?_key hrun
    split at h
    · rename_i ops phase hnext
      cases h
      refine ⟨hinv.reconciles, fun run' hmem => ?_⟩
      obtain ⟨old, hold, hsame⟩ :=
        Table.mem_modify (f := fun run : Run => { run with phase }) (fun _ => rfl) hmem
      have hafter : ∀ row, s.ops.db.operations.find? old.id = some row →
          Ops.RowAfter row old.id ops.db (old.id = run.id ∧ some phase = none) False :=
        fun row hrow => rowAfter_next hnext hrow
      have hgoes : ¬ (old.id = run.id ∧ some phase = none) := by simp
      rcases hsame with rfl | ⟨hid, rfl⟩
      · exact guarded_of_rowAfter (hinv.runs run' hold) rfl rfl rfl hafter hgoes .inl
      refine guarded_of_rowAfter (hinv.runs old hold) rfl rfl rfl hafter hgoes ?_
      intro hbegun
      have hsame : old = run := by
        have hfind := Table.find?_of_mem hold
        rw [hid, hrun] at hfind
        exact (Option.some.inj hfind).symm
      rw [hsame]
      exact begun_next hnext hbegun
    · rename_i ops hnext
      cases h
      refine ⟨hinv.reconciles, fun run' hmem => ?_⟩
      obtain ⟨hold, hne⟩ := List.mem_filter.mp hmem
      have hafter : ∀ row, s.ops.db.operations.find? run'.id = some row →
          Ops.RowAfter row run'.id ops.db (run'.id = run.id ∧ (none : Option Phase) = none) False :=
        fun row hrow => rowAfter_next hnext hrow
      have hother : ¬ (run'.id = run.id ∧ (none : Option Phase) = none) := by
        rintro ⟨hsame, -⟩
        exact absurd (hsame.trans hkey) (by simpa using hne)
      exact guarded_of_rowAfter (hinv.runs run' hold) rfl rfl rfl hafter hother .inl
    · simp at h
  · simp at h

theorem inv_step {e : Event} (hinv : Inv s) (hok : RestoresQuiet s e)
    (h : machine.step s e = some t) : Inv t := by
  cases e with
  | server e => exact inv_serves hinv h
  | ops e => exact inv_ops hinv hok h
  | creates i id now => exact inv_creates hinv hok h
  | moves id choice => exact inv_moves hinv h
  | asksRestore backup caller | asksRetry backup caller =>
    cases h
    exact ⟨hinv.reconciles, hinv.runs⟩
  | checks i ok =>
    simp only [machine, System.step, System.checks] at h
    split at h
    · split at h
      · split at h <;>
        · cases h
          exact ⟨hinv.reconciles, hinv.runs⟩
      · simp at h
    · simp at h

end Steps

theorem inv_booted (id : Id) (row : ServerRow) (processes : List Servers.Process) (db : Database) :
    Inv (booted id row processes db) := by
  refine ⟨fun todo htodo => ?_, fun run hmem => ?_⟩
  · simp [booted, Servers.booted] at htodo
  · simp [booted, Table.empty] at hmem

def oneBackup : Database where
  servers := .single { id := 1, ownerId := 9 }
  backups := ⟨[{ id := 5, serverId := 1, sizeBytes := 1 }], by decide⟩

/-- A restore with its safety copy, as far as the exchange of the directory. -/
def restoreRun : List Event :=
  [Event.asksRestore 5 9] ++ List.replicate 7 (Event.checks 0 true) ++ [Event.creates 0 7 1,
    .moves 7 { fresh := 6, now := 2 }, .moves 7 { fresh := 8, now := 3 }, .moves 7 { now := 4 },
    .moves 7 {}, .moves 7 {}, .ops (.begin 8 5), .ops (.finish 8 6), .ops (.returns 8),
    .moves 7 {}, .moves 7 { now := 7 }, .moves 7 {}, .moves 7 {}]

def spawnRun : List Event :=
  let start : List Servers.Event :=
    [Servers.Event.enters .start] ++ List.replicate 5 (Servers.Event.runs true) ++
      [Servers.Event.claims "token"] ++ List.replicate 4 (Servers.Event.runs true) ++
      [Servers.Event.spawns true true, .runs true, .releases]
  start.map .server

end CraftPanel.Backups.Restore
