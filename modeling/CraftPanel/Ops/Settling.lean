import CraftPanel.Ops.Interleaving

/-!
# Terminal operations

`settle` addresses a row by its id alone, so a worker that was timed out may finish its run
after all. A run of the machine whose settling statements all find an open row leaves every
terminal row at rest.
-/

namespace CraftPanel.Ops

open Framework

/-- Every operation that was settled before is still there, with the same state, error and time of
its end, and not cancellable again. -/
def TerminalRowsRest (s t : System) : Prop :=
  ∀ id row, s.db.operations.find? id = some row → row.state.isTerminal = true →
    ∃ row', t.db.operations.find? id = some row' ∧ Rests row row'

def isOpenAt (db : Database) (id : Id) : Bool := (db.operations.find? id).all (·.state.isOpen)

/-- The row that an event settles or makes cancellable is still open when it does so. -/
def MovesOpen (s : System) (e : Event) : Prop :=
  (s.settles e).all (isOpenAt s.db) = true ∧ e.enables.all (isOpenAt s.db) = true

instance (s : System) (e : Event) : Decidable (MovesOpen s e) :=
  inferInstanceAs (Decidable (_ ∧ _))

private theorem not_open_of_terminal {db : Database} {id : Id} {row : OperationRow}
    (hrow : db.operations.find? id = some row) (hterminal : row.state.isTerminal = true) :
    isOpenAt db id = false := by
  simp [isOpenAt, hrow, OperationState.isOpen, hterminal]

theorem terminalRowsRest_step {s t : System} {e : Event} (hok : MovesOpen s e)
    (h : s.step e = some t) : TerminalRowsRest s t := by
  intro id row hrow hterminal
  obtain ⟨row', hrow', -, -, -, hrests⟩ := rowAfter_step h hrow
  have hclosed := not_open_of_terminal hrow hterminal
  refine ⟨row', hrow', ?_⟩
  rcases hrests with hrests | hqueued | hsettles | henables
  · exact hrests
  · simp [hqueued, OperationState.isTerminal] at hterminal
  · simp [MovesOpen, hsettles, hclosed] at hok
  · simp [MovesOpen, henables, hclosed] at hok

theorem TerminalRowsRest.refl (s : System) : TerminalRowsRest s s :=
  fun _ row hrow _ => ⟨row, hrow, .refl row⟩

theorem TerminalRowsRest.trans {s t u : System} (hst : TerminalRowsRest s t)
    (htu : TerminalRowsRest t u) : TerminalRowsRest s u := by
  intro id row hrow hterminal
  obtain ⟨mid, hmid, hrests⟩ := hst id row hrow hterminal
  obtain ⟨row', hrow', hrests'⟩ := htu id mid hmid (by rw [hrests.state]; exact hterminal)
  exact ⟨row', hrow', hrests.trans hrests'⟩

/-- While every settling statement finds its row open, a terminal operation stays what it is,
whatever the workers, the handlers, the sweep and the recovery do, and in whatever order. -/
theorem terminal_operations_rest {s t : System} {es : List Event}
    (hok : machine.Meets MovesOpen s es) (hrun : machine.exec s es = some t) :
    TerminalRowsRest s t :=
  machine.relates TerminalRowsRest.refl TerminalRowsRest.trans terminalRowsRest_step hok hrun

/-- One server, and a run of its content that no worker has taken up yet. -/
def oneServer : Database where
  servers := .single { id := 1, ownerId := 9 }

def contentRun : NewOperation := { serverId := 1, kind := .installContent }

/-- The run is begun, makes no progress for ten minutes and is settled by the sweep. -/
def sweptRun : List Event :=
  [.create contentRun 7 0, .begin 7 0, .sweepReadsStalled 600001, .sweepReadsUnpaid 0,
    .sweepSettles 1200001]

/-- Two runs on one server, the second begun after the first one returned. -/
def serialRun : List Event :=
  [.create contentRun 7 0, .begin 7 0, .create contentRun 8 1, .begin 8 2, .finish 7 5,
    .returns 7, .begin 8 6]

def settledServer : Database where
  servers := oneServer.servers
  operations := ⟨[{ contentRun.row 6 0 with state := .done, finishedAt := some 0 }], by decide⟩

theorem terminal_operations_rest_serial :
    machine.Ends { db := settledServer } serialRun (TerminalRowsRest { db := settledServer }) := by
  have hok : machine.Meets MovesOpen { db := settledServer } serialRun := by decide
  exact ⟨_, rfl, terminal_operations_rest hok rfl⟩

/-- The worker that the sweep gave up on finishes its run: `failed` turns into `done`. -/
theorem swept_operation_finishes :
    ¬ ∀ (db : Database) (before later : List Event) (s t : System),
      machine.exec { db } before = some s → machine.exec s later = some t →
        TerminalRowsRest s t := by
  intro hall
  obtain ⟨row', hrow', hrests⟩ := hall oneServer sweptRun [.finish 7 1300000] _ _ rfl rfl 7 _ rfl rfl
  obtain rfl := (Option.some.injEq _ _).mp hrow'
  exact absurd hrests.state (by decide)

end CraftPanel.Ops
