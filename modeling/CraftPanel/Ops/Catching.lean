import CraftPanel.Framework.Feed
import CraftPanel.Framework.Machine
import CraftPanel.Model

/-!
# A socket that falls behind

`converse` of `api/ws.rs` on one socket, and what reaches it through `Channel` of `ops/events.rs`.
The run begins when `attach` has subscribed. `unread` is what was sent on the channel since and was
not received; the channel keeps the last `EVENT_BACKLOG` events, and a receiver that is further
behind is told so once and goes on with the oldest one that is kept.

Three values are followed: the server object and the operations of the database, each published by
its writers after the write, and the power state of the channel, which `set_state` stores and then
says. Several reads may stand behind one object, so a read may find what was never there at once.
-/

namespace CraftPanel.Ops.Catching

open Framework

def EVENT_BACKLOG : Nat := 64

variable {Server StateReport Snapshot : Type}

inductive WsMessage (StateReport Snapshot : Type)
  | state (report : StateReport)
  | operations (snapshot : Snapshot)
  /-- What shows none of the three values: a console block, a sample, a notice. -/
  | other

inductive ServerEvent (Server StateReport Snapshot : Type)
  | say (message : WsMessage StateReport Snapshot)
  | server (object : Server)
  | close (code : Nat)

namespace ServerEvent

def object? : ServerEvent Server StateReport Snapshot → Option Server
  | server object => some object
  | _ => none

def state? : ServerEvent Server StateReport Snapshot → Option StateReport
  | say (.state report) => some report
  | _ => none

def snapshot? : ServerEvent Server StateReport Snapshot → Option Snapshot
  | say (.operations snapshot) => some snapshot
  | _ => none

end ServerEvent

/-- Where `converse` stands. While it gathers the opening, an empty slot is still to be read; the
snapshot may be read in vain. -/
inductive Phase (Server StateReport Snapshot : Type)
  | opening (state : Option StateReport) (object : Option Server)
      (snapshot : Option (Option Snapshot))
  | listening
  | lagged
  | closed
  deriving DecidableEq

/-- The last of each kind that the socket was sent. -/
structure Shown (Server StateReport Snapshot : Type) where
  object : Option Server := none
  state : Option StateReport := none
  snapshot : Option Snapshot := none

structure System (Server StateReport Snapshot : Type) where
  object : Feed Server
  state : Feed StateReport
  snapshot : Feed Snapshot
  unread : List (ServerEvent Server StateReport Snapshot) := []
  phase : Phase Server StateReport Snapshot := .opening none none none
  shown : Shown Server StateReport Snapshot := {}

inductive Event (Server StateReport Snapshot : Type)
  | object (move : Feed.Move Server)
  | state (move : Feed.Move StateReport)
  | snapshot (move : Feed.Move Snapshot)
  | tells
  | closes (code : Nat)
  | readsState
  | readsObject (found : Option Server)
  | readsSnapshot (found : Option Snapshot)
  | opens
  | receives
  | resends (found : Option Snapshot)
  | ends

namespace System

variable (s : System Server StateReport Snapshot)

def sends (events : List (ServerEvent Server StateReport Snapshot)) :
    System Server StateReport Snapshot :=
  { s with unread := s.unread ++ events }

def kept : List (ServerEvent Server StateReport Snapshot) :=
  s.unread.drop (s.unread.length - EVENT_BACKLOG)

def dropped : List (ServerEvent Server StateReport Snapshot) :=
  s.unread.take (s.unread.length - EVENT_BACKLOG)

def hears : ServerEvent Server StateReport Snapshot → System Server StateReport Snapshot
  | .say (.state report) => { s with shown := { s.shown with state := some report } }
  | .say (.operations snapshot) => { s with shown := { s.shown with snapshot := some snapshot } }
  | .say .other => s
  | .server object => { s with shown := { s.shown with object := some object } }
  | .close _ => { s with phase := .closed }

def receives : Option (System Server StateReport Snapshot) :=
  match s.phase, s.unread with
  | .listening, event :: rest =>
    if EVENT_BACKLOG < s.unread.length then some { s with unread := s.kept, phase := .lagged }
    else some ({ s with unread := rest }.hears event)
  | _, _ => none

def step : Event Server StateReport Snapshot → Option (System Server StateReport Snapshot)
  | .object move => (s.object.step move).map fun (object, sent) =>
    { s with object }.sends (sent.toList.map .server)
  | .state move => (s.state.step move).map fun (state, sent) =>
    { s with state }.sends (sent.toList.map fun report => .say (.state report))
  | .snapshot move => (s.snapshot.step move).map fun (snapshot, sent) =>
    { s with snapshot }.sends (sent.toList.map fun snapshot => .say (.operations snapshot))
  | .tells => some (s.sends [.say .other])
  | .closes code => some (s.sends [.close code])
  | .readsState => match s.phase with
    | .opening none object snapshot =>
      some { s with phase := .opening (some s.state.now) object snapshot }
    | _ => none
  | .readsObject found => match s.phase with
    | .opening (some report) none snapshot => match found with
      | some object => some { s with phase := .opening (some report) (some object) snapshot }
      | none => some { s with phase := .closed }
    | _ => none
  | .readsSnapshot found => match s.phase with
    | .opening (some report) (some object) none =>
      some { s with phase := .opening (some report) (some object) (some found) }
    | _ => none
  | .opens => match s.phase with
    | .opening (some report) (some object) (some snapshot) =>
      some { s with phase := .listening, shown := ⟨some object, some report, snapshot⟩ }
    | _ => none
  | .receives => s.receives
  | .resends found => match s.phase with
    | .lagged => some { s with
        phase := .listening
        shown := { s.shown with snapshot := found.or s.shown.snapshot } }
    | _ => none
  | .ends => some { s with phase := .closed }

/-- The object that is shown beside what waits in the receiver: one that is still to be read is the
one that is there. -/
def objectBase (now : Server) : Option Server := match s.phase with
  | .opening _ none _ => some now
  | .opening _ (some object) _ => some object
  | _ => s.shown.object

def stateBase (now : StateReport) : Option StateReport := match s.phase with
  | .opening none _ _ => some now
  | .opening (some report) _ _ => some report
  | _ => s.shown.state

def snapshotBase (now : Snapshot) : Option Snapshot := match s.phase with
  | .opening _ _ none => some now
  | .opening _ _ (some found) => found
  | .lagged => some now
  | _ => s.shown.snapshot

def lastObject (now : Server) : Option Server :=
  latest ServerEvent.object? s.unread (s.objectBase now)

def lastState (now : StateReport) : Option StateReport :=
  latest ServerEvent.state? s.unread (s.stateBase now)

def lastSnapshot (now : Snapshot) : Option Snapshot :=
  latest ServerEvent.snapshot? s.unread (s.snapshotBase now)

def ObjectDue : Prop := s.object.Told (s.lastObject s.object.now)

def StateDue : Prop := s.state.Told (s.lastState s.state.now)

def SnapshotDue : Prop := s.snapshot.Told (s.lastSnapshot s.snapshot.now)

/-- The socket is gone, or each of the three values is the last that it will have been sent once it
has received what is sent and what is on its way. -/
def Due : Prop := s.phase = .closed ∨ s.ObjectDue ∧ s.StateDue ∧ s.SnapshotDue

/-- The events have stopped and the socket has read everything. -/
structure Drained : Prop where
  listening : s.phase = .listening
  unread : s.unread = []
  object : s.object.pending = []
  state : s.state.pending = []
  snapshot : s.snapshot.pending = []

structure Current : Prop where
  object : s.shown.object = some s.object.now
  state : s.shown.state = some s.state.now
  snapshot : s.shown.snapshot = some s.snapshot.now

end System

def machine : Machine (System Server StateReport Snapshot) (Event Server StateReport Snapshot) :=
  ⟨System.step⟩

/-- Each publication heeds the condition of its feed; an object or a snapshot that is read is the
current one, or a later one is sent; and an overrun drops no object and no state but where a later
one is kept, the one that was shown last is the current one, or one is on its way. -/
def Heeds (s : System Server StateReport Snapshot) : Event Server StateReport Snapshot → Prop
  | .object move => s.object.Heeds s.lastObject move
  | .state move => s.state.Heeds s.lastState move
  | .snapshot move => s.snapshot.Heeds s.lastSnapshot move
  | .readsObject (some object) =>
    latest ServerEvent.object? s.unread none ≠ none ∨ s.object.Told (some object)
  | .readsSnapshot found =>
    latest ServerEvent.snapshot? s.unread none ≠ none ∨ s.snapshot.Told found
  | .receives => s.unread.length ≤ EVENT_BACKLOG ∨
    (latest ServerEvent.object? s.kept none ≠ none ∨
      latest ServerEvent.object? s.dropped none = none ∨ s.object.Told s.shown.object) ∧
    (latest ServerEvent.state? s.kept none ≠ none ∨
      latest ServerEvent.state? s.dropped none = none ∨ s.state.Told s.shown.state)
  | .resends found => latest ServerEvent.snapshot? s.unread none ≠ none ∨
    s.snapshot.Told (found.or s.shown.snapshot)
  | _ => True

instance decidableHeeds [DecidableEq Server] [DecidableEq StateReport] [DecidableEq Snapshot]
    (s : System Server StateReport Snapshot) : ∀ e, Decidable (Heeds s e)
  | .object _ | .state _ | .snapshot _ => Feed.decidableHeeds _ _ _
  | .readsObject (some _) | .readsSnapshot _ | .resends _ => inferInstanceAs (Decidable (_ ∨ _))
  | .receives => inferInstanceAs (Decidable (_ ∨ (_ ∨ _ ∨ _) ∧ (_ ∨ _ ∨ _)))
  | .tells | .closes _ | .readsState | .readsObject none | .opens | .ends =>
    inferInstanceAs (Decidable True)

instance [DecidableEq Server] [DecidableEq StateReport] [DecidableEq Snapshot]
    (s : System Server StateReport Snapshot) : Decidable s.Drained :=
  decidable_of_iff (s.phase = .listening ∧ s.unread = [] ∧ s.object.pending = [] ∧
      s.state.pending = [] ∧ s.snapshot.pending = [])
    ⟨fun ⟨h₁, h₂, h₃, h₄, h₅⟩ => ⟨h₁, h₂, h₃, h₄, h₅⟩,
      fun h => ⟨h.listening, h.unread, h.object, h.state, h.snapshot⟩⟩

section Steps

variable {s t : System Server StateReport Snapshot}

theorem dropped_append_kept : s.dropped ++ s.kept = s.unread := List.take_append_drop _ _

theorem closed_step {e : Event Server StateReport Snapshot} (hs : s.phase = .closed)
    (h : machine.step s e = some t) : t.phase = .closed := by
  cases e with
  | object move | state move | snapshot move =>
    obtain ⟨moved, -, rfl⟩ := Option.map_eq_some_iff.mp h
    exact hs
  | tells | closes code =>
    cases h
    exact hs
  | receives =>
    simp only [machine, System.step, System.receives, hs] at h
    cases h
  | readsState | readsObject found | readsSnapshot found | opens | resends found =>
    simp only [machine, System.step, hs] at h
    cases h
  | ends =>
    cases h
    rfl

theorem iff_due {P : Prop} (h : t.phase ≠ .closed)
    (hiff : P ↔ t.ObjectDue ∧ t.StateDue ∧ t.SnapshotDue) : P ↔ t.Due :=
  hiff.trans (or_iff_right h).symm

/-! A publication that is sent is told to the kind it is of. -/

theorem due_object_iff {move : Feed.Move Server} (hs : s.phase ≠ .closed) (hstate : s.StateDue)
    (hsnapshot : s.SnapshotDue) (h : machine.step s (.object move) = some t) :
    s.object.Heeds s.lastObject move ↔ t.Due := by
  obtain ⟨⟨object, sent⟩, hmove, ht⟩ := Option.map_eq_some_iff.mp h
  obtain rfl : { s with object, unread := s.unread ++ sent.toList.map .server } = t := ht
  refine iff_due hs ?_
  rw [← Feed.told_iff hmove]
  unfold System.ObjectDue System.StateDue System.SnapshotDue System.lastObject System.lastState
    System.lastSnapshot
  simp only [latest_append]
  rw [latest_sent ServerEvent.object? .server fun _ => rfl,
    latest_passed ServerEvent.state? .server fun _ => rfl,
    latest_passed ServerEvent.snapshot? .server fun _ => rfl]
  exact (and_iff_left ⟨hstate, hsnapshot⟩).symm

theorem due_state_iff {move : Feed.Move StateReport} (hs : s.phase ≠ .closed)
    (hobject : s.ObjectDue) (hsnapshot : s.SnapshotDue) (h : machine.step s (.state move) = some t) :
    s.state.Heeds s.lastState move ↔ t.Due := by
  obtain ⟨⟨state, sent⟩, hmove, ht⟩ := Option.map_eq_some_iff.mp h
  obtain rfl : { s with
      state, unread := s.unread ++ sent.toList.map fun report => .say (.state report) } = t := ht
  refine iff_due hs ?_
  rw [← Feed.told_iff hmove]
  unfold System.ObjectDue System.StateDue System.SnapshotDue System.lastObject System.lastState
    System.lastSnapshot
  simp only [latest_append]
  rw [latest_passed ServerEvent.object? (fun report => .say (.state report)) fun _ => rfl,
    latest_sent ServerEvent.state? (fun report => .say (.state report)) fun _ => rfl,
    latest_passed ServerEvent.snapshot? (fun report => .say (.state report)) fun _ => rfl]
  exact ((and_iff_right hobject).trans (and_iff_left hsnapshot)).symm

theorem due_snapshot_iff {move : Feed.Move Snapshot} (hs : s.phase ≠ .closed)
    (hobject : s.ObjectDue) (hstate : s.StateDue)
    (h : machine.step s (.snapshot move) = some t) :
    s.snapshot.Heeds s.lastSnapshot move ↔ t.Due := by
  obtain ⟨⟨snapshot, sent⟩, hmove, ht⟩ := Option.map_eq_some_iff.mp h
  obtain rfl : { s with
      snapshot
      unread := s.unread ++ sent.toList.map fun found => .say (.operations found) } = t := ht
  refine iff_due hs ?_
  rw [← Feed.told_iff hmove]
  unfold System.ObjectDue System.StateDue System.SnapshotDue System.lastObject System.lastState
    System.lastSnapshot
  simp only [latest_append]
  rw [latest_passed ServerEvent.object? (fun found => .say (.operations found)) fun _ => rfl,
    latest_passed ServerEvent.state? (fun found => .say (.operations found)) fun _ => rfl,
    latest_sent ServerEvent.snapshot? (fun found => .say (.operations found)) fun _ => rfl]
  exact ((and_iff_right hobject).trans (and_iff_right hstate)).symm

/-! What the socket reads and receives. -/

theorem due_readsObject_iff {found : Option Server} (hobject : s.ObjectDue)
    (hstate : s.StateDue) (hsnapshot : s.SnapshotDue)
    (h : machine.step s (.readsObject found) = some t) : Heeds s (.readsObject found) ↔ t.Due := by
  simp only [machine, System.step] at h
  split at h
  · next report snapshot hphase =>
    cases found with
    | none =>
      cases h
      exact iff_of_true trivial (.inl rfl)
    | some object =>
      cases h
      refine iff_due nofun ?_
      unfold System.StateDue System.lastState System.stateBase at hstate ⊢
      unfold System.SnapshotDue System.lastSnapshot System.snapshotBase at hsnapshot ⊢
      rw [hphase] at hstate hsnapshot
      have hsame : s.snapshot.Told (latest ServerEvent.snapshot? s.unread
          (match snapshot with | none => some s.snapshot.now | some found => found)) := by
        cases snapshot with
        | none | some found => exact hsnapshot
      apply (told_rebase_iff hobject (some object)).symm.trans
      apply (and_iff_left (And.intro hstate _)).symm
      cases snapshot with
      | none | some found => exact hsame
  · cases h

theorem due_readsSnapshot_iff {found : Option Snapshot} (hobject : s.ObjectDue)
    (hstate : s.StateDue) (hsnapshot : s.SnapshotDue)
    (h : machine.step s (.readsSnapshot found) = some t) :
    Heeds s (.readsSnapshot found) ↔ t.Due := by
  simp only [machine, System.step] at h
  split at h
  · next report object hphase =>
    cases h
    refine iff_due nofun ?_
    unfold System.ObjectDue System.lastObject System.objectBase at hobject ⊢
    unfold System.StateDue System.lastState System.stateBase at hstate ⊢
    rw [hphase] at hobject hstate
    rw [and_iff_right hobject, and_iff_right hstate]
    exact (told_rebase_iff hsnapshot found).symm
  · cases h

theorem due_resends_iff {found : Option Snapshot} (hobject : s.ObjectDue) (hstate : s.StateDue)
    (hsnapshot : s.SnapshotDue) (h : machine.step s (.resends found) = some t) :
    Heeds s (.resends found) ↔ t.Due := by
  simp only [machine, System.step] at h
  split at h
  · next hphase =>
    cases h
    refine iff_due nofun ?_
    unfold System.ObjectDue System.lastObject System.objectBase at hobject ⊢
    unfold System.StateDue System.lastState System.stateBase at hstate ⊢
    rw [hphase] at hobject hstate
    rw [and_iff_right hobject, and_iff_right hstate]
    exact (told_rebase_iff hsnapshot (found.or s.shown.snapshot)).symm
  · cases h

theorem due_iff_of_listening (h : s.phase = .listening) :
    s.Due ↔ s.object.Told (latest ServerEvent.object? s.unread s.shown.object) ∧
      s.state.Told (latest ServerEvent.state? s.unread s.shown.state) ∧
        s.snapshot.Told (latest ServerEvent.snapshot? s.unread s.shown.snapshot) := by
  unfold System.Due System.ObjectDue System.lastObject System.objectBase System.StateDue
    System.lastState System.stateBase System.SnapshotDue System.lastSnapshot System.snapshotBase
  rw [h]
  exact or_iff_right nofun

theorem due_hears {event : ServerEvent Server StateReport Snapshot}
    {rest : List (ServerEvent Server StateReport Snapshot)} (hphase : s.phase = .listening)
    (hunread : s.unread = event :: rest) (hdue : s.Due) :
    ({ s with unread := rest }.hears event).Due := by
  have htold := (due_iff_of_listening hphase).mp hdue
  rw [hunread, latest_cons, latest_cons, latest_cons] at htold
  cases event with
  | close code => exact .inl rfl
  | server object =>
    refine (due_iff_of_listening ?_).mpr htold
    exact hphase
  | say message =>
    cases message with
    | state report | operations snapshot | other =>
      refine (due_iff_of_listening ?_).mpr htold
      exact hphase

theorem due_receives_iff (hdue : s.Due) (h : machine.step s .receives = some t) :
    Heeds s .receives ↔ t.Due := by
  simp only [machine, System.step, System.receives] at h
  split at h
  · next event rest hphase hunread =>
    split at h
    · next hlong =>
      cases h
      refine iff_due nofun ?_
      obtain ⟨hobject, hstate, hsnapshot⟩ := (due_iff_of_listening hphase).mp hdue
      rw [← dropped_append_kept] at hobject hstate hsnapshot
      have hsnapshot' : s.snapshot.Told
          (latest ServerEvent.snapshot? s.kept (some s.snapshot.now)) := by
        rw [latest_append] at hsnapshot
        exact (told_rebase_iff hsnapshot _).mpr (.inr (.inl rfl))
      have hobject' := told_drop_iff hobject
      have hstate' := told_drop_iff hstate
      have hlong' : ¬ s.unread.length ≤ EVENT_BACKLOG := Nat.not_le.mpr hlong
      unfold Heeds
      rw [or_iff_right hlong', ← hobject', ← hstate']
      exact and_congr_right fun _ => (and_iff_left hsnapshot').symm
    · next hshort =>
      cases h
      exact iff_of_true (.inl (Nat.not_lt.mp hshort)) (due_hears hphase hunread hdue)
  · cases h

theorem due_sends {event : ServerEvent Server StateReport Snapshot} (hdue : s.Due)
    (hobject : event.object? = none) (hstate : event.state? = none)
    (hsnapshot : event.snapshot? = none) : (s.sends [event]).Due := by
  refine hdue.imp_right fun h => ?_
  unfold System.ObjectDue System.lastObject System.StateDue System.lastState System.SnapshotDue
    System.lastSnapshot at h ⊢
  unfold System.sends
  simp only [latest_concat, hobject, hstate, hsnapshot, Option.none_or]
  exact h

theorem due_readsState (hobject : s.ObjectDue) (hstate : s.StateDue) (hsnapshot : s.SnapshotDue)
    (h : machine.step s .readsState = some t) : t.Due := by
  simp only [machine, System.step] at h
  split at h
  · next object snapshot hphase =>
    cases h
    unfold System.ObjectDue System.lastObject System.objectBase at hobject
    unfold System.StateDue System.lastState System.stateBase at hstate
    unfold System.SnapshotDue System.lastSnapshot System.snapshotBase at hsnapshot
    rw [hphase] at hobject hstate hsnapshot
    right
    constructor
    · cases object with
      | none | some => exact hobject
    constructor
    · exact hstate
    · cases snapshot with
      | none | some => exact hsnapshot
  · cases h

theorem due_opens (hobject : s.ObjectDue) (hstate : s.StateDue) (hsnapshot : s.SnapshotDue)
    (h : machine.step s .opens = some t) : t.Due := by
  simp only [machine, System.step] at h
  split at h
  · next report object snapshot hphase =>
    cases h
    unfold System.ObjectDue System.lastObject System.objectBase at hobject
    unfold System.StateDue System.lastState System.stateBase at hstate
    unfold System.SnapshotDue System.lastSnapshot System.snapshotBase at hsnapshot
    rw [hphase] at hobject hstate hsnapshot
    exact .inr ⟨hobject, hstate, hsnapshot⟩
  · cases h

theorem due_step_iff {e : Event Server StateReport Snapshot} (hdue : s.Due)
    (h : machine.step s e = some t) : (s.phase = .closed ∨ Heeds s e) ↔ t.Due := by
  by_cases hs : s.phase = .closed
  · exact iff_of_true (.inl hs) (.inl (closed_step hs h))
  rw [or_iff_right hs]
  obtain ⟨hobject, hstate, hsnapshot⟩ := hdue.resolve_left hs
  cases e with
  | object move => exact due_object_iff hs hstate hsnapshot h
  | state move => exact due_state_iff hs hobject hsnapshot h
  | snapshot move => exact due_snapshot_iff hs hobject hstate h
  | readsObject found => exact due_readsObject_iff hobject hstate hsnapshot h
  | readsSnapshot found => exact due_readsSnapshot_iff hobject hstate hsnapshot h
  | resends found => exact due_resends_iff hobject hstate hsnapshot h
  | receives => exact due_receives_iff hdue h
  | tells | closes code =>
    cases h
    exact iff_of_true trivial (due_sends hdue rfl rfl rfl)
  | readsState => exact iff_of_true trivial (due_readsState hobject hstate hsnapshot h)
  | opens => exact iff_of_true trivial (due_opens hobject hstate hsnapshot h)
  | ends =>
    cases h
    exact iff_of_true trivial (.inl rfl)

theorem due_iff_current (hs : s.Drained) : s.Due ↔ s.Current := by
  rw [due_iff_of_listening hs.listening, hs.unread]
  unfold Feed.Told Feed.Carries
  rw [hs.object, hs.state, hs.snapshot]
  simp only [List.not_mem_nil, or_false]
  exact ⟨fun h => ⟨h.1, h.2.1, h.2.2⟩, fun h => ⟨h.object, h.state, h.snapshot⟩⟩

end Steps

/-- Whatever is sent on the channel and wherever the socket overruns: in the runs that meet the
condition it has been sent the current object, state and snapshot last once all is read. The
condition misses no such run: it holds of those in which the three are always due. -/
theorem socket_catches_up {s t : System Server StateReport Snapshot}
    {es : List (Event Server StateReport Snapshot)} (hphase : s.phase = .opening none none none)
    (hunread : s.unread = []) (hrun : machine.exec s es = some t) :
    (machine.Meets (fun s e => s.phase = .closed ∨ Heeds s e) s es → t.Drained → t.Current) ∧
    (machine.Meets (fun s e => s.phase = .closed ∨ Heeds s e) s es ↔
      ∀ earlier u, earlier <+: es → machine.exec s earlier = some u → u.Due) ∧
    (t.Drained → (t.Due ↔ t.Current)) := by
  have hstart : s.Due := by
    right
    unfold System.ObjectDue System.lastObject System.objectBase System.StateDue System.lastState
      System.stateBase System.SnapshotDue System.lastSnapshot System.snapshotBase
    rw [hphase, hunread]
    exact ⟨.inl rfl, .inl rfl, .inl rfl⟩
  have hiff := machine.meets_iff_always (I := fun _ => True) (fun _ _ => trivial)
    (fun _ hdue h => due_step_iff hdue h) trivial hstart hrun
  have hcurrent : t.Drained → (t.Due ↔ t.Current) := due_iff_current
  exact ⟨fun hmeets hdrained => (hcurrent hdrained).mp (hiff.mp hmeets es t List.prefix_rfl hrun),
    hiff, hcurrent⟩

def installed : System ServerStatus PowerState Nat where
  object := ⟨.available, []⟩
  state := ⟨.stopped, []⟩
  snapshot := ⟨0, []⟩

abbrev Step := Event ServerStatus PowerState Nat

def opening : List Step :=
  [.readsState, .readsObject (some .available), .readsSnapshot (some 0), .opens]

/-- One event too many for the channel, and the socket goes on with the ones that are kept. -/
def overrun : List Step :=
  [.receives, .resends (some 0)] ++ List.replicate EVENT_BACKLOG .receives

theorem socket_catches_up_with_start :
    ∃ t, machine.exec installed (opening ++ List.replicate EVENT_BACKLOG .tells ++
      [.state (.stores .running), .state (.sends 0)] ++ overrun) = some t ∧
        t.shown.state = some .running ∧ t.Current := by
  have hok : machine.Meets (fun s e => s.phase = .closed ∨ Heeds s e) installed
      (opening ++ List.replicate EVENT_BACKLOG .tells ++
        [.state (.stores .running), .state (.sends 0)] ++ overrun) := by decide +kernel
  have hend : machine.Ends installed (opening ++ List.replicate EVENT_BACKLOG .tells ++
      [.state (.stores .running), .state (.sends 0)] ++ overrun) fun t =>
        t.shown.state = some .running ∧ t.Drained := by decide +kernel
  obtain ⟨t, hrun, hshown, hdrained⟩ := hend
  exact ⟨t, hrun, hshown, (socket_catches_up rfl rfl hrun).1 hok hdrained⟩

/-- The state, or the server object, is the first of the events that overrun the socket. -/
theorem overrun_hides_state :
    (¬ ∀ (s t : System ServerStatus PowerState Nat) (es : List Step),
      s.phase = .opening none none none → s.unread = [] → machine.exec s es = some t →
        t.Drained → t.shown.state = some t.state.now) ∧
    ¬ ∀ (s t : System ServerStatus PowerState Nat) (es : List Step),
      s.phase = .opening none none none → s.unread = [] → machine.exec s es = some t →
        t.Drained → t.shown.object = some t.object.now := by
  constructor
  · intro hall
    have hend : machine.Ends installed (opening ++
        [.state (.stores .running), .state (.sends 0)] ++ List.replicate EVENT_BACKLOG .tells ++
        overrun) fun t => t.shown.state ≠ some t.state.now ∧ t.Drained := by decide +kernel
    obtain ⟨t, hrun, hshown, hdrained⟩ := hend
    exact hshown (hall installed t _ rfl rfl hrun hdrained)
  · intro hall
    have hend : machine.Ends installed (opening ++
        [.object (.writes .broken true), .object (.reads 0 .broken), .object (.sends 0)] ++
        List.replicate EVENT_BACKLOG .tells ++ overrun) fun t =>
          t.shown.object ≠ some t.object.now ∧ t.Drained := by decide +kernel
    obtain ⟨t, hrun, hshown, hdrained⟩ := hend
    exact hshown (hall installed t _ rfl rfl hrun hdrained)

end CraftPanel.Ops.Catching
