import CraftPanel.Framework.Machine

/-!
# Holding a server still

`backups/quiesce.rs` with the part of the hub it stands on, for one server: a guard keeps the
link it was taken on, a link is one connection, and a command goes through the link's outbox, the
panel's writer and the supervisor before the process has it. Connections and processes are
numbered in the order they come.
-/

namespace CraftPanel.Backups

open Framework

/-- `SAVE_OFF`, `SAVE_FLUSH` and `SAVE_ON`. -/
inductive Command
  | saveOff | saveFlush | saveOn
  deriving DecidableEq

def outboxDepth : Nat := 256

structure Process where
  alive : Bool := false
  received : List Command := []
  connection : Option Nat := none

/-- A connection: the queue in front of the panel's writer, what is written and not yet read, and
whether the panel's end still takes commands and believes in the process. -/
structure Connection where
  process : Nat := 0
  outbox : List Command := []
  wire : List Command := []
  listening : Bool := false
  exited : Bool := false

/-- What `Held::take`, the guard it returns, the task its `Drop` spawns and the sweep of
`sweep_after_restart` are about to do. -/
inductive Task
  | asks (link : Nat)
  | flushes (link : Nat)
  | holds (link : Nat)
  | owes (link : Nat)
  | sweeps

/-- The link on which a task is going to say `save-on`. -/
def Task.restores : Task → Option Nat
  | flushes link | holds link | owes link => some link
  | asks _ | sweeps => none

structure System where
  processes : Nat → Process := fun _ => {}
  connections : Nat → Connection := fun _ => {}
  spawned : Nat := 0
  opened : Nat := 0
  hub : Option Nat := none
  tasks : List Task := []
  up : Bool := true
  backupOpen : Bool := false

inductive Event
  | spawns
  | attaches (process : Nat)
  | closes (connection : Nat)
  | detaches (connection : Nat)
  | writes (connection : Nat)
  | reads (connection : Nat)
  | exits (process : Nat)
  | absorbsExit (connection : Nat)
  | takes
  | speaks (task : Nat) (taken : Bool)
  | drops (task : Nat)
  | rowChanges (isOpen : Bool)
  | panelStops
  | panelStarts
  | recovers
  | sweepFinds (task : Nat)
  | sweepGivesUp (task : Nat)

namespace System

variable (s : System)

def setProcess (p : Nat) (process : Process) : System :=
  { s with processes := Function.update s.processes p process }

def setConnection (k : Nat) (connection : Connection) : System :=
  { s with connections := Function.update s.connections k connection }

def isOpen (k : Nat) : Bool := (s.processes (s.connections k).process).connection = some k

def runningLink : Option Nat := s.hub.filter fun k => !(s.connections k).exited

/-- `say`: taken into the outbox, or refused because nobody listens or there is no room in time. -/
def say (k : Nat) (command : Command) (taken : Bool) : Option System :=
  let connection := s.connections k
  let room := connection.listening && connection.outbox.length < outboxDepth
  if taken = room then
    some (if taken then
      s.setConnection k { connection with outbox := connection.outbox ++ [command] } else s)
  else none

/-- `greet` takes the connection of a supervisor that has none. -/
def attaches (p : Nat) : Option System :=
  if s.up && p < s.spawned && (s.processes p).connection.isNone then
    some { s with
      processes := Function.update s.processes p
        { s.processes p with connection := some s.opened }
      connections := Function.update s.connections s.opened { process := p, listening := true }
      opened := s.opened + 1
      hub := some s.opened }
  else none

def closes (k : Nat) : Option System :=
  if s.isOpen k then
    let p := (s.connections k).process
    some ((s.setProcess p { s.processes p with connection := none }).setConnection k
      { s.connections k with wire := [] })
  else none

def detaches (k : Nat) : Option System :=
  if s.isOpen k then none
  else some { s.setConnection k { s.connections k with listening := false, outbox := [] } with
    hub := if s.hub = some k then none else s.hub }

def writes (k : Nat) : Option System :=
  let connection := s.connections k
  match connection.outbox with
  | command :: outbox =>
    some (s.setConnection k (if s.isOpen k then
      { connection with outbox, wire := connection.wire ++ [command] }
    else { connection with outbox := [], listening := false }))
  | [] => none

def reads (k : Nat) : Option System :=
  let connection := s.connections k
  let p := connection.process
  match s.isOpen k, connection.wire with
  | true, command :: wire =>
    let process := s.processes p
    some ((s.setConnection k { connection with wire }).setProcess p
      (if process.alive then { process with received := process.received ++ [command] }
      else process))
  | _, _ => none

/-- The next command of a task. A refused `save-off` ends it, `save-all flush` goes either way,
and `save-on` is said once. -/
def speaks (i : Nat) (taken : Bool) : Option System :=
  match s.tasks[i]? with
  | some (.asks k) => (s.say k .saveOff taken).map fun t =>
      { t with tasks := if taken then s.tasks.set i (.flushes k) else s.tasks.eraseIdx i }
  | some (.flushes k) => (s.say k .saveFlush taken).map fun t =>
      { t with tasks := s.tasks.set i (.holds k) }
  | some (.owes k) => (s.say k .saveOn taken).map fun t => { t with tasks := s.tasks.eraseIdx i }
  | _ => none

def step : Event → Option System
  | .spawns => some { s.setProcess s.spawned { alive := true } with spawned := s.spawned + 1 }
  | .attaches p => s.attaches p
  | .closes k => s.closes k
  | .detaches k => s.detaches k
  | .writes k => s.writes k
  | .reads k => s.reads k
  | .exits p => some (s.setProcess p { s.processes p with alive := false })
  | .absorbsExit k =>
    if (s.processes (s.connections k).process).alive then none
    else some (s.setConnection k { s.connections k with exited := true })
  | .takes => s.runningLink.map fun k => { s with tasks := s.tasks ++ [.asks k] }
  | .speaks i taken => s.speaks i taken
  | .drops i => match s.tasks[i]? with
    | some (.flushes k) | some (.holds k) => some { s with tasks := s.tasks.set i (.owes k) }
    | _ => none
  | .rowChanges isOpen => some { s with backupOpen := isOpen }
  | .panelStops => some { s with
      up := false, tasks := [], hub := none
      connections := fun k => { s.connections k with outbox := [], listening := false } }
  | .panelStarts => some { s with up := true }
  | .recovers =>
    if s.up then some { s with tasks := if s.backupOpen then s.tasks ++ [.sweeps] else s.tasks }
    else none
  | .sweepFinds i => match s.tasks[i]?, s.runningLink with
    | some .sweeps, some k => some { s with tasks := s.tasks.set i (.owes k) }
    | _, _ => none
  | .sweepGivesUp i => match s.tasks[i]? with
    | some .sweeps => some { s with tasks := s.tasks.eraseIdx i }
    | _ => none

end System

def machine : Machine System Event := ⟨System.step⟩

end CraftPanel.Backups
