import Mathlib.Algebra.GroupWithZero.Nat
import CraftPanel.Supervise.Link

/-!
# From the process to the console

The link loop of one supervisor, the connections it makes, the hub's end of each of them
(`greet`, `absorb`), and the follower of `ops/follow.rs` that reads a link's broadcast into the
server's console. Connections are numbered; the supervisor talks on the newest one while the hub
may still read from older ones.
-/

namespace CraftPanel.Console

open Framework Supervise

/-- `CONSOLE_BACKLOG`, the depth of a link's broadcast. -/
def consoleBacklog : Nat := 512

def bundleLines : Nat := 500

def bundleBytes : Nat := 64 * 1024

/-- The hub's end of a connection. -/
inductive Stage
  | unused | opened | accepted | linked | ended
  deriving DecidableEq

/-- The follower's task: the link it was spawned for, and once it has subscribed the lines that
wait in its receiver and in its bundle. -/
structure Attend where
  link : Nat
  subscribed : Bool := false
  queue : List Line := []
  bundle : List Line := []

structure System where
  loop : Loop := {}
  current : Nat := 0
  wire : Nat → List Message := fun _ => []
  stage : Nat → Stage := fun _ => .unused
  link : Option Nat := none
  attending : Option Attend := none
  console : List Line := []

inductive Event
  | supervisor (event : Supervise.Event)
  | accepts (connection : Nat)
  | registers (connection : Nat)
  | absorbs (connection : Nat)
  | detaches (connection : Nat) (clean : Bool)
  | follows
  | subscribes
  | receives
  | flushes
  | leaves
  | forgets (lines : Nat)

namespace Attend

/-- A broadcast reaches a receiver that has subscribed; the oldest lines make room. -/
def hear (a : Attend) (connection : Nat) : Message → Attend
  | .output line =>
    if a.subscribed && a.link = connection then
      { a with queue := (a.queue ++ [line]).drop (a.queue.length + 1 - consoleBacklog) }
    else a
  | .exited .. => a

def isFull (lines : List Line) : Bool :=
  bundleLines ≤ lines.length || bundleBytes ≤ (lines.map (·.line.utf8ByteSize)).sum

end Attend

namespace System

variable (s : System)

def supervisor (event : Supervise.Event) : Option System :=
  match s.loop.step event with
  | none => none
  | some loop => match event with
    | .connect true => some { s with
        loop, current := s.current + 1
        stage := Function.update s.stage (s.current + 1) .opened }
    | .greet true =>
      if s.stage s.current = .opened then none else some { s with loop }
    | .send true => some { s with
        loop, wire := Function.update s.wire s.current (s.wire s.current ++ sent s.loop loop) }
    | _ => some { s with loop }

/-- One round of the reading loop of `greet`. -/
def absorbs (connection : Nat) : Option System :=
  match s.stage connection, s.wire connection with
  | .linked, message :: rest => some { s with
      wire := Function.update s.wire connection rest
      attending := s.attending.map fun a => a.hear connection message }
  | _, _ => none

/-- A clean end takes the entry out of the hub if it is still this link's; an error in reading
leaves `greet` before that. -/
def detaches (connection : Nat) (clean : Bool) : Option System :=
  if s.stage connection = .linked then
    some { s with
      stage := Function.update s.stage connection .ended
      link := if clean && s.link = some connection then none else s.link }
  else none

def receives : Option System :=
  match s.attending with
  | some a => match a.queue with
    | line :: queue =>
      if Attend.isFull (a.bundle ++ [line]) then
        some { s with
          attending := some { a with queue, bundle := [] }
          console := s.console ++ (a.bundle ++ [line]) }
      else some { s with attending := some { a with queue, bundle := a.bundle ++ [line] } }
    | [] => none
  | none => none

def flushes : Option System :=
  s.attending.map fun a => { s with
    attending := some { a with bundle := [] }, console := s.console ++ a.bundle }

def leaves : Option System :=
  match s.attending with
  | some a =>
    if a.subscribed && s.link ≠ some a.link then
      some { s with attending := none, console := s.console ++ a.bundle }
    else none
  | none => none

def step : Event → Option System
  | .supervisor event => s.supervisor event
  | .accepts k =>
    if s.stage k = .opened then some { s with stage := Function.update s.stage k .accepted }
    else none
  | .registers k =>
    if s.stage k = .accepted then
      some { s with stage := Function.update s.stage k .linked, link := some k }
    else none
  | .absorbs k => s.absorbs k
  | .detaches k clean => s.detaches k clean
  | .follows => match s.attending, s.link with
    | none, some k => some { s with attending := some { link := k } }
    | _, _ => none
  | .subscribes => match s.attending with
    | some a =>
      if a.subscribed then none else some { s with attending := some { a with subscribed := true } }
    | none => none
  | .receives => s.receives
  | .flushes => s.flushes
  | .leaves => s.leaves
  | .forgets lines => some { s with console := s.console.drop lines }

end System

def machine : Machine System Event := ⟨System.step⟩

end CraftPanel.Console
