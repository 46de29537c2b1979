import CraftPanel.Framework.Machine
import CraftPanel.Supervise.Ring

/-!
# The link loop of a supervisor

`supervise/mod.rs`: two readers and the exit watch on one end of a bounded channel,
`connect_loop` with its pending queue on the other. A message is at any time in the hands of a
reader, in the channel, in the queue, or being sent; each event is what one of these tasks does
between two of its suspension points, with the outcome of the connection as its argument.
-/

namespace CraftPanel.Supervise

open Framework

/-- `RING_CAPACITY`, the bound of the ring and of the pending queue. -/
def ringCapacity : Nat := 2000

theorem ringCapacity_pos : 0 < ringCapacity := by decide

def channelDepth : Nat := 256

/-- What the wait for the child reports. -/
structure ExitStatus where
  code : Option Int
  signal : Option Int
  oomKilled : Bool
  deriving DecidableEq

def ExitStatus.message (status : ExitStatus) : Message :=
  .exited status.code status.signal status.oomKilled

inductive ExitWatch
  | waiting
  | holding (status : ExitStatus)
  | done
  deriving DecidableEq

/-- Where `connect_loop` and the `serve_panel` it calls stand. -/
inductive Phase
  | connect
  | drain
  | greet
  | replay (todo : List Message)
  | flush
  | serve
  | check
  | sleep
  | returned
  deriving DecidableEq

/-- `queued` and `delivered` are history: what the tasks have ever made, and the sends that
succeeded. -/
structure Loop where
  ring : Ring ringCapacity := .new ringCapacity
  held : List Line := []
  channel : List Message := []
  pending : List Message := []
  exit : ExitWatch := .waiting
  finished : Bool := false
  phase : Phase := .connect
  queued : List Message := []
  delivered : List Message := []

inductive Event
  | read (line : String) (stream : OutputStream)
  | enqueue (stream : OutputStream)
  | exits (status : Option ExitStatus)
  | enqueueExit
  | connect (ok : Bool)
  | drain
  | greet (accepted : Bool)
  | send (ok : Bool)
  | proceed
  | hangup
  | check
  | wake
  deriving DecidableEq

namespace Loop

variable (s : Loop)

def read (line : String) (stream : OutputStream) : Option Loop :=
  if s.held.any (·.stream = stream) then none
  else
    let (ring, seq) := s.ring.push ringCapacity_pos line stream
    some { s with
      ring
      held := s.held ++ [⟨seq, line, stream⟩]
      queued := s.queued ++ [.output ⟨seq, line, stream⟩] }

def enqueue (stream : OutputStream) : Option Loop :=
  match s.held.find? (·.stream = stream) with
  | some line =>
    if s.channel.length < channelDepth then
      some { s with held := s.held.erase line, channel := s.channel ++ [.output line] }
    else none
  | none => none

def exits (status : Option ExitStatus) : Option Loop :=
  match s.exit, status with
  | .waiting, some status => some { s with
      exit := .holding status, queued := s.queued ++ [status.message] }
  | .waiting, none => some { s with exit := .done }
  | _, _ => none

def enqueueExit : Option Loop :=
  match s.exit with
  | .holding status =>
    if s.channel.length < channelDepth then
      some { s with exit := .done, channel := s.channel ++ [status.message] }
    else none
  | _ => none

/-- One round of `drain_into`. -/
def drain : Option Loop :=
  match s.phase, s.channel with
  | .drain, [] => some { s with phase := .check }
  | .drain, message :: channel => some { s with
      channel
      pending := (if ringCapacity ≤ s.pending.length then s.pending.tail else s.pending) ++ [message] }
  | _, _ => none

/-- The next `send` of `serve_panel`: of the replay, of the pending queue, of the channel. Only
the last one puts a message back that could not be sent. -/
def send (ok : Bool) : Option Loop :=
  match s.phase with
  | .replay (message :: todo) =>
    if ok then some { s with phase := .replay todo, delivered := s.delivered ++ [message] }
    else some { s with phase := .check }
  | .flush => match s.pending with
    | message :: pending =>
      if ok then some { s with pending, delivered := s.delivered ++ [message] }
      else some { s with pending, phase := .check }
    | [] => none
  | .serve => match s.channel with
    | message :: channel =>
      if ok then some { s with channel, delivered := s.delivered ++ [message] }
      else some { s with channel, pending := s.pending ++ [message], phase := .check }
    | [] => none
  | _ => none

def proceed : Option Loop :=
  match s.phase with
  | .replay [] => some { s with phase := .flush }
  | .flush => if s.pending = [] then some { s with phase := .serve } else none
  | _ => none

/-- The end of one round of `connect_loop`. -/
def check : Option Loop :=
  match s.phase with
  | .check =>
    if s.finished && s.pending.isEmpty then some { s with phase := .returned }
    else some { s with finished := s.finished || s.exit = .done, phase := .sleep }
  | _ => none

/-- The process of the supervisor ends with the loop, and the tasks with it. -/
def step (e : Event) : Option Loop :=
  if s.phase = .returned then none
  else match e with
    | .read line stream => s.read line stream
    | .enqueue stream => s.enqueue stream
    | .exits status => s.exits status
    | .enqueueExit => s.enqueueExit
    | .connect ok =>
      if s.phase = .connect then some { s with phase := if ok then .greet else .drain } else none
    | .drain => s.drain
    | .greet accepted =>
      if s.phase = .greet then
        some { s with phase := if accepted then .replay s.ring.replay else .check }
      else none
    | .send ok => s.send ok
    | .proceed => s.proceed
    | .hangup => if s.phase = .serve then some { s with phase := .check } else none
    | .check => s.check
    | .wake => if s.phase = .sleep then some { s with phase := .connect } else none

end Loop

def loop : Machine Loop Event := ⟨Loop.step⟩

def sent (before after : Loop) : List Message := after.delivered.drop before.delivered.length

end CraftPanel.Supervise
