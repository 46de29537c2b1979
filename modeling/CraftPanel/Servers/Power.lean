import CraftPanel.Framework.Machine
import CraftPanel.Database

/-!
# The power of one server

The power routines, the watcher and the boot reconciliation of `servers/manager.rs`, with the part
of `servers/hub.rs` they stand on, for one server: no other server has a part in its entries. A
routine that runs under the server's gate is the list of statements it has still to make, and
every statement is one step, so whatever interleaves, interleaves between statements. Processes
and links are numbered in the order they come.
-/

namespace CraftPanel.Servers

open Framework

/-- `START_TIMEOUT`, two minutes. -/
def startTimeout : Nat := 120 * 1000

def outboxDepth : Nat := 256

structure Wish where
  target : Option PowerTarget := none
  killed : Bool := false
  undelivered : Bool := false
  deriving DecidableEq

/-- `StateReport`, with what the routines tell the channel. -/
structure StateReport where
  powerState : PowerState
  target : Option PowerTarget
  oomKilled : Bool
  deriving DecidableEq

/-- The two messages a supervisor gets about the process: `Stop` and `Kill`. -/
inductive Order
  | stop (graceSeconds : Nat)
  | kill
  deriving DecidableEq

structure Link where
  process : Nat
  state : RunState := .running
  outbox : List Order := []
  listening : Bool := true

/-- A supervisor with its process: the token it was spawned with, and the link it has. -/
structure Process where
  token : String
  alive : Bool := true
  greeted : Bool := false
  link : Option Nat := none
  received : List Order := []
  deriving DecidableEq

inductive Statement
  | guardWrite (action : PowerAction)
  | powerRow (action : PowerAction)
  | currentLink (action : PowerAction) (row : ServerRow)
  | currentRow (action : PowerAction) (row : ServerRow)
  | mayStart (row : ServerRow)
  | claim
  | spawn (token : String)
  | askLink (target : PowerTarget)
  | requestStop (link : Nat) (target : PowerTarget)
  | expectsStop (target : PowerTarget)
  | killLink
  | requestKill (link : Nat)
  | expectsKill
  | setToken (token : String)
  | clearToken
  | forgetToken
  | setWish (wish : Wish)
  | writeState (state : PowerState) (oom : Bool)
  | report (report : StateReport)
  | watch
  | startAgain
  deriving DecidableEq

def Statement.state (before : PowerState) : Statement → PowerState
  | .writeState state _ => state
  | _ => before

/-- What holds the server's gate: a power request, or the watcher in `settle`. -/
structure Holder where
  settling : Bool := false
  todo : List Statement

/-- The variables of `attend`. -/
structure Watch where
  last : RunState
  held : Option Nat := none
  since : Nat

/-- Where the task that `watch` spawned is. It is in `watched` as long as it is there at all. -/
inductive Watcher
  | entered
  | asleep (watch : Watch)
  | handing (watch : Watch) (link : Nat) (wish : Wish)
  | looking (watch : Watch) (link : Nat)
  | recording (watch : Watch)
  | ended (last : RunState)
  | settling
  | leaving

/-- `spawn_recovery`: `adopt_tokens`, the grace, and `reconcile` with what it still has to say of
this server. -/
inductive Recovery
  | adopts
  | adopted (token : Option String)
  | waits
  | reads (attached : Bool)
  | clears (todo : List Statement)
  deriving DecidableEq

structure System where
  row : ServerRow
  busy : Bool := false
  token : Option String := none
  hub : Option Nat := none
  links : List Link := []
  processes : List Process := []
  wish : Wish := {}
  gate : Option Holder := none
  watcher : Option Watcher := none
  recovery : Recovery := .adopts
  channel : Option StateReport := none
  stopGrace : Nat := 60
  clock : Nat := 0
  /-- This panel process has claimed the row for a start. -/
  startedHere : Bool := false

inductive Event
  | enters (action : PowerAction)
  | runs (ok : Bool)
  | claims (token : String)
  | spawns (ok started : Bool)
  | releases
  | watches
  | settles
  | recovers
  | greets (process : Nat)
  | attaches (process : Nat)
  | closes (process : Nat)
  | detaches (link : Nat)
  | breaks (link : Nat)
  | reads (link : Nat)
  | absorbsStarted (link : Nat)
  | absorbsExited (link : Nat) (code signal : Option Int) (oomKilled : Bool)
  | exits (process : Nat)
  | turnsBusy (busy : Bool)
  | turnsStatus (status : ServerStatus)
  | ticks (milliseconds : Nat)
  deriving DecidableEq

/-- `Manager::current` without a link. -/
def runStateOf (row : ServerRow) : RunState :=
  match row.powerState with
  | .stopped => .stopped
  | .starting => .starting
  | .running => .running
  | .stopping => .stopping
  | .crashed => if row.oomKilled then .outOfMemory else .crashed

def allows (action : PowerAction) (now : RunState) : Bool :=
  match action with
  | .start => now.canBecome .starting
  | .stop | .restart => now.canBecome .stopping
  | .kill => now.isLive

/-- `power` after its checks. -/
def routine (action : PowerAction) (row : ServerRow) (now : RunState) : List Statement :=
  if allows action now then match action with
    | .start => [.mayStart row]
    | .stop => [.askLink .stop]
    | .restart => [.askLink .restart]
    | .kill => [.killLink]
  else []

/-- `start` after the row is claimed. -/
def starting (token : String) : List Statement :=
  [.setToken token, .setWish { target := some .start }, .writeState .starting false,
    .report ⟨.starting, some .start, false⟩, .spawn token]

/-- `start` after a spawn that failed. -/
def notStarted : List Statement :=
  [.setWish {}, .writeState .stopped false, .report ⟨.stopped, none, false⟩]

/-- `ask_to_stop` after the order is given, or waits to be. -/
def stopping (target : PowerTarget) (undelivered : Bool) : List Statement :=
  [.setWish { target := some target, undelivered }, .writeState .stopping false,
    .report ⟨.stopping, some target, false⟩, .watch]

/-- `ask_to_stop` where nothing is there to stop. -/
def nothingToStop : List Statement :=
  [.writeState .stopped false, .report ⟨.stopped, none, false⟩]

def killing (undelivered : Bool) : List Statement :=
  [.setWish { killed := true, undelivered }, .writeState .stopping false,
    .report ⟨.stopping, none, false⟩, .watch]

/-- What `settle` writes down of an end. -/
def ending (wish : Wish) (last : RunState) : PowerState × Bool :=
  if wish.killed then (.stopped, false)
  else if last = .outOfMemory then (.crashed, true)
  else if wish.target = some .stop ∨ wish.target = some .restart then (.stopped, false)
  else match last with
    | .stopped | .installing | .terminated => (.stopped, false)
    | _ => (.crashed, false)

def settle (wish : Wish) (last : RunState) : List Statement :=
  let (state, oom) := ending wish last
  [.writeState state oom, .forgetToken, .report ⟨state, none, oom⟩, .setWish {}] ++
    if wish.target = some .restart then [.startAgain] else []

/-- `reconcile`, on a server that claims a process and is not among the attached. -/
def clearing : List Statement :=
  [.writeState .stopped false, .clearToken, .forgetToken, .report ⟨.stopped, none, false⟩]

namespace System

variable (s : System)

def linkState (k : Nat) : RunState := ((s.links[k]?).map Link.state).getD .stopped

def current : RunState := match s.hub with
  | some k => s.linkState k
  | none => runStateOf s.row

/-- `expects_a_supervisor`. -/
def expectsSupervisor : Bool := s.wish.undelivered || s.row.powerState = .starting

def setLink (k : Nat) (f : Link → Link) : System := { s with links := s.links.modify k f }

def setProcess (p : Nat) (f : Process → Process) : System :=
  { s with processes := s.processes.modify p f }

def writeState (state : PowerState) (oom : Bool) : System :=
  { s with row := { s.row with
    powerState := state
    runningSince := if state = .running then s.row.runningSince <|> some s.clock else none
    oomKilled := oom
    updatedAt := s.clock } }

/-- Send an order: taken where somebody listens, and waiting while the outbox is full. -/
def give (k : Nat) (order : Order) : Option (System × Bool) :=
  match s.links[k]? with
  | some link =>
    if link.listening then
      if link.outbox.length < outboxDepth then
        some (s.setLink k fun link => { link with outbox := link.outbox ++ [order] }, true)
      else none
    else some (s, false)
  | none => some (s, false)

def watch : System := if s.watcher.isSome then s else { s with watcher := some .entered }

/-- One statement: the system after it, and the statements that come of it. Where a routine fails
nothing comes of it; what may fail is the last of its list. -/
def perform (ok : Bool) : Statement → Option (System × List Statement)
  | .guardWrite action => some (s, if s.busy then [] else [.powerRow action])
  | .powerRow action => some (s, [.currentLink action s.row])
  | .currentLink action row => some (s, match s.hub with
    | some k => routine action row (s.linkState k)
    | none => [.currentRow action row])
  | .currentRow action row => some (s, routine action row (runStateOf s.row))
  | .mayStart row => some (s, if row.status = .available && ok then [.claim] else [])
  | .askLink target => some (s, match s.hub with
    | some k => [.requestStop k target]
    | none => [.expectsStop target])
  | .requestStop k target => (s.give k (.stop s.stopGrace)).map fun (s, taken) =>
      (s, if taken then stopping target false else [])
  | .expectsStop target =>
    some (s, if s.expectsSupervisor then stopping target true else nothingToStop)
  | .killLink => some (s, match s.hub with
    | some k => [.requestKill k]
    | none => [.expectsKill])
  | .requestKill k =>
    (s.give k .kill).map fun (s, taken) => (s, if taken then killing false else [])
  | .expectsKill => some (s, killing s.expectsSupervisor)
  | .setToken token => some ({ s with token := some token }, [])
  | .clearToken => some ({ s with row := { s.row with supervisorToken := none } }, [])
  | .forgetToken => some ({ s with token := none }, [])
  | .setWish wish => some ({ s with wish }, [])
  | .writeState state oom => some (s.writeState state oom, [])
  | .report report => some ({ s with channel := some report }, [])
  | .watch => some (s.watch, [])
  | .startAgain => some (s, [.mayStart s.row])
  | .claim | .spawn _ => none

/-- The `UPDATE` of `start`, with the token it draws. -/
def claim (token : String) : System :=
  { s with
    row := { s.row with
      supervisorToken := some token
      powerState := .starting
      runningSince := none
      exitCode := none
      oomKilled := false
      updatedAt := s.clock }
    startedHere := true }

def goesOn (holder : Holder) (todo : List Statement) : System :=
  { s with gate := some { holder with todo } }

def runs (ok : Bool) : Option System :=
  match s.gate with
  | some holder => match holder.todo with
    | statement :: rest =>
      (s.perform ok statement).map fun (s, todo) => s.goesOn holder (todo ++ rest)
    | [] => none
  | none => none

def claims (token : String) : Option System :=
  match s.gate with
  | some holder => match holder.todo with
    | .claim :: rest => some ((s.claim token).goesOn holder (starting token ++ rest))
    | _ => none
  | none => none

/-- The helper answers; a refusal may come although the process was started. -/
def spawns (ok started : Bool) : Option System :=
  match s.gate with
  | some holder => match holder.todo with
    | .spawn token :: rest =>
      let s := if ok || started then
        { s with processes := s.processes ++ [{ token }] } else s
      some (s.goesOn holder ((if ok then [.watch] else notStarted) ++ rest))
    | _ => none
  | none => none

def releases : Option System :=
  match s.gate with
  | some ⟨settling, []⟩ =>
    some { s with gate := none, watcher := if settling then some .leaving else s.watcher }
  | _ => none

def watches : Option System :=
  match s.watcher with
  | some .entered => some { s with watcher := some (.asleep ⟨s.current, none, s.clock⟩) }
  | some (.asleep watch) => match s.hub with
    | some k => some { s with watcher := some (
        if s.wish.undelivered then .handing watch k s.wish else .looking watch k) }
    | none =>
      if watch.last = .starting ∧ s.clock < watch.since + startTimeout then some s
      else some { s with watcher := some (.ended ((watch.held.map s.linkState).getD watch.last)) }
  | some (.handing watch k wish) =>
    (s.give k (if wish.killed then .kill else .stop s.stopGrace)).map fun (s, taken) =>
      { s with
        wish := if taken then { wish with undelivered := false } else s.wish
        watcher := some (.looking watch k) }
  | some (.looking watch k) =>
    let now := s.linkState k
    some { s with watcher := some (
      if now = watch.last then .asleep { watch with held := some k }
      else .recording { watch with held := some k, last := now }) }
  | some (.recording watch) =>
    let (state, oom) := powerStateOf watch.last
    some { s.writeState state oom with watcher := some (
      if watch.last.isLive then .asleep watch else .ended watch.last) }
  | some .leaving => some { s with watcher := none }
  | some (.ended _) | some .settling | none => none

/-- `settle` takes the gate. -/
def settles : Option System :=
  match s.watcher, s.gate with
  | some (.ended last), none =>
    some { s with watcher := some .settling, gate := some ⟨true, settle s.wish last⟩ }
  | _, _ => none

def recovers : Option System :=
  match s.recovery with
  | .adopts => some { s with recovery := .adopted s.row.supervisorToken }
  | .adopted token => some { s with token := token <|> s.token, recovery := .waits }
  | .waits => some { s with recovery := .reads s.hub.isSome }
  | .reads attached => some { s with recovery := .clears (
      if s.row.powerState.isClaiming then if attached then [.watch] else clearing else []) }
  | .clears (statement :: rest) =>
    (s.perform true statement).map fun (s, todo) => { s with recovery := .clears (todo ++ rest) }
  | .clears [] => none

/-- `greet` up to the check of the token. -/
def greets (p : Nat) : Option System :=
  match s.processes[p]? with
  | some process =>
    if process.link.isNone && s.token = some process.token then
      some (s.setProcess p fun process => { process with greeted := true })
    else none
  | none => none

/-- `greet` gives the link its place; an older one loses it. -/
def attaches (p : Nat) : Option System :=
  match s.processes[p]? with
  | some process =>
    if process.greeted then
      let s := s.setProcess p fun process =>
        { process with greeted := false, link := some s.links.length }
      some { s with links := s.links ++ [{ process := p }], hub := some s.links.length }
    else none
  | none => none

def isOpen (k : Nat) : Bool :=
  (s.links[k]?).any fun link => (s.processes[link.process]?).any fun process => process.link = some k

def detaches (k : Nat) : Option System :=
  if s.isOpen k then none
  else some { s.setLink k fun link => { link with listening := false, outbox := [] } with
    hub := if s.hub = some k then none else s.hub }

def reads (k : Nat) : Option System :=
  match s.links[k]? with
  | some link => match link.outbox with
    | order :: outbox =>
      if s.isOpen k then
        some ((s.setLink k fun link => { link with outbox }).setProcess link.process fun process =>
          { process with received := process.received ++ [order] })
      else none
    | [] => none
  | none => none

def step : Event → Option System
  | .enters action =>
    if s.gate.isNone then some { s with gate := some { todo := [.guardWrite action] } } else none
  | .runs ok => s.runs ok
  | .claims token => s.claims token
  | .spawns ok started => s.spawns ok started
  | .releases => s.releases
  | .watches => s.watches
  | .settles => s.settles
  | .recovers => s.recovers
  | .greets p => s.greets p
  | .attaches p => s.attaches p
  | .closes p => some (s.setProcess p fun process => { process with link := none, greeted := false })
  | .detaches k => s.detaches k
  | .breaks k => some (s.setLink k fun link => { link with listening := false })
  | .reads k => s.reads k
  | .absorbsStarted k => some (s.setLink k fun link => { link with state := .running })
  | .absorbsExited k code signal oomKilled =>
    some (s.setLink k fun link => { link with state := .afterExit code signal oomKilled })
  | .exits p => some (s.setProcess p fun process => { process with alive := false })
  | .turnsBusy busy => some { s with busy }
  | .turnsStatus status => some { s with row := { s.row with status } }
  | .ticks milliseconds => some { s with clock := s.clock + milliseconds }

variable {s}

theorem give_eq {k : Nat} {order : Order} {t : System} {taken : Bool}
    (h : s.give k order = some (t, taken)) : ∃ links, t = { s with links } := by
  unfold give at h
  split at h
  · split at h
    · split at h
      · simp only [Option.some.injEq, Prod.mk.injEq] at h
        exact ⟨_, h.1.symm⟩
      · simp at h
    · simp only [Option.some.injEq, Prod.mk.injEq] at h
      exact ⟨s.links, h.1.symm⟩
  · simp only [Option.some.injEq, Prod.mk.injEq] at h
    exact ⟨s.links, h.1.symm⟩

/-- A statement moves the power state by a write of it, the watcher by `watch`, and neither the
processes nor their attachment. -/
structure Frame (s : System) (statement : Statement) (t : System) : Prop where
  gate : t.gate = s.gate
  recovery : t.recovery = s.recovery
  hub : t.hub = s.hub
  processes : t.processes = s.processes
  startedHere : t.startedHere = s.startedHere
  status : t.row.status = s.row.status
  state : t.row.powerState = statement.state s.row.powerState
  watcher : t.watcher = if statement = .watch then s.watch.watcher else s.watcher

theorem perform_frame {ok : Bool} {statement : Statement} {t : System} {todo : List Statement}
    (h : s.perform ok statement = some (t, todo)) : s.Frame statement t := by
  cases statement with
  | requestStop k target | requestKill k =>
    simp only [perform, Option.map_eq_some_iff, Prod.mk.injEq] at h
    obtain ⟨⟨u, taken⟩, hgive, rfl, -⟩ := h
    obtain ⟨links, rfl⟩ := give_eq hgive
    exact ⟨rfl, rfl, rfl, rfl, rfl, rfl, rfl, rfl⟩
  | watch =>
    cases h
    unfold watch
    split
    · rename_i hsome
      exact ⟨rfl, rfl, rfl, rfl, rfl, rfl, rfl, by simp [watch, hsome]⟩
    · rename_i hnone
      exact ⟨rfl, rfl, rfl, rfl, rfl, rfl, rfl, by simp [watch, hnone]⟩
  | claim | spawn token => simp [perform] at h
  | _ =>
    cases h
    exact ⟨rfl, rfl, rfl, rfl, rfl, rfl, rfl, rfl⟩

theorem perform_clearing {ok : Bool} {statement : Statement} {todo : List Statement}
    {t : System} (hmem : statement ∈ Statement.watch :: clearing)
    (h : s.perform ok statement = some (t, todo)) : todo = [] := by
  simp only [clearing, List.mem_cons, List.not_mem_nil, or_false] at hmem
  rcases hmem with rfl | rfl | rfl | rfl | rfl <;>
    simp only [perform, Option.some.injEq, Prod.mk.injEq] at h <;> exact h.2.symm

theorem perform_todo {ok : Bool} {statement : Statement} {t : System} {todo : List Statement}
    (h : s.perform ok statement = some (t, todo)) :
    (∀ state oom, Statement.writeState state oom ∉ todo) ∨
      (∃ target undelivered, todo = stopping target undelivered) ∨ todo = nothingToStop ∨
      ∃ undelivered, todo = killing undelivered := by
  have hroutine : ∀ action row now state oom,
      Statement.writeState state oom ∉ routine action row now := by
    intro action row now state oom
    unfold routine
    split
    · cases action <;> simp
    · simp
  cases statement with
  | requestStop k target =>
    simp only [perform, Option.map_eq_some_iff, Prod.mk.injEq] at h
    obtain ⟨⟨u, taken⟩, -, -, rfl⟩ := h
    cases taken with
    | true => exact .inr (.inl ⟨target, false, rfl⟩)
    | false => simp
  | requestKill k =>
    simp only [perform, Option.map_eq_some_iff, Prod.mk.injEq] at h
    obtain ⟨⟨u, taken⟩, -, -, rfl⟩ := h
    cases taken with
    | true => exact .inr (.inr (.inr ⟨false, rfl⟩))
    | false => simp
  | claim | spawn token => simp [perform] at h
  | currentLink action row =>
    cases h
    left
    split
    · exact hroutine action row _
    · simp
  | currentRow action row =>
    cases h
    exact .inl (hroutine action row _)
  | expectsStop target =>
    cases h
    right
    split
    · exact .inl ⟨target, true, rfl⟩
    · exact .inr (.inl rfl)
  | expectsKill =>
    cases h
    exact .inr (.inr (.inr ⟨_, rfl⟩))
  | guardWrite action | mayStart row | askLink target | killLink =>
    cases h
    left
    split <;> simp
  | _ =>
    cases h
    left
    simp

/-- The steps that are taken, with what they were found to be. -/
inductive Moved (s : System) : Event → System → Prop
  | enters {action} (hgate : s.gate = none) :
    Moved s (.enters action) { s with gate := some { todo := [.guardWrite action] } }
  | runs {ok holder statement rest u todo} (hgate : s.gate = some holder)
    (htodo : holder.todo = statement :: rest) (hperform : s.perform ok statement = some (u, todo)) :
    Moved s (.runs ok) (u.goesOn holder (todo ++ rest))
  | claims {token holder rest} (hgate : s.gate = some holder) (htodo : holder.todo = .claim :: rest) :
    Moved s (.claims token) ((s.claim token).goesOn holder (starting token ++ rest))
  | spawns {ok started token holder rest} (hgate : s.gate = some holder)
    (htodo : holder.todo = .spawn token :: rest) :
    Moved s (.spawns ok started) ((if ok || started then
      { s with processes := s.processes ++ [{ token }] } else s).goesOn holder
        ((if ok then [.watch] else notStarted) ++ rest))
  | releases {settling} (hgate : s.gate = some ⟨settling, []⟩) : Moved s .releases
    { s with gate := none, watcher := if settling then some .leaving else s.watcher }
  | lies (hwatcher : s.watcher = some .entered) :
    Moved s .watches { s with watcher := some (.asleep ⟨s.current, none, s.clock⟩) }
  | wakes {watch k} (hwatcher : s.watcher = some (.asleep watch)) (hhub : s.hub = some k) :
    Moved s .watches { s with watcher := some (
      if s.wish.undelivered then .handing watch k s.wish else .looking watch k) }
  | waits {watch} (hwatcher : s.watcher = some (.asleep watch)) (hhub : s.hub = none)
    (hearly : watch.last = .starting ∧ s.clock < watch.since + startTimeout) : Moved s .watches s
  | ends {watch} (hwatcher : s.watcher = some (.asleep watch)) (hhub : s.hub = none)
    (hlate : ¬ (watch.last = .starting ∧ s.clock < watch.since + startTimeout)) :
    Moved s .watches
      { s with watcher := some (.ended ((watch.held.map s.linkState).getD watch.last)) }
  | hands {watch k wish u taken} (hwatcher : s.watcher = some (.handing watch k wish))
    (hgive : s.give k (if wish.killed then .kill else .stop s.stopGrace) = some (u, taken)) :
    Moved s .watches { u with
      wish := if taken then { wish with undelivered := false } else u.wish
      watcher := some (.looking watch k) }
  | looks {watch k} (hwatcher : s.watcher = some (.looking watch k)) :
    Moved s .watches { s with watcher := some (
      if s.linkState k = watch.last then .asleep { watch with held := some k }
      else .recording { watch with held := some k, last := s.linkState k }) }
  | records {watch} (hwatcher : s.watcher = some (.recording watch)) :
    Moved s .watches
      { s.writeState (powerStateOf watch.last).1 (powerStateOf watch.last).2 with watcher := some (
        if watch.last.isLive then .asleep watch else .ended watch.last) }
  | leaves (hwatcher : s.watcher = some .leaving) : Moved s .watches { s with watcher := none }
  | settles {last} (hwatcher : s.watcher = some (.ended last)) (hgate : s.gate = none) :
    Moved s .settles
      { s with watcher := some .settling, gate := some ⟨true, settle s.wish last⟩ }
  | adopts (hrecovery : s.recovery = .adopts) :
    Moved s .recovers { s with recovery := .adopted s.row.supervisorToken }
  | adopted {token} (hrecovery : s.recovery = .adopted token) :
    Moved s .recovers { s with token := token <|> s.token, recovery := .waits }
  | finds (hrecovery : s.recovery = .waits) :
    Moved s .recovers { s with recovery := .reads s.hub.isSome }
  | judges {attached} (hrecovery : s.recovery = .reads attached) :
    Moved s .recovers { s with recovery := .clears (
      if s.row.powerState.isClaiming then if attached then [.watch] else clearing else []) }
  | clears {statement rest u todo} (hrecovery : s.recovery = .clears (statement :: rest))
    (hperform : s.perform true statement = some (u, todo)) :
    Moved s .recovers { u with recovery := .clears (todo ++ rest) }
  | greets {p process} (hprocess : s.processes[p]? = some process) (hlink : process.link = none)
    (htoken : s.token = some process.token) :
    Moved s (.greets p) (s.setProcess p fun process => { process with greeted := true })
  | attaches {p process} (hprocess : s.processes[p]? = some process)
    (hgreeted : process.greeted = true) :
    Moved s (.attaches p) { s.setProcess p fun process =>
        { process with greeted := false, link := some s.links.length } with
      links := s.links ++ [{ process := p }], hub := some s.links.length }
  | closes {p} : Moved s (.closes p)
    (s.setProcess p fun process => { process with link := none, greeted := false })
  | detaches {k} (hclosed : s.isOpen k = false) : Moved s (.detaches k)
    { s.setLink k fun link => { link with listening := false, outbox := [] } with
      hub := if s.hub = some k then none else s.hub }
  | breaks {k} : Moved s (.breaks k) (s.setLink k fun link => { link with listening := false })
  | reads {k link order outbox} (hlink : s.links[k]? = some link)
    (houtbox : link.outbox = order :: outbox) (hopen : s.isOpen k = true) :
    Moved s (.reads k) ((s.setLink k fun link => { link with outbox }).setProcess link.process
      fun process => { process with received := process.received ++ [order] })
  | absorbsStarted {k} :
    Moved s (.absorbsStarted k) (s.setLink k fun link => { link with state := .running })
  | absorbsExited {k code signal oomKilled} : Moved s (.absorbsExited k code signal oomKilled)
    (s.setLink k fun link => { link with state := .afterExit code signal oomKilled })
  | exits {p} : Moved s (.exits p) (s.setProcess p fun process => { process with alive := false })
  | turnsBusy {busy} : Moved s (.turnsBusy busy) { s with busy }
  | turnsStatus {status} : Moved s (.turnsStatus status) { s with row := { s.row with status } }
  | ticks {milliseconds} :
    Moved s (.ticks milliseconds) { s with clock := s.clock + milliseconds }

theorem moved_watches {t : System} (h : s.watches = some t) : s.Moved .watches t := by
  unfold watches at h
  split at h
  · next hwatcher =>
    cases h
    exact .lies hwatcher
  · next hwatcher =>
    split at h
    · next hhub =>
      cases h
      exact .wakes hwatcher hhub
    next hhub =>
    split at h
    · next hearly =>
      cases h
      exact .waits hwatcher hhub hearly
    · next hlate =>
      cases h
      exact .ends hwatcher hhub hlate
  · next hwatcher =>
    obtain ⟨⟨u, taken⟩, hgive, rfl⟩ := Option.map_eq_some_iff.mp h
    exact .hands hwatcher hgive
  · next hwatcher =>
    cases h
    exact .looks hwatcher
  · next hwatcher =>
    cases h
    exact .records hwatcher
  · next hwatcher =>
    cases h
    exact .leaves hwatcher
  · cases h
  · cases h
  · cases h

theorem moved_recovers {t : System} (h : s.recovers = some t) : s.Moved .recovers t := by
  unfold recovers at h
  split at h
  · next hrecovery =>
    cases h
    exact .adopts hrecovery
  · next hrecovery =>
    cases h
    exact .adopted hrecovery
  · next hrecovery =>
    cases h
    exact .finds hrecovery
  · next hrecovery =>
    cases h
    exact .judges hrecovery
  · next hrecovery =>
    obtain ⟨⟨u, todo⟩, hperform, rfl⟩ := Option.map_eq_some_iff.mp h
    exact .clears hrecovery hperform
  · cases h

theorem moved {e : Event} {t : System} (h : s.step e = some t) : s.Moved e t := by
  cases e with
  | watches => exact moved_watches h
  | recovers => exact moved_recovers h
  | enters action =>
    simp only [step] at h
    split at h
    · next hgate =>
      cases h
      exact .enters (Option.isNone_iff_eq_none.mp hgate)
    · cases h
  | runs ok =>
    simp only [step, runs] at h
    split at h
    · next hgate =>
      split at h
      · next htodo =>
        obtain ⟨⟨u, todo⟩, hperform, rfl⟩ := Option.map_eq_some_iff.mp h
        exact .runs hgate htodo hperform
      · cases h
    · cases h
  | claims token =>
    simp only [step, claims] at h
    split at h
    · next hgate =>
      split at h
      · next htodo =>
        cases h
        exact .claims hgate htodo
      · cases h
    · cases h
  | spawns ok started =>
    simp only [step, spawns] at h
    split at h
    · next hgate =>
      split at h
      · next htodo =>
        cases h
        exact .spawns hgate htodo
      · cases h
    · cases h
  | releases =>
    simp only [step, releases] at h
    split at h
    · next hgate =>
      cases h
      exact .releases hgate
    · cases h
  | settles =>
    simp only [step, settles] at h
    split at h
    · next hwatcher hgate =>
      cases h
      exact .settles hwatcher hgate
    · cases h
  | greets p =>
    simp only [step, greets] at h
    split at h
    · next hprocess =>
      split at h
      · next hfits =>
        cases h
        simp only [Bool.and_eq_true, Option.isNone_iff_eq_none, decide_eq_true_eq] at hfits
        exact .greets hprocess hfits.1 hfits.2
      · cases h
    · cases h
  | attaches p =>
    simp only [step, attaches] at h
    split at h
    · next hprocess =>
      split at h
      · next hgreeted =>
        cases h
        exact .attaches hprocess hgreeted
      · cases h
    · cases h
  | detaches k =>
    simp only [step, detaches] at h
    split at h
    · cases h
    · next hclosed =>
      cases h
      exact .detaches (Bool.eq_false_iff.mpr hclosed)
  | reads k =>
    simp only [step, reads] at h
    split at h
    · next hlink =>
      split at h
      · next houtbox =>
        split at h
        · next hopen =>
          cases h
          exact .reads hlink houtbox hopen
        · cases h
      · cases h
    · cases h
  | closes | breaks | absorbsStarted | absorbsExited | exits | turnsBusy | turnsStatus | ticks =>
    cases h
    constructor

end System

def machine : Machine System Event := ⟨System.step⟩

theorem moved_of_step {s t : System} {e : Event} (h : machine.step s e = some t) : s.Moved e t :=
  System.moved h

/-- A panel that has just come up: the row and the processes are what the last one left. -/
def booted (row : ServerRow) (processes : List Process) : System := { row, processes }

end CraftPanel.Servers
