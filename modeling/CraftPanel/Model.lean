/-!
# The panel's wire types

The enumerations of `model.rs` and `servers/state.rs` that the stores, the manager and the
backup runs compare. Identifiers and timestamps are opaque to all of them but for equality and
order.
-/

namespace CraftPanel

/-- A ULID, read as its 128-bit number. -/
abbrev Id := Nat

/-- Milliseconds since the epoch. -/
abbrev Timestamp := Nat

inductive OperationKind
  | serverCreate | serverDelete | installLoader | repairContent | resetServer | installModpack
  | installContent | updateContent | changeGameVersion | installJava | backupCreate
  | backupRestore | unarchive
  deriving DecidableEq

inductive BusyReasonCode
  | installing | syncingContent | backupCreating | backupRestoring | deleting
  deriving DecidableEq

namespace OperationKind

def busyReason : OperationKind → Option BusyReasonCode
  | serverCreate | installLoader | repairContent | resetServer | installModpack
  | changeGameVersion | installJava => some .installing
  | serverDelete => some .deleting
  | installContent | updateContent => some .syncingContent
  | backupCreate => some .backupCreating
  | backupRestore => some .backupRestoring
  | unarchive => none

def isCancellable : OperationKind → Bool
  | serverCreate | backupCreate | backupRestore | unarchive => true
  | _ => false

def isRetryable : OperationKind → Bool
  | unarchive | serverDelete | backupCreate | backupRestore => false
  | _ => true

end OperationKind

inductive OperationState
  | queued | ongoing | done | failed | cancelled
  deriving DecidableEq

namespace OperationState

def isTerminal : OperationState → Bool
  | done | failed | cancelled => true
  | queued | ongoing => false

def isOpen (s : OperationState) : Bool := !s.isTerminal

end OperationState

inductive OperationPhase
  | analyzing | installingLoader | verifying | runningInstaller | installingJava | installingPack
  | addons | writingConfig
  deriving DecidableEq

inductive OperationErrorStep
  | modloader | modpack | download | filesystem | internal
  deriving DecidableEq

structure OperationError where
  code : String
  message : String
  step : OperationErrorStep
  deriving DecidableEq

inductive ServerStatus
  | installing | available | broken | deleting
  deriving DecidableEq

inductive PowerAction
  | start | stop | restart | kill
  deriving DecidableEq

inductive PowerState
  | stopped | starting | running | stopping | crashed
  deriving DecidableEq

/-- The three states `reconcile` selects as claiming a process. -/
def PowerState.isClaiming : PowerState → Bool
  | starting | running | stopping => true
  | stopped | crashed => false

inductive PowerTarget
  | start | stop | restart
  deriving DecidableEq

/-- What the hub knows of a process, `servers/state.rs`. -/
inductive RunState
  | stopped | installing | starting | running | stopping | terminated | crashed | outOfMemory
  deriving DecidableEq

namespace RunState

/-- `SIGTERM` on Linux. -/
def sigterm : Int := 15

def afterExit (code signal : Option Int) (oomKilled : Bool) : RunState :=
  if oomKilled then outOfMemory
  else if code = some 0 then stopped
  else if signal = some sigterm ∨ code = some (128 + sigterm) then terminated
  else crashed

def isLive : RunState → Bool
  | installing | starting | running | stopping => true
  | _ => false

def canBecome (a b : RunState) : Bool :=
  if a = b then false
  else match a, b with
    | stopped, installing | stopped, starting | terminated, installing | terminated, starting
    | crashed, installing | crashed, starting | outOfMemory, installing
    | outOfMemory, starting => true
    | installing, starting | installing, stopped | installing, crashed => true
    | starting, running | starting, stopping | starting, terminated | starting, crashed
    | starting, outOfMemory | starting, stopped => true
    | running, stopping | running, terminated | running, crashed | running, outOfMemory
    | running, stopped => true
    | stopping, stopped | stopping, terminated | stopping, crashed
    | stopping, outOfMemory => true
    | _, _ => false

end RunState

/-- `power_state_of` of `ops/events.rs`: what a run state is stored as, with the memory flag. -/
def powerStateOf : RunState → PowerState × Bool
  | .stopped | .installing | .terminated => (.stopped, false)
  | .starting => (.starting, false)
  | .running => (.running, false)
  | .stopping => (.stopping, false)
  | .crashed => (.crashed, false)
  | .outOfMemory => (.crashed, true)

end CraftPanel
