import CraftPanel.Framework.Looping
import CraftPanel.Drive.Upload

/-!
# Waiting on Google

`drive/retry.rs` with the calls of `drive/http.rs`: a call that is turned away is made again, after
a pause that grows. Every call has a budget of its own for its pauses; those of the calls that are
made within a run are also taken from the budget of the run. All that the surroundings say is ahead
in the state, moment after moment, and every question takes the next one.
-/

namespace CraftPanel.Drive

def DriveError.isWorthRepeating : DriveError → Bool
  | .unreachable _ | .rateLimited => true
  | .refused status _ _ => decide (status ≠ 507) && decide (500 ≤ status)
  | _ => false

def DriveError.display : DriveError → String
  | .unreachable reason => "Google could not be reached: " ++ reason
  | .revoked detail => "Google no longer accepts the connection: " ++ detail
  | .quotaFull detail => "the Google Drive of this account is full: " ++ detail
  | .rateLimited => "Google is turning us away for the moment"
  | .throttled detail => "Google is holding this account back: " ++ detail
  | .dayFull detail => "this account has sent Google as much as Google takes in a day: " ++ detail
  | .pending _ => "nobody has confirmed the code yet"
  | .denied => "the request was declined at google.com/device"
  | .expired => "the code expired before it was confirmed"
  | .gone => "Google does not know that any more"
  | .sessionOver => "the upload session ran out at Google and has to be opened again"
  | .abusive detail => "Google has this file down as malware or spam: " ++ detail
  | .refused _ _ detail => "Google refused the call: " ++ detail
  | .cancelled => "the run was called off"
  | .busy => "another run is already sending this backup to Google"
  | .unreadable detail => "Google answered in a shape we do not understand: " ++ detail
  | .damaged detail => "what lies in the Drive is not what left this machine: " ++ detail
  | .unconfirmed detail => "nothing says what lies in the Drive: " ++ detail
  | .replaced detail =>
    "the file in the Drive is no longer the archive the panel put there: " ++ detail
  | .setup detail => "the HTTP client could not be set up: " ++ detail

namespace Running

open Framework

/-- Durations are in milliseconds. -/
structure Backoff where
  tries : Nat
  first : Nat
  ceiling : Nat
  budget : Nat
  deriving DecidableEq

def Backoff.brief : Backoff := ⟨3, 1000, 4 * 1000, 10 * 1000⟩

def Backoff.patient : Backoff := ⟨7, 1000, 64 * 1000, 5 * 60 * 1000⟩

structure Pace where
  brief : Backoff
  patient : Backoff
  run : Nat

def Pace.real : Pace := ⟨.brief, .patient, 15 * 60 * 1000⟩

def slice : Nat := 200

/-- `LONGEST_HINT`, ten minutes. -/
def longestHint : Nat := 10 * 60 * 1000

/-- `Waiting`: whether the `Progress` of the run is watched, and the budget of the run that the
pauses are charged to. -/
structure Waiting where
  plan : Backoff
  watched : Bool := false
  run : Option Nat := none
  deriving DecidableEq

structure Setback where
  error : DriveError
  after : Option Nat := none
  deriving DecidableEq

/-- Of a random `u16`. -/
def jitter (chance first : Nat) : Nat :=
  let span := min first 1000
  if span = 0 then 0 else chance % span

def pauseAfter (chance tried : Nat) (said : Option Nat) (plan : Backoff) : Nat :=
  let grown := plan.first * 2 ^ min (tried - 1) 16
  let ours := min (grown + jitter chance plan.first) plan.ceiling
  max ours (min (said.getD 0) longestHint)

/-- How long a pause lasts that is slept slice by slice, and whether the run may carry on; a run that
is called off shows before the first slice that begins after so many. -/
def linger (calledOff : Option Nat) (pause : Nat) : Nat × Bool :=
  match calledOff with
  | none => (pause, true)
  | some slices => (min pause (slices * slice), decide ((pause + slice - 1) / slice < slices))

def spoken (pause : Nat) : String :=
  let seconds := pause / 1000
  if seconds = 0 then "a moment"
  else if seconds = 1 then "1 second"
  else if seconds < 120 then s!"{seconds} seconds"
  else
    let minutes := seconds / 60
    s!"{minutes} minutes"

def throttled (waited budget : Nat) (said : Option Nat) : DriveError :=
  let again := match said with
    | some after => "Google last asked for " ++ spoken after ++ " before the next call"
    | none => "Google named no time of its own, and its documentation names none either; " ++
        "an hour is the usual pause before another run is worth starting"
  .throttled ("Google turned this account away again and again. One run may spend " ++
    spoken budget ++ " waiting on it, and this one spent " ++ spoken waited ++
    ", so it stopped rather than carry on for hours. " ++ again ++ ".")

/-- A body, as each of its readers finds it. -/
structure Body where
  /-- The first reason and the message of an error of the API. -/
  reason : String := ""
  detail : String := ""
  /-- The name and the description of an error of OAuth. -/
  name : String := ""
  description : String := ""
  file : Except String Uploaded := .error "no file"
  /-- The limit and the usage of the storage. -/
  about : Except String (Option Nat × Option Nat) := .ok (none, none)
  /-- The first folder of a page, and whether there is another page. -/
  page : Except String (Option String × Bool) := .ok (none, false)
  made : Except String String := .ok ""
  /-- Whether there is something in the access token. -/
  token : Except String Bool := .ok true

structure Response where
  status : Nat := 200
  location : Option String := none
  range : Option String := none
  retryAfter : Option Nat := none
  body : Except String Body := .ok {}

/-- All that the surroundings say, whatever is asked next. -/
structure Moment where
  /-- `Progress::is_cancelled`, and the slices of a pause before it says so. -/
  calledOff : Bool := false
  calledOffAfter : Option Nat := none
  chance : Nat := 0
  answer : Except String Response := .ok {}
  /-- A token is held that is good for what it is wanted for. -/
  held : Bool := true
  credentials : Bool := true
  connected : Bool := true
  claimed : Bool := true
  archive : Bool := true
  unchanged : Bool := true
  /-- There is a row of this upload, of this archive, young enough and with its address. -/
  row : Bool := false
  /-- The digests of the front of the archive, where they are proven. -/
  proven : Option Bytes := none
  folder : Bool := true
  /-- What the archive holds from where it is read. -/
  bytes : Except String Bytes := .ok []
  /-- A statement reaches the database. -/
  written : Bool := true

/-- What is heard in a run. -/
inductive Heard
  /-- A call that is to be made again, its try and what its earlier pauses took. -/
  | turnedAway (waiting : Waiting) (tried spent : Nat) (setback : Setback) (chance : Nat)
  /-- A chunk up to `sent` was put at `offset`. -/
  | acknowledged (offset sent received : Nat)
  | finished (offset sent : Nat)
  /-- The `Range` of a 308. -/
  | range (last : Option Nat)
  | reopened (ok : Bool)
  | noted (ok : Bool)
  deriving DecidableEq

structure World where
  ahead : Nat → Moment
  asked : Nat := 0
  heard : List Heard := []
  /-- How long the run has slept. -/
  rested : Nat := 0
  /-- `Spent::waited`. -/
  waited : Nat := 0
  /-- The requests that have put a chunk. -/
  requests : Nat := 0
  /-- The sums and differences that were computed in `u64`, as they are in the integers. -/
  sums : List Int := []
  /-- `Tally::added`. -/
  added : Nat := 0
  /-- The bytes of the user in `drive_daily_uploads`. -/
  day : Nat := 0

abbrev Run (α : Type) := Effect World DriveError α

def ask {α : Type} (question : Moment → α) : Run α := fun w =>
  (.ok (question (w.ahead w.asked)), { w with asked := w.asked + 1 })

def hears (heard : Heard) : Run Unit := fun w => (.ok (), { w with heard := w.heard ++ [heard] })

def isCancelled (waiting : Waiting) : Run Bool :=
  if waiting.watched then ask Moment.calledOff else pure false

/-- `Spent::charge`, and the end of a run that has spent too much. -/
def charge (waiting : Waiting) (pause : Nat) (said : Option Nat) : Run Unit := fun w =>
  match waiting.run with
  | none => (.ok (), w)
  | some budget =>
    let overAll := w.waited + pause
    (if budget < overAll then .error (throttled overAll budget said) else .ok (),
      { w with waited := overAll })

def rest (waiting : Waiting) (pause : Nat) : Run Bool :=
  ask Moment.calledOffAfter >>= fun calledOff => fun w =>
    let (slept, carried) := linger (if waiting.watched then calledOff else none) pause
    (.ok carried, { w with rested := w.rested + slept })

/-- The pause after a call that was turned away, and where the next try stands. -/
def setsBack {α : Type} (waiting : Waiting) (tried spent : Nat) (setback : Setback) :
    Run ((Nat × Nat) ⊕ α) :=
  ask Moment.chance >>= fun chance =>
  hears (.turnedAway waiting tried spent setback chance) >>= fun _ =>
  let pause := pauseAfter chance tried setback.after waiting.plan
  if waiting.plan.budget < spent + pause then .fail setback.error
  else
    charge waiting pause setback.after >>= fun _ =>
    rest waiting pause >>= fun carried =>
    if carried then pure (.inl (tried, spent + pause)) else .fail .cancelled

/-- One pass of `keep_trying`. -/
def tryOnce {α : Type} (waiting : Waiting) (call : Run (Except Setback α)) (tried spent : Nat) :
    Run ((Nat × Nat) ⊕ α) :=
  isCancelled waiting >>= fun cancelled =>
  if cancelled then .fail .cancelled
  else
    call >>= fun
      | .ok value => pure (.inr value)
      | .error setback =>
        if waiting.plan.tries ≤ tried + 1 || !setback.error.isWorthRepeating then .fail setback.error
        else setsBack waiting (tried + 1) spent setback

section Tries

variable {α : Type} {waiting : Waiting} {call : Run (Except Setback α)} {tried spent : Nat} {w : World}

theorem setsBack_inl (setback : Setback) :
    (setsBack (α := α) waiting tried spent setback).Ends w fun result _ =>
      ∀ next, result = .ok (.inl next) → next.1 = tried := by
  unfold setsBack
  apply Effect.ends_bind_of
  · intro chance _
    apply Effect.ends_bind_of
    · intro _ _
      dsimp only
      split
      · intro next hnext
        cases hnext
      apply Effect.ends_bind_of
      · intro _ _
        apply Effect.ends_bind_of
        · intro carried _
          split
          · intro next hnext
            cases hnext
            rfl
          · intro next hnext
            cases hnext
        · intro _ _ next hnext
          cases hnext
      · intro _ _ next hnext
        cases hnext
    · intro _ _ next hnext
      cases hnext
  · intro _ _ next hnext
    cases hnext

theorem tryOnce_inl : (tryOnce waiting call tried spent).Ends w fun result _ =>
    ∀ next, result = .ok (.inl next) →
      waiting.plan.tries - next.1 < waiting.plan.tries - tried := by
  unfold tryOnce
  apply Effect.ends_bind_of
  · intro cancelled _
    split
    · intro next hnext
      cases hnext
    apply Effect.ends_bind_of
    · intro answer t
      split
      · intro next hnext
        cases hnext
      next setback =>
        split
        · intro next hnext
          cases hnext
        next hmore =>
          apply (setsBack_inl setback).mono
          intro result _ hresult next hnext
          have htried := hresult next hnext
          have hleft : ¬ waiting.plan.tries ≤ tried + 1 := fun hle => hmore (by simp [hle])
          omega
    · intro _ _ next hnext
      cases hnext
  · intro _ _ next hnext
    cases hnext

end Tries

/-- The loop of `keep_trying`, over the tries and what the pauses took. -/
def tries {α : Type} (waiting : Waiting) (call : Run (Except Setback α)) :
    Loop World DriveError (Nat × Nat) α where
  body := fun stand => tryOnce waiting call stand.1 stand.2
  measure := fun stand => waiting.plan.tries - stand.1
  lessens := fun hbody => tryOnce_inl.elim hbody _ rfl

def keepTrying {α : Type} (waiting : Waiting) (call : Run (Except Setback α)) : Run α :=
  (tries waiting call).finish (0, 0)

def breathe (waiting : Waiting) (tried : Nat) : Run Bool :=
  ask Moment.chance >>= fun chance => rest waiting (pauseAfter chance (max tried 1) none waiting.plan)

/-- What no question and no pause changes. -/
structure Quiet (R : World → World → Prop) : Prop where
  refl : ∀ w, R w w
  trans : ∀ w t u, R w t → R t u → R w u
  asks : ∀ w : World, R w { w with asked := w.asked + 1 }
  turned : ∀ (w : World) waiting tried spent setback chance,
    R w { w with heard := w.heard ++ [.turnedAway waiting tried spent setback chance] }
  waits : ∀ (w : World) waited, R w { w with waited }
  rests : ∀ (w : World) rested, R w { w with rested }

section Rules

variable {α : Type} {R : World → World → Prop} {waiting : Waiting} {call : Run (Except Setback α)}

theorem Quiet.ask (h : Quiet R) (question : Moment → α) : (ask question).Keeps R := h.asks

theorem Quiet.charge (h : Quiet R) (pause : Nat) (said : Option Nat) :
    (charge waiting pause said).Keeps R := by
  intro w
  unfold Running.charge Effect.Ends
  cases waiting.run with
  | none => exact h.refl w
  | some budget => exact h.waits w _

theorem Quiet.rest (h : Quiet R) (pause : Nat) : (rest waiting pause).Keeps R :=
  (h.ask _).bind h.trans fun _ w => h.rests w _

theorem Quiet.isCancelled (h : Quiet R) : (isCancelled waiting).Keeps R := by
  unfold Running.isCancelled
  split
  · exact h.ask _
  · exact Effect.keeps_pure h.refl _

theorem Quiet.breathe (h : Quiet R) (tried : Nat) : (breathe waiting tried).Keeps R :=
  (h.ask _).bind h.trans fun _ => h.rest _

theorem Quiet.setsBack (h : Quiet R) (tried spent : Nat) (setback : Setback) :
    (setsBack (α := α) waiting tried spent setback).Keeps R := by
  apply (h.ask _).bind h.trans
  intro chance
  have hturned : (hears (.turnedAway waiting tried spent setback chance)).Keeps R :=
    fun w => h.turned w _ _ _ _ _
  apply hturned.bind h.trans
  intro _
  dsimp only
  split
  · exact Effect.keeps_fail h.refl _
  apply (h.charge _ _).bind h.trans
  intro _
  apply (h.rest _).bind h.trans
  intro carried
  split
  · exact Effect.keeps_pure h.refl _
  · exact Effect.keeps_fail h.refl _

theorem Quiet.tryOnce (h : Quiet R) (hcall : call.Keeps R) (tried spent : Nat) :
    (tryOnce waiting call tried spent).Keeps R := by
  apply h.isCancelled.bind h.trans
  intro cancelled
  split
  · exact Effect.keeps_fail h.refl _
  apply hcall.bind h.trans
  intro answer
  split
  · exact Effect.keeps_pure h.refl _
  · split
    · exact Effect.keeps_fail h.refl _
    · exact h.setsBack _ _ _

theorem Quiet.keepTrying (h : Quiet R) (hcall : call.Keeps R) : (keepTrying waiting call).Keeps R :=
  Loop.finish_keeps h.refl h.trans (fun _ => h.tryOnce hcall _ _) (0, 0)

end Rules

end Running

end CraftPanel.Drive
