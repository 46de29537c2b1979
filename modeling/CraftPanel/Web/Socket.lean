import CraftPanel.Framework.Machine

/-!
# One connection to a server

`ServerSocket` of `api/socket.ts`. What a transport calls back does not say which transport it
comes from, so the socket keeps to one connection as long as no transport calls back that it has
let go of.
-/

namespace CraftPanel.Web

open Framework

inductive Phase
  | connecting | opened | waiting | closed
  deriving DecidableEq

/-- `ServerSocketStatus`. -/
structure Status where
  phase : Phase := .closed
  authIncorrect : Bool := false
  closeCode : Option Nat := none
  attempts : Nat := 0
  givenUp : Bool := false

/-- A message that `parseMessage` knows, as far as the connection has to do with it. -/
inductive Message
  | historyStart | historyEnd | other
  deriving DecidableEq

/-- What has become of a transport: whether it was told to close, and whether it has. -/
structure Transport where
  told : Bool := false
  gone : Bool := false

/-- The fields of `ServerSocket`, with every transport that it ever had and the timeouts that are
still to come. The last three are a record: which transport each dispatched message came from and
which was the current one, how many connections were lost since one stood, and whether the last one
lost is to be replaced. -/
structure Socket where
  transport : Option Nat := none
  timer : Bool := false
  stopped : Bool := false
  inHistory : Bool := false
  state : Status := {}
  transports : List Transport := []
  timeouts : Nat := 0
  dispatched : List (Nat × Option Nat) := []
  lost : Nat := 0
  due : Bool := false

inductive Event
  | connect
  | close
  | opens (transport : Nat)
  | message (transport : Nat) (message : Option Message)
  | closes (transport code : Nat)
  | fires

def finalCloseCodes : List Nat := [1000, 4401, 4403, 4404, 4429]

def authCloseCodes : List Nat := [4401, 4403]

namespace Socket

variable (s : Socket)

/-- `open`. -/
def openWith (patch : Status → Status) : Socket :=
  { s with
    state := patch { s.state with phase := .connecting }
    transport := some s.transports.length
    transports := s.transports ++ [{}]
    due := false }

def connect : Socket :=
  if s.transport.isSome || s.timer then s
  else
    { s with stopped := false, lost := 0 }.openWith fun state =>
      { state with attempts := 0, givenUp := false, authIncorrect := false, closeCode := none }

def clearTimer : Socket :=
  if s.timer then { s with timer := false, timeouts := s.timeouts - 1 } else s

def close : Socket :=
  let s := { s with stopped := true }.clearTimer
  { s with
    transports := match s.transport with
      | some i => s.transports.modify i ({ · with told := true })
      | none => s.transports
    transport := none
    state := { s.state with phase := .closed }
    due := false }

def handleClose (maxAttempts code : Nat) : Socket :=
  let s := { s with transport := none, inHistory := false }
  let authIncorrect := authCloseCodes.contains code
  if s.stopped || finalCloseCodes.contains code then
    { s with state := { s.state with phase := .closed, closeCode := some code, authIncorrect } }
  else
    let attempts := s.state.attempts + 1
    if maxAttempts < attempts then
      { s with state :=
          { s.state with phase := .closed, closeCode := some code, attempts, givenUp := true } }
    else
      { s with
        state := { s.state with phase := .waiting, closeCode := some code, attempts }
        timer := true
        timeouts := s.timeouts + 1 }

/-- What `setTimeout` was given. -/
def fire : Socket :=
  let s := { s with timer := false }
  if s.stopped then s else s.openWith id

def dispatch (transport : Nat) (message : Message) : Socket :=
  { s with
    inHistory := match message with
      | .historyStart => true
      | .historyEnd => false
      | .other => s.inHistory
    dispatched := (transport, s.transport) :: s.dispatched }

def isOpen (i : Nat) : Bool := (s.transports[i]?).any fun transport =>
  !transport.told && !transport.gone

end Socket

def machine (maxAttempts : Nat) : Machine Socket Event where
  step s
    | .connect => some s.connect
    | .close => some s.close
    | .opens i =>
      if i < s.transports.length then
        some { s with
          state := { s.state with phase := .opened, attempts := 0 }
          lost := if s.transport = some i then 0 else s.lost }
      else none
    | .message i message =>
      if i < s.transports.length then some (message.elim s (s.dispatch i)) else none
    | .closes i code =>
      if i < s.transports.length then
        let after := { s with transports := s.transports.modify i ({ · with gone := true }) }
        if s.transport = some i then
          let again := !s.stopped && !finalCloseCodes.contains code
          some ({ after with
            due := again
            lost := if again then s.lost + 1 else s.lost }.handleClose maxAttempts code)
        else some (after.handleClose maxAttempts code)
      else none
    | .fires => if s.timeouts = 0 then none else some { s with timeouts := s.timeouts - 1 }.fire

def Heeds (s : Socket) : Event → Prop
  | .opens i | .closes i _ => s.transport = some i ∨ s.stopped = true
  | .message i message => s.transport = some i ∨ message = none
  | .connect | .close | .fires => True

instance (s : Socket) : ∀ e, Decidable (Heeds s e)
  | .opens _ | .closes _ _ | .message _ _ => by unfold Heeds; infer_instance
  | .connect | .close | .fires => isTrue trivial

/-- There is one connection at most, whose messages alone are dispatched; none and no timeout once
the socket is closed; and a lost one is tried again as often as it may be. -/
structure Kept (maxAttempts : Nat) (s : Socket) : Prop where
  one : ∀ i j, s.isOpen i → s.isOpen j → i = j
  current : ∀ entry ∈ s.dispatched, entry.2 = some entry.1
  quiet : s.stopped = true → s.transport = none ∧ s.timer = false ∧ s.timeouts = 0 ∧
    ∀ i, s.isOpen i = false
  retried : s.due = true → if s.lost ≤ maxAttempts
    then (machine maxAttempts).Ends s [.fires] fun t => t.transport = some s.transports.length
    else s.state.givenUp = true ∧ s.timeouts = 0

structure Inv (maxAttempts : Nat) (s : Socket) : Prop where
  current : ∀ i, s.isOpen i → s.transport = some i
  dispatched : ∀ entry ∈ s.dispatched, entry.2 = some entry.1
  stopped : s.stopped = true → s.transport = none ∧ s.timer = false
  timeouts : s.timeouts = if s.timer then 1 else 0
  timer : s.timer = true → s.transport = none
  counted : s.stopped = false → s.state.attempts = s.lost
  due : s.due = true → s.transport = none ∧ s.stopped = false ∧
    if s.lost ≤ maxAttempts then s.timer = true else s.state.givenUp = true ∧ s.timer = false

section Steps

variable {maxAttempts : Nat} {s t : Socket}

theorem isOpen_modify {f : Transport → Transport} (hf : ∀ transport,
    (f transport).told = true ∨ (f transport).gone = true) {i j : Nat}
    (h : Socket.isOpen { s with transports := s.transports.modify j f } i = true) :
    s.isOpen i = true ∧ i ≠ j := by
  simp only [Socket.isOpen, List.getElem?_modify] at h ⊢
  by_cases hij : j = i
  · subst hij
    cases hget : s.transports[j]? with
    | none => simp [hget] at h
    | some transport => rcases hf transport with hf | hf <;> simp [hget, hf] at h
  · exact ⟨by simpa [hij] using h, fun he => hij he.symm⟩

theorem Inv.closed (h : Inv maxAttempts s) (hnone : s.transport = none) (i : Nat) :
    s.isOpen i = false := by
  by_contra hopen
  have := h.current i (by simpa using hopen)
  rw [hnone] at this
  cases this

theorem openWith_inv {patch : Status → Status} (hclosed : ∀ i, s.isOpen i = false)
    (hdispatched : ∀ entry ∈ s.dispatched, entry.2 = some entry.1) (hstopped : s.stopped = false)
    (htimer : s.timer = false) (htimeouts : s.timeouts = 0)
    (hcounted : (patch { s.state with phase := .connecting }).attempts = s.lost) :
    Inv maxAttempts (s.openWith patch) where
  current := by
    intro i hi
    have hold := hclosed i
    simp only [Socket.isOpen, Socket.openWith, List.getElem?_append] at hi hold ⊢
    split at hi
    · rw [hold] at hi
      cases hi
    rename_i hge
    by_cases heq : i - s.transports.length = 0
    · rw [show i = s.transports.length by omega]
    · simp [heq] at hi
  dispatched := hdispatched
  stopped := by simp [Socket.openWith, hstopped]
  timeouts := by simp [Socket.openWith, htimer, htimeouts]
  timer := by simp [Socket.openWith, htimer]
  counted := fun _ => hcounted
  due := by simp [Socket.openWith]

theorem connect_inv (h : Inv maxAttempts s) : Inv maxAttempts s.connect := by
  unfold Socket.connect
  split
  · exact h
  rename_i hfree
  simp only [Bool.or_eq_true, not_or, Bool.not_eq_true, Option.isSome_eq_false_iff,
    Option.isNone_iff_eq_none] at hfree
  have htimeouts := h.timeouts
  rw [hfree.2] at htimeouts
  exact openWith_inv (s := { s with stopped := false, lost := 0 }) (h.closed hfree.1)
    h.dispatched rfl hfree.2 htimeouts rfl

theorem clearTimer_eq : s.clearTimer =
    { s with timer := false, timeouts := s.timeouts - if s.timer then 1 else 0 } := by
  rcases s with ⟨_, timer, _⟩
  cases timer <;> rfl

theorem close_inv (h : Inv maxAttempts s) : Inv maxAttempts s.close := by
  have htimeouts := h.timeouts
  simp only [Socket.close, clearTimer_eq, htimeouts, Nat.sub_self]
  refine ⟨fun i hi => ?_, h.dispatched, fun _ => ⟨rfl, rfl⟩, rfl, nofun, nofun, nofun⟩
  cases htransport : s.transport with
  | none =>
    simp only [htransport] at hi
    exact absurd hi (by simpa [Socket.isOpen] using h.closed htransport i)
  | some j =>
    simp only [htransport] at hi
    obtain ⟨hold, hne⟩ := isOpen_modify (s := s) (f := ({ · with told := true }))
      (fun _ => .inl rfl) hi
    exact absurd (Option.some.inj ((h.current i hold).symm.trans htransport)) hne

theorem closes_inv (h : Inv maxAttempts s) {i : Nat} (hi : s.transport = some i) (code : Nat)
    (hstep : (machine maxAttempts).step s (.closes i code) = some t) : Inv maxAttempts t := by
  have hstopped : s.stopped = false := by
    by_contra hstopped
    simp [(h.stopped (by simpa using hstopped)).1] at hi
  have htimer : s.timer = false := by
    by_contra htimer
    simp [h.timer (by simpa using htimer)] at hi
  have hclosed : ∀ j, Socket.isOpen
      { s with transports := s.transports.modify i ({ · with gone := true }) } j ≠ true := by
    intro j hj
    obtain ⟨hold, hne⟩ := isOpen_modify (fun _ => .inr rfl) hj
    exact hne (Option.some.inj ((h.current j hold).symm.trans hi))
  have htimeouts := h.timeouts
  have hcounted := h.counted hstopped
  simp only [machine, hi, if_true, hstopped, Bool.not_false, Bool.true_and] at hstep
  split at hstep
  · cases hstep
    cases hfinal : finalCloseCodes.contains code with
    | true =>
      simp only [Socket.handleClose, hfinal, Bool.or_true, if_true]
      exact ⟨fun j hj => absurd hj (hclosed j), h.dispatched, nofun, htimeouts,
        fun _ => rfl, fun _ => hcounted, nofun⟩
    | false =>
      simp only [Socket.handleClose, hfinal, Bool.or_self, Bool.false_eq_true, if_false]
      split
      · rename_i hmax
        refine ⟨fun j hj => absurd hj (hclosed j), h.dispatched, nofun, htimeouts,
          fun _ => rfl, fun _ => ?_, fun _ => ⟨rfl, rfl, ?_⟩⟩
        · simp [hcounted]
        · simp only [hcounted] at hmax
          simp [Nat.not_le.mpr hmax, htimer]
      · rename_i hmax
        refine ⟨fun j hj => absurd hj (hclosed j), h.dispatched, nofun, ?_,
          fun _ => rfl, fun _ => ?_, fun _ => ⟨rfl, rfl, ?_⟩⟩
        · simp [htimeouts, htimer]
        · simp [hcounted]
        · simp only [hcounted] at hmax
          simp [Nat.not_lt.mp hmax]
  · cases hstep

theorem step_inv (h : Inv maxAttempts s) {event : Event} (hheeds : Heeds s event)
    (hstep : (machine maxAttempts).step s event = some t) : Inv maxAttempts t := by
  cases event with
  | connect =>
    cases hstep
    exact connect_inv h
  | close =>
    cases hstep
    exact close_inv h
  | opens i =>
    simp only [machine] at hstep
    split at hstep
    · cases hstep
      refine ⟨h.current, h.dispatched, h.stopped, h.timeouts, h.timer, fun hrunning => ?_, fun hdue => ?_⟩
      · rcases hheeds with hi | hstopped
        · simp [hi]
        · simp [hstopped] at hrunning
      · obtain ⟨hnone, hrunning, -⟩ := h.due hdue
        rcases hheeds with hi | hstopped
        · simp [hnone] at hi
        · simp [hstopped] at hrunning
    · cases hstep
  | message i message =>
    simp only [machine] at hstep
    split at hstep
    · cases hstep
      cases message with
      | none => exact h
      | some message =>
        obtain hi : s.transport = some i := by simpa [Heeds] using hheeds
        refine ⟨h.current, ?_, h.stopped, h.timeouts, h.timer, h.counted, h.due⟩
        rintro entry (_ | ⟨_, hentry⟩)
        · exact hi
        · exact h.dispatched entry hentry
    · cases hstep
  | closes i code =>
    by_cases hi : s.transport = some i
    · exact closes_inv h hi code hstep
    have hstopped : s.stopped = true := hheeds.resolve_left hi
    simp only [machine, hi, if_false] at hstep
    split at hstep
    · cases hstep
      simp only [Socket.handleClose, hstopped, Bool.true_or, if_true]
      refine ⟨fun j hj => ?_, h.dispatched, fun _ => ⟨rfl, (h.stopped hstopped).2⟩, h.timeouts,
        fun _ => rfl, nofun, fun hdue => ?_⟩
      · have hold := (isOpen_modify (s := s) (f := ({ · with gone := true }))
          (fun _ => .inr rfl) hj).1
        simp [h.closed (h.stopped hstopped).1 j] at hold
      · simp [(h.due hdue).2.1] at hstopped
    · cases hstep
  | fires =>
    simp only [machine] at hstep
    split at hstep
    · cases hstep
    rename_i hsome
    cases hstep
    have htimeouts := h.timeouts
    have htimer : s.timer = true := by
      by_contra htimer
      exact hsome (by simpa [htimer] using htimeouts)
    have hstopped : s.stopped = false := by
      by_contra hstopped
      simp [(h.stopped (by simpa using hstopped)).2] at htimer
    simp only [Socket.fire, hstopped, Bool.false_eq_true, if_false]
    exact openWith_inv (h.closed (h.timer htimer)) h.dispatched rfl rfl
      (by simp [htimeouts, htimer]) (h.counted hstopped)

end Steps

theorem Inv.kept {maxAttempts : Nat} {s : Socket} (h : Inv maxAttempts s) : Kept maxAttempts s where
  one := fun i j hi hj => Option.some.inj ((h.current i hi).symm.trans (h.current j hj))
  current := h.dispatched
  quiet := by
    intro hstopped
    obtain ⟨hnone, htimer⟩ := h.stopped hstopped
    exact ⟨hnone, htimer, by rw [h.timeouts, htimer]; rfl, h.closed hnone⟩
  retried := by
    intro hdue
    obtain ⟨-, hstopped, hretry⟩ := h.due hdue
    have htimeouts := h.timeouts
    split
    · rename_i hmax
      rw [if_pos hmax] at hretry
      rw [hretry] at htimeouts
      refine ⟨_, by simp [Machine.exec, machine, htimeouts, Socket.fire, hstopped]; rfl, rfl⟩
    · rename_i hmax
      rw [if_neg hmax] at hretry
      exact ⟨hretry.1, by rw [htimeouts, hretry.2]; rfl⟩

/-- As long as only the current transport calls back, the socket keeps to one connection. -/
theorem socket_keeps_one {maxAttempts : Nat} {s : Socket} {events : List Event}
    (hheeds : (machine maxAttempts).Meets Heeds {} events)
    (hrun : (machine maxAttempts).exec {} events = some s) : Kept maxAttempts s := by
  refine Inv.kept ((machine maxAttempts).invariant (fun h => step_inv h) ?_ hheeds hrun)
  exact ⟨by simp [Socket.isOpen], by simp, by simp, rfl, by simp, fun _ => rfl, by simp⟩

def lostOnce : List Event :=
  [.connect, .opens 0, .closes 0 1006, .fires, .opens 1, .message 1 (some .other), .close,
    .closes 1 1000]

theorem socket_keeps_one_lost : ∃ s, (machine 8).exec {} lostOnce = some s ∧ Kept 8 s := by
  have hends : (machine 8).Ends {} lostOnce fun s => s.transports.length = 2 := by decide
  obtain ⟨s, hrun, -⟩ := hends
  exact ⟨s, hrun, socket_keeps_one (by decide) hrun⟩

/-- The transport of before the last `close` closes late: the new one is forgotten, and a second
one is opened beside it. -/
theorem forgotten_transport : (machine 8).Ends {}
    [.connect, .close, .connect, .closes 0 1006, .fires, .message 1 (some .other)]
    fun s => (s.isOpen 1 ∧ s.isOpen 2) ∧ (1, some 2) ∈ s.dispatched := by
  decide

end CraftPanel.Web
