import CraftPanel.Console.Follow

/-!
# Lines the follower hears

What the hub absorbs on the links of one server, whatever the supervisors send on them, and what the
follower of `ops/follow.rs` appends to the console. A link is in the hub before the follower finds
it, and the follower subscribes some time after that; its loop may take the tick that ends it
before the lines that wait in its receiver. `absorbed` and `appended` are history: a console that
is cleared was appended to.
-/

namespace CraftPanel.Console.Listening

open Framework Supervise

structure System where
  links : Nat := 0
  /-- The links whose `greet` still reads. -/
  reading : List Nat := []
  link : Option Nat := none
  attending : Option Attend := none
  absorbed : List Line := []
  appended : List Line := []

inductive Event
  | registers
  | absorbs (link : Nat) (message : Message)
  | detaches (link : Nat) (clean : Bool)
  | follows
  | givesUp
  | subscribes
  | receives
  | flushes
  | leaves

def outputOf : Message → List Line
  | .output line => [line]
  | .exited .. => []

namespace System

variable (s : System)

def queue : List Line := (s.attending.map (·.queue)).getD []

def bundle : List Line := (s.attending.map (·.bundle)).getD []

def absorbs (k : Nat) (message : Message) : Option System :=
  if k ∈ s.reading then some { s with
    attending := s.attending.map (·.hear k message)
    absorbed := s.absorbed ++ outputOf message }
  else none

def detaches (k : Nat) (clean : Bool) : Option System :=
  if k ∈ s.reading then some { s with
    reading := s.reading.erase k
    link := if clean && s.link = some k then none else s.link }
  else none

/-- A round of `follow`: a link that no task attends gets one. -/
def follows : Option System :=
  match s.attending, s.link with
  | none, some k => some { s with attending := some { link := k } }
  | _, _ => none

def givesUp : Option System :=
  match s.attending with
  | some a => if a.subscribed then none else some { s with attending := none }
  | none => none

def subscribes : Option System :=
  match s.attending with
  | some a =>
    if a.subscribed then none else some { s with attending := some { a with subscribed := true } }
  | none => none

def receives : Option System :=
  match s.attending with
  | some ⟨link, true, line :: queue, bundle⟩ =>
    if Attend.isFull (bundle ++ [line]) then some { s with
      attending := some ⟨link, true, queue, []⟩, appended := s.appended ++ (bundle ++ [line]) }
    else some { s with attending := some ⟨link, true, queue, bundle ++ [line]⟩ }
  | _ => none

def flushes : Option System :=
  match s.attending with
  | some ⟨link, true, queue, bundle⟩ => some { s with
      attending := some ⟨link, true, queue, []⟩, appended := s.appended ++ bundle }
  | _ => none

/-- The tick that finds another link in the hub, or none, and ends the loop. -/
def leaves : Option System :=
  match s.attending with
  | some a =>
    if a.subscribed && s.link ≠ some a.link then
      some { s with attending := none, appended := s.appended ++ a.bundle }
    else none
  | none => none

def step : Event → Option System
  | .registers => some { s with
      links := s.links + 1, reading := s.reading ++ [s.links + 1], link := some (s.links + 1) }
  | .absorbs k message => s.absorbs k message
  | .detaches k clean => s.detaches k clean
  | .follows => s.follows
  | .givesUp => s.givesUp
  | .subscribes => s.subscribes
  | .receives => s.receives
  | .flushes => s.flushes
  | .leaves => s.leaves

/-- Every absorbed line is in the console, in the bundle or in the receiver, once and in order. -/
def Kept : Prop := s.absorbed = s.appended ++ s.bundle ++ s.queue

end System

def machine : Machine System Event := ⟨System.step⟩

def listens (s : System) (k : Nat) : Bool := s.attending.any fun a => a.subscribed && a.link = k

def hasRoom (s : System) : Event → Bool
  | .absorbs k (.output _) => !listens s k || s.queue.length < consoleBacklog
  | _ => true

/-- A line is absorbed on a link that is listened to, and the follower leaves nothing behind in its
receiver. -/
def heeds (s : System) : Event → Bool
  | .absorbs k (.output _) => listens s k
  | .leaves => s.queue.isEmpty
  | _ => true

/-- A task that has not subscribed holds no line. -/
def Quiet (s : System) : Prop :=
  ∀ a ∈ s.attending, a.subscribed = false → a.queue = [] ∧ a.bundle = []

section Steps

variable {s t : System}

theorem kept_iff {a : Attend} (h : s.attending = some a) :
    s.Kept ↔ s.absorbed = s.appended ++ a.bundle ++ a.queue := by
  unfold System.Kept System.bundle System.queue
  rw [h]
  rfl

theorem kept_iff_of_none (h : s.attending = none) : s.Kept ↔ s.absorbed = s.appended := by
  unfold System.Kept System.bundle System.queue
  rw [h]
  simp

theorem quiet_none (h : t.attending = none) : Quiet t := by
  intro a ha
  rw [h] at ha
  cases ha

theorem quiet_of_subscribed {a : Attend} (h : t.attending = some a) (ha : a.subscribed = true) :
    Quiet t := by
  intro b hb hsub
  rw [h] at hb
  cases hb
  rw [ha] at hsub
  cases hsub

theorem subscribed_hear {a : Attend} {k : Nat} {message : Message} :
    (a.hear k message).subscribed = a.subscribed := by
  unfold Attend.hear
  split
  · split <;> rfl
  · rfl

theorem hear_of_not_listening {a : Attend} {k : Nat} {line : Line}
    (h : ¬ (a.subscribed && a.link = k) = true) : a.hear k (.output line) = a := by
  unfold Attend.hear
  exact if_neg h

theorem hear_of_listening {a : Attend} {k : Nat}
    (h : (a.subscribed && a.link = k) = true) (line : Line) :
    (a.hear k (.output line)).bundle = a.bundle ∧ (a.hear k (.output line)).queue =
      (a.queue ++ [line]).drop (a.queue.length + 1 - consoleBacklog) := by
  simp only [Attend.hear, h, if_true, and_self]

theorem drop_eq_iff {n : Nat} {l : List Line} {line : Line} :
    (l ++ [line]).drop (l.length + 1 - n) = l ++ [line] ↔ l.length < n := by
  constructor
  · intro h
    have hlength := congrArg List.length h
    simp only [List.length_drop, List.length_append, List.length_singleton] at hlength
    omega
  · intro h
    rw [Nat.sub_eq_zero_of_le h, List.drop_zero]

theorem kept_absorbs_iff {k : Nat} {line : Line} (hkept : s.Kept)
    (h : machine.step s (.absorbs k (.output line)) = some t) :
    (hasRoom s (.absorbs k (.output line)) = true ∧ listens s k = true) ↔ t.Kept := by
  simp only [machine, System.step, System.absorbs] at h
  split at h
  · cases h
    cases ha : s.attending with
    | none =>
      have hsame := (kept_iff_of_none ha).mp hkept
      apply iff_of_false
      · simp [listens, ha]
      intro hnext
      have hlost := (kept_iff_of_none rfl).mp hnext
      have hlength := congrArg List.length (hlost.trans hsame.symm)
      simp [outputOf] at hlength
    | some a =>
      have hsame := (kept_iff ha).mp hkept
      have hnext := kept_iff (s := { s with
        attending := some (a.hear k (.output line))
        absorbed := s.absorbed ++ [line] }) rfl
      apply Iff.trans _ hnext.symm
      by_cases hlistens : (a.subscribed && a.link = k) = true
      · have hroom : hasRoom s (.absorbs k (.output line)) = true ↔
            a.queue.length < consoleBacklog := by
          simp [hasRoom, listens, System.queue, ha, hlistens]
        have hhears : listens s k = true := by simp [listens, ha, hlistens]
        obtain ⟨hbundle, hqueue⟩ := hear_of_listening hlistens line
        rw [and_iff_left hhears, hroom, hbundle, hqueue, hsame,
          List.append_assoc (s.appended ++ a.bundle), List.append_cancel_left_eq, eq_comm]
        exact drop_eq_iff.symm
      · rw [hear_of_not_listening hlistens]
        apply iff_of_false
        · simp [listens, ha, hlistens]
        · intro hlost
          have hlength := congrArg List.length (hlost.trans hsame.symm)
          simp at hlength
  · cases h

theorem kept_leaves_iff (hkept : s.Kept) (h : machine.step s .leaves = some t) :
    heeds s .leaves = true ↔ t.Kept := by
  simp only [machine, System.step, System.leaves] at h
  split at h
  · next a ha =>
    have hsame := (kept_iff ha).mp hkept
    split at h
    · cases h
      have hqueue : heeds s .leaves = true ↔ a.queue = [] := by
        simp [heeds, System.queue, ha]
      rw [hqueue]
      apply Iff.trans _ (kept_iff_of_none rfl).symm
      rw [hsame]
      simp
    · cases h
  · cases h

theorem kept_receives (hkept : s.Kept) (h : machine.step s .receives = some t) : t.Kept := by
  simp only [machine, System.step, System.receives] at h
  split at h
  · next link line queue bundle ha =>
    have hsame := (kept_iff ha).mp hkept
    split at h
    · cases h
      apply (kept_iff rfl).mpr
      simpa using hsame
    · cases h
      apply (kept_iff rfl).mpr
      simpa using hsame
  · cases h

theorem kept_flushes (hkept : s.Kept) (h : machine.step s .flushes = some t) : t.Kept := by
  simp only [machine, System.step, System.flushes] at h
  split at h
  · next link queue bundle ha =>
    cases h
    apply (kept_iff rfl).mpr
    simpa using (kept_iff ha).mp hkept
  · cases h

theorem kept_givesUp (hs : Quiet s) (hkept : s.Kept) (h : machine.step s .givesUp = some t) :
    t.Kept := by
  simp only [machine, System.step, System.givesUp] at h
  split at h
  · next a ha =>
    split at h
    · cases h
    next hsub =>
    cases h
    obtain ⟨hqueue, hbundle⟩ := hs a ha (by simpa using hsub)
    have hsame := (kept_iff ha).mp hkept
    apply (kept_iff_of_none rfl).mpr
    simpa [hqueue, hbundle] using hsame
  · cases h

theorem kept_follows (hkept : s.Kept) (h : machine.step s .follows = some t) : t.Kept := by
  simp only [machine, System.step, System.follows] at h
  split at h
  · next k ha hlink =>
    cases h
    apply (kept_iff rfl).mpr
    simpa using (kept_iff_of_none ha).mp hkept
  · cases h

theorem kept_subscribes (hkept : s.Kept) (h : machine.step s .subscribes = some t) : t.Kept := by
  simp only [machine, System.step, System.subscribes] at h
  split at h
  · next a ha =>
    split at h
    · cases h
    · cases h
      apply (kept_iff rfl).mpr
      exact (kept_iff ha).mp hkept
  · cases h

theorem kept_exited {k : Nat} {code signal : Option Int} {oomKilled : Bool} (hkept : s.Kept)
    (h : machine.step s (.absorbs k (.exited code signal oomKilled)) = some t) : t.Kept := by
  simp only [machine, System.step, System.absorbs] at h
  split at h
  · cases h
    have hsame : s.attending.map (·.hear k (.exited code signal oomKilled)) = s.attending :=
      Option.map_id'
    unfold System.Kept System.bundle System.queue at hkept ⊢
    rw [hsame, ← hkept]
    exact List.append_nil _
  · cases h

theorem quiet_step {e : Event} (hs : Quiet s) (h : machine.step s e = some t) : Quiet t := by
  cases e with
  | registers =>
    cases h
    exact hs
  | absorbs k message =>
    simp only [machine, System.step, System.absorbs] at h
    split at h
    · cases h
      intro b hb hsub
      obtain ⟨a, ha, rfl⟩ := Option.map_eq_some_iff.mp hb
      rw [subscribed_hear] at hsub
      have hunheard : a.hear k message = a := by
        cases message with
        | output line => exact hear_of_not_listening (by simp [hsub])
        | exited code signal oomKilled => rfl
      rw [hunheard]
      exact hs a ha hsub
    · cases h
  | detaches k clean =>
    simp only [machine, System.step, System.detaches] at h
    split at h
    · cases h
      exact hs
    · cases h
  | follows =>
    simp only [machine, System.step, System.follows] at h
    split at h
    · cases h
      intro b hb _
      cases hb
      exact ⟨rfl, rfl⟩
    · cases h
  | givesUp =>
    simp only [machine, System.step, System.givesUp] at h
    split at h
    · split at h
      · cases h
      · cases h
        exact quiet_none rfl
    · cases h
  | subscribes =>
    simp only [machine, System.step, System.subscribes] at h
    split at h
    · split at h
      · cases h
      · cases h
        exact quiet_of_subscribed rfl rfl
    · cases h
  | receives =>
    simp only [machine, System.step, System.receives] at h
    split at h
    · split at h
      · cases h
        exact quiet_of_subscribed rfl rfl
      · cases h
        exact quiet_of_subscribed rfl rfl
    · cases h
  | flushes =>
    simp only [machine, System.step, System.flushes] at h
    split at h
    · cases h
      exact quiet_of_subscribed rfl rfl
    · cases h
  | leaves =>
    simp only [machine, System.step, System.leaves] at h
    split at h
    · split at h
      · cases h
        exact quiet_none rfl
      · cases h
    · cases h

theorem kept_step_iff {e : Event} (hs : Quiet s) (hkept : s.Kept) (h : machine.step s e = some t) :
    (hasRoom s e = true ∧ heeds s e = true) ↔ t.Kept := by
  cases e with
  | absorbs k message =>
    cases message with
    | output line => exact kept_absorbs_iff hkept h
    | exited code signal oomKilled => exact iff_of_true ⟨rfl, rfl⟩ (kept_exited hkept h)
  | leaves => exact (and_iff_right rfl).trans (kept_leaves_iff hkept h)
  | registers =>
    cases h
    exact iff_of_true ⟨rfl, rfl⟩ hkept
  | detaches k clean =>
    simp only [machine, System.step, System.detaches] at h
    split at h
    · cases h
      exact iff_of_true ⟨rfl, rfl⟩ hkept
    · cases h
  | follows => exact iff_of_true ⟨rfl, rfl⟩ (kept_follows hkept h)
  | givesUp => exact iff_of_true ⟨rfl, rfl⟩ (kept_givesUp hs hkept h)
  | subscribes => exact iff_of_true ⟨rfl, rfl⟩ (kept_subscribes hkept h)
  | receives => exact iff_of_true ⟨rfl, rfl⟩ (kept_receives hkept h)
  | flushes => exact iff_of_true ⟨rfl, rfl⟩ (kept_flushes hkept h)

end Steps

/-- Where the receiver never overruns: the runs in which each line is absorbed on a link that is
listened to, and the follower leaves no line behind in its receiver, are the runs in which every
line is kept; and once nothing waits, the console was given the lines of the hub, each once and in
order. -/
theorem absorbed_lines_are_appended_iff {s : System} {es : List Event}
    (hroom : machine.Meets (fun s e => hasRoom s e = true) {} es)
    (hrun : machine.exec {} es = some s) :
    (machine.Meets (fun s e => heeds s e = true) {} es ↔
      ∀ earlier u, earlier <+: es → machine.exec {} earlier = some u → u.Kept) ∧
    (s.bundle = [] → s.queue = [] → (s.Kept ↔ s.appended = s.absorbed)) := by
  have hstart : Quiet {} := quiet_none rfl
  constructor
  · rw [← machine.meets_iff_always (fun hs h => quiet_step hs h)
      (fun hs hkept h => kept_step_iff hs hkept h) hstart rfl hrun, machine.meets_and,
      and_iff_right hroom]
  · intro hbundle hqueue
    unfold System.Kept
    rw [hbundle, hqueue, List.append_nil, List.append_nil, eq_comm]

/-- A process that is attended before it says anything, and ends once its lines are taken. -/
def attended : List Event :=
  [.registers, .follows, .subscribes, .absorbs 1 (.output ⟨1, "Done", .stdout⟩),
    .absorbs 1 (.output ⟨2, "Bye", .stdout⟩), .receives, .receives,
    .absorbs 1 (.exited (some 0) none false), .detaches 1 true, .leaves]

theorem absorbed_lines_are_appended_attended :
    ∃ s, machine.exec {} attended = some s ∧ s.absorbed.length = 2 ∧ s.appended = s.absorbed := by
  have hroom : machine.Meets (fun s e => hasRoom s e = true) {} attended := by decide +kernel
  have hok : machine.Meets (fun s e => heeds s e = true) {} attended := by decide +kernel
  have hend : machine.Ends {} attended fun s =>
      s.absorbed.length = 2 ∧ s.bundle = [] ∧ s.queue = [] := by decide +kernel
  obtain ⟨s, hrun, htwo, hbundle, hqueue⟩ := hend
  obtain ⟨hkept, hgiven⟩ := absorbed_lines_are_appended_iff hroom hrun
  exact ⟨s, hrun, htwo, (hgiven hbundle hqueue).mp (hkept.mp hok attended s List.prefix_rfl hrun)⟩

/-- A failed start: one line comes before the follower has found the link, the other one is in its
receiver when it finds the link gone. -/
theorem early_and_late_lines_are_lost :
    ¬ ∀ (s : System) (es : List Event), machine.Meets (fun s e => hasRoom s e = true) {} es →
      machine.exec {} es = some s → s.bundle = [] → s.queue = [] → s.appended = s.absorbed := by
  intro hall
  have hroom : machine.Meets (fun s e => hasRoom s e = true) {}
      [.registers, .absorbs 1 (.output ⟨1, "Unable to access jarfile", .stderr⟩), .follows,
        .subscribes, .absorbs 1 (.output ⟨2, "server.jar", .stderr⟩),
        .absorbs 1 (.exited (some 1) none false), .detaches 1 true, .leaves] := by decide +kernel
  have hend : machine.Ends {}
      [.registers, .absorbs 1 (.output ⟨1, "Unable to access jarfile", .stderr⟩), .follows,
        .subscribes, .absorbs 1 (.output ⟨2, "server.jar", .stderr⟩),
        .absorbs 1 (.exited (some 1) none false), .detaches 1 true, .leaves]
      fun s => s.bundle = [] ∧ s.queue = [] ∧ s.absorbed.length = 2 ∧ s.appended = [] := by
    decide +kernel
  obtain ⟨s, hrun, hbundle, hqueue, htwo, hnone⟩ := hend
  have hsame := hall s _ hroom hrun hbundle hqueue
  rw [← hsame, hnone] at htwo
  cases htwo

end CraftPanel.Console.Listening
