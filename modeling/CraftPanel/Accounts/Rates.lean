import Mathlib.Algebra.Group.Nat.Defs
import Mathlib.Data.List.Pairwise
import Mathlib.Data.List.TakeWhile
import CraftPanel.Framework.Machine
import CraftPanel.Framework.Windows

/-!
# Rate buckets

`auth/rates.rs`. Under the name of a limit and the front of a key stands one queue of times, which
`take`, `check` and `note` share. Times are in nanoseconds since the panel came up; a call that
panics leaves the lock poisoned, and every later call panics too.
-/

namespace CraftPanel.Accounts.Rates

open Framework

abbrev Key := List Char

def NANOS : Nat := 10 ^ 9

def HOUR : Nat := 60 * 60 * NANOS

def DAY : Nat := 24 * 60 * 60 * NANOS

def KEY_LENGTH : Nat := 64

structure Limit where
  bucket : String
  allowance : Nat
  window : Nat
  fits : allowance < 2 ^ 32 := by decide
  deriving DecidableEq

def REGISTER_PER_HOUR : Limit := { bucket := "register", allowance := 3, window := HOUR }

def REGISTER_PER_DAY : Limit := { bucket := "register_day", allowance := 10, window := DAY }

def RESEND_PER_ADDRESS : Limit :=
  { bucket := "resend", allowance := 1, window := 5 * 60 * NANOS }

def RESET_ATTEMPTS : Limit := { bucket := "reset", allowance := 10, window := 15 * 60 * NANOS }

def ADMIN_RESET_PER_ACCOUNT : Limit := { bucket := "admin_reset", allowance := 5, window := HOUR }

/-- Of `registration/mod.rs`. -/
def VERIFY_ATTEMPTS : Limit := { bucket := "verify_email", allowance := 30, window := HOUR }

def cut (key : Key) : Key := key.take KEY_LENGTH

abbrev Slot := String × Key

def Limit.slot (limit : Limit) (key : Key) : Slot := (limit.bucket, cut key)

abbrev Records := Slot → Option (List Nat)

structure Buckets where
  records : Records := fun _ => none
  poisoned : Bool := false

inductive Answer
  | passes
  | waits (seconds : Nat)
  | panics
  deriving DecidableEq

/-- `now.duration_since(t) >= limit.window`. -/
def Limit.isPast (limit : Limit) (now t : Nat) : Bool := limit.window ≤ now - t

def Limit.prune (limit : Limit) (now : Nat) (times : List Nat) : List Nat :=
  times.dropWhile (limit.isPast now)

def secondsLeft (limit : Limit) (now oldest : Nat) : Nat :=
  let left := limit.window - (now - oldest)
  left / NANOS + if 0 < left % NANOS then 1 else 0

def sweep (records : Records) (now : Nat) : Records := fun slot =>
  (records slot).filter fun times => times.getLast?.any fun last => now - last < DAY

def unswept (records : Records) (_ : Nat) : Records := records

namespace Buckets

variable (tidy : Records → Nat → Records) (buckets : Buckets) (limit : Limit) (key : Key)
  (now : Nat)

/-- The queue that a call finds, once it has swept and taken off what is past. -/
def queue : List Nat :=
  limit.prune now ((tidy buckets.records now (limit.slot key)).getD [])

def put (times : List Nat) : Buckets :=
  { buckets with
    records := Function.update (tidy buckets.records now) (limit.slot key) (some times) }

def take : Answer × Buckets :=
  if buckets.poisoned then (.panics, buckets)
  else
    let times := buckets.queue tidy limit key now
    if limit.allowance ≤ times.length % 2 ^ 32 then
      match times with
      -- `expect("a full bucket has a front")`
      | [] => (.panics, { buckets.put tidy limit key now [] with poisoned := true })
      | oldest :: _ => (.waits (secondsLeft limit now oldest), buckets.put tidy limit key now times)
    else (.passes, buckets.put tidy limit key now (times ++ [now]))

def check : Answer :=
  if buckets.poisoned then .panics
  else match buckets.records (limit.slot key) with
    | none => .passes
    | some times =>
      if (times.countP fun t => now - t < limit.window) % 2 ^ 32 < limit.allowance then .passes
      else .waits (secondsLeft limit now
        ((times.find? fun t => now - t < limit.window).getD now))

def note : Answer × Buckets :=
  if buckets.poisoned then (.panics, buckets)
  else (.passes, buckets.put tidy limit key now (buckets.queue tidy limit key now ++ [now]))

end Buckets

inductive Call
  | take (limit : Limit) (key : Key)
  | check (limit : Limit) (key : Key)
  | note (limit : Limit) (key : Key)
  deriving DecidableEq

namespace Call

def limit : Call → Limit
  | take limit _ | check limit _ | note limit _ => limit

def slot : Call → Slot
  | take limit key | check limit key | note limit key => limit.slot key

def isCheck : Call → Bool
  | check .. => true
  | take .. | note .. => false

def run (tidy : Records → Nat → Records) (buckets : Buckets) (now : Nat) :
    Call → Answer × Buckets
  | take limit key => buckets.take tidy limit key now
  | check limit key => (buckets.check limit key now, buckets)
  | note limit key => buckets.note tidy limit key now

end Call

structure Event where
  now : Nat
  call : Call

structure Entry where
  now : Nat
  call : Call
  answer : Answer

/-- The log holds the last call first. -/
structure State where
  buckets : Buckets := {}
  clock : Nat := 0
  log : List Entry := []

def machine (tidy : Records → Nat → Records) : Machine State Event where
  step s e :=
    if s.clock ≤ e.now then
      let (answer, buckets) := e.call.run tidy s.buckets e.now
      some ⟨buckets, e.now, ⟨e.now, e.call, answer⟩ :: s.log⟩
    else none

def granted (limit : Limit) (key : Key) (log : List Entry) : List Nat :=
  (log.filter fun entry => entry.call = .take limit key ∧ entry.answer = .passes).map Entry.now

/-- What is asked of one limit and one key, whatever comes next. -/
structure Brakes (limit : Limit) (key : Key) (s : State) : Prop where
  sparing : ∀ start, (granted limit key s.log).countP
    (fun t => start ≤ t ∧ t < start + limit.window) ≤ limit.allowance
  agreeing : ∀ now, s.clock ≤ now →
    ((∃ seconds, s.buckets.check limit key now = .waits seconds) ↔
      ∃ seconds, (s.buckets.take sweep limit key now).1 = .waits seconds)
  checked : ∀ now seconds, s.clock ≤ now → s.buckets.check limit key now = .waits seconds →
    ∀ later, (s.buckets.take sweep limit key (now + later * NANOS)).1 = .passes ↔ seconds ≤ later
  refused : ∀ now seconds, s.clock ≤ now →
    (s.buckets.take sweep limit key now).1 = .waits seconds →
    ∀ later, ((s.buckets.take sweep limit key now).2.take sweep limit key
      (now + later * NANOS)).1 = .passes ↔ seconds ≤ later

/-- Limits that allow something within a day at most, each under a name of its own. -/
structure Apart (limits : List Limit) : Prop where
  allows : ∀ limit ∈ limits, 0 < limit.allowance
  short : ∀ limit ∈ limits, limit.window ≤ DAY
  names : ∀ a ∈ limits, ∀ b ∈ limits, a.bucket = b.bucket → a = b

/-- Nothing is noted that `check` would refuse. -/
def Event.isDue (s : State) (e : Event) : Bool :=
  match e.call with
  | .note limit key => s.buckets.check limit key e.now = .passes
  | .take _ _ | .check _ _ => true

/-- The call is made under one of the limits, and is due. -/
def Heeds (limits : List Limit) (s : State) (e : Event) : Prop :=
  e.call.limit ∈ limits ∧ e.isDue s = true

instance (limits : List Limit) (s : State) (e : Event) : Decidable (Heeds limits s e) :=
  inferInstanceAs (Decidable (_ ∧ _))

def Entry.pushes (entry : Entry) : Bool := !entry.call.isCheck && entry.answer = .passes

def pushes (slot : Slot) (log : List Entry) : List Nat :=
  (log.filter fun entry => entry.call.slot = slot && entry.pushes).map Entry.now

def Limit.live (limit : Limit) (now : Nat) (pushed : List Nat) : List Nat :=
  (pushed.filter fun t => now < t + limit.window).reverse

/-- The queue is the end of what was put into it, and what is missing is past. -/
def Holds (limit : Limit) (clock : Nat) (pushed times : List Nat) : Prop :=
  ∃ gone, pushed.reverse = gone ++ times ∧ ∀ t ∈ gone, t + limit.window ≤ clock

/-- A way of sweeping takes off queues only whose last time is a day old. -/
def Tidies (tidy : Records → Nat → Records) : Prop :=
  ∀ records now slot, tidy records now slot = records slot ∨
    tidy records now slot = none ∧
      ∀ last ∈ ((records slot).getD []).getLast?, DAY ≤ now - last

section Queues

variable {limit : Limit} {now clock : Nat} {pushed times : List Nat} {slot : Slot}
  {records : Records} {tidy : Records → Nat → Records}

theorem tidies_unswept : Tidies unswept := fun _ _ _ => .inl rfl

theorem tidies_sweep : Tidies sweep := by
  intro records now slot
  simp only [sweep]
  cases records slot with
  | none => simp
  | some times =>
    cases hlast : times.getLast? with
    | none => simp [hlast]
    | some last =>
      by_cases hday : now - last < DAY
      · simp [hlast, hday]
      · simp [hlast, hday]
        omega

theorem isPast_iff {t : Nat} (h : t ≤ now) : limit.isPast now t = true ↔ t + limit.window ≤ now := by
  simp only [Limit.isPast, decide_eq_true_eq]
  omega

theorem Holds.later (h : Holds limit clock pushed times) (hnow : clock ≤ now) :
    Holds limit now pushed times := by
  obtain ⟨gone, hpushed, hgone⟩ := h
  exact ⟨gone, hpushed, fun t ht => Nat.le_trans (hgone t ht) hnow⟩

theorem Holds.mem (h : Holds limit clock pushed times) : ∀ t ∈ times, t ∈ pushed := by
  obtain ⟨gone, hpushed, -⟩ := h
  intro t ht
  rw [← List.mem_reverse, hpushed]
  exact List.mem_append_right _ ht

theorem Holds.ascending (h : Holds limit clock pushed times)
    (hpushed : pushed.Pairwise fun later earlier => earlier ≤ later) :
    times.Pairwise (· ≤ ·) := by
  obtain ⟨gone, heq, -⟩ := h
  have hall : (gone ++ times).Pairwise (· ≤ ·) := by
    rw [← heq]
    exact List.pairwise_reverse.mpr hpushed
  exact (List.pairwise_append.mp hall).2.1

theorem Holds.prune_filter (h : Holds limit now pushed times) (hpast : ∀ t ∈ pushed, t ≤ now)
    (hpushed : pushed.Pairwise fun later earlier => earlier ≤ later) :
    limit.prune now times = times.filter fun t => !limit.isPast now t := by
  apply dropWhile_eq_filter
  apply (h.ascending hpushed).imp_of_mem
  intro a b ha hb hab
  rw [isPast_iff (hpast a (h.mem a ha)), isPast_iff (hpast b (h.mem b hb))]
  omega

theorem Holds.prune_eq (h : Holds limit now pushed times) (hpast : ∀ t ∈ pushed, t ≤ now)
    (hpushed : pushed.Pairwise fun later earlier => earlier ≤ later) :
    limit.prune now times = limit.live now pushed := by
  have hlive : ∀ t ∈ pushed, (!limit.isPast now t) = decide (now < t + limit.window) := by
    intro t ht
    rw [Bool.eq_iff_iff]
    simp only [Bool.not_eq_true', decide_eq_true_eq, ← Bool.not_eq_true,
      isPast_iff (hpast t ht)]
    omega
  rw [h.prune_filter hpast hpushed, List.filter_congr fun t ht => hlive t (h.mem t ht)]
  obtain ⟨gone, heq, hgone⟩ := h
  have hnone : (gone.filter fun t => now < t + limit.window) = [] := by
    apply List.filter_eq_nil_iff.mpr
    intro t ht
    have := hgone t ht
    simp only [decide_eq_true_eq]
    omega
  rw [Limit.live, ← List.filter_reverse, heq, List.filter_append, hnone, List.nil_append]

theorem Holds.pruned (h : Holds limit now pushed times) (hpast : ∀ t ∈ pushed, t ≤ now) :
    Holds limit now pushed (limit.prune now times) := by
  have hmem := h.mem
  obtain ⟨gone, heq, hgone⟩ := h
  refine ⟨gone ++ times.takeWhile (limit.isPast now), ?_, ?_⟩
  · rw [heq, Limit.prune, List.append_assoc, List.takeWhile_append_dropWhile]
  intro t ht
  rcases List.mem_append.mp ht with hold | htaken
  · exact hgone t hold
  · have hin := (List.takeWhile_sublist _).subset htaken
    exact (isPast_iff (hpast t (hmem t hin))).mp (List.mem_takeWhile_imp htaken)

theorem Holds.push (h : Holds limit now pushed times) :
    Holds limit now (now :: pushed) (times ++ [now]) := by
  obtain ⟨gone, heq, hgone⟩ := h
  exact ⟨gone, by simp [heq], hgone⟩

theorem Holds.tidied (htidy : Tidies tidy) (hshort : limit.window ≤ DAY)
    (hpushed : pushed.Pairwise fun later earlier => earlier ≤ later)
    (h : Holds limit now pushed ((records slot).getD [])) :
    Holds limit now pushed ((tidy records now slot).getD []) := by
  rcases htidy records now slot with hsame | ⟨hnone, hlast⟩
  · rw [hsame]
    exact h
  rw [hnone]
  have hasc := h.ascending hpushed
  obtain ⟨gone, heq, hgone⟩ := h
  refine ⟨gone ++ (records slot).getD [], by simpa using heq, ?_⟩
  intro t ht
  rcases List.mem_append.mp ht with hold | hin
  · exact hgone t hold
  have hne : (records slot).getD [] ≠ [] := List.ne_nil_of_mem hin
  have hday := hlast _ (List.getLast?_eq_getLast_of_ne_nil hne)
  have hle : t ≤ ((records slot).getD []).getLast hne := hasc.rel_getLast hin
  have hpositive : 0 < DAY := by decide
  omega

end Queues

/-- The answer to a take or a check, told by what was put into the queue. -/
def Limit.verdict (limit : Limit) (now : Nat) (pushed : List Nat) : Answer :=
  if (limit.live now pushed).length < limit.allowance then .passes
  else match limit.live now pushed with
    | [] => .panics
    | oldest :: _ => .waits (secondsLeft limit now oldest)

structure Kept (limits : List Limit) (s : State) : Prop where
  alive : s.buckets.poisoned = false
  past : ∀ slot, ∀ t ∈ pushes slot s.log, t ≤ s.clock
  ascending : ∀ slot, (pushes slot s.log).Pairwise fun later earlier => earlier ≤ later
  held : ∀ limit ∈ limits, ∀ key, Holds limit s.clock (pushes (limit.slot key) s.log)
    ((s.buckets.records (limit.slot key)).getD [])
  sparse : ∀ limit ∈ limits, ∀ key,
    Sparse limit.window limit.allowance (pushes (limit.slot key) s.log)

section Answers

variable {limits : List Limit} {limit : Limit} {key : Key} {s : State} {now oldest seconds : Nat}
  {pushed rest : List Nat} {tidy : Records → Nat → Records}

theorem length_live : (limit.live now pushed).length =
    pushed.countP fun t => now < t + limit.window := by
  simp [Limit.live, List.countP_eq_length_filter]

theorem Kept.start : Kept limits {} where
  alive := rfl
  past := by simp [pushes]
  ascending := by simp [pushes]
  held := fun _ _ _ => ⟨[], rfl, by simp⟩
  sparse := fun _ _ _ => trivial

theorem Kept.past_now (h : Kept limits s) (hnow : s.clock ≤ now) (slot : Slot) :
    ∀ t ∈ pushes slot s.log, t ≤ now :=
  fun t ht => Nat.le_trans (h.past slot t ht) hnow

theorem Kept.length_live_le (h : Kept limits s) (key : Key) (hlimit : limit ∈ limits) (hnow : s.clock ≤ now) :
    (limit.live now (pushes (limit.slot key) s.log)).length ≤ limit.allowance := by
  rw [length_live]
  exact (h.sparse limit hlimit key).recent_le (h.past_now hnow _)

theorem Kept.holds_tidied (h : Kept limits s) (htidy : Tidies tidy) (hapart : Apart limits)
    (hlimit : limit ∈ limits) (key : Key) (hnow : s.clock ≤ now) :
    Holds limit now (pushes (limit.slot key) s.log)
      ((tidy s.buckets.records now (limit.slot key)).getD []) :=
  ((h.held limit hlimit key).later hnow).tidied htidy (hapart.short limit hlimit) (h.ascending _)

theorem Kept.queue_eq (h : Kept limits s) (htidy : Tidies tidy) (hapart : Apart limits)
    (hlimit : limit ∈ limits) (hnow : s.clock ≤ now) :
    s.buckets.queue tidy limit key now = limit.live now (pushes (limit.slot key) s.log) :=
  (h.holds_tidied htidy hapart hlimit key hnow).prune_eq (h.past_now hnow _) (h.ascending _)

theorem verdict_of_lt (h : (limit.live now pushed).length < limit.allowance) :
    limit.verdict now pushed = .passes := if_pos h

theorem verdict_of_le (hlive : limit.live now pushed = oldest :: rest)
    (h : limit.allowance ≤ (limit.live now pushed).length) :
    limit.verdict now pushed = .waits (secondsLeft limit now oldest) := by
  rw [Limit.verdict, if_neg (by omega), hlive]

variable (now pushed) in
theorem live_cases (hallows : 0 < limit.allowance) :
    (limit.live now pushed).length < limit.allowance ∨
      ∃ oldest rest, limit.live now pushed = oldest :: rest ∧
        limit.allowance ≤ (limit.live now pushed).length := by
  by_cases hroom : (limit.live now pushed).length < limit.allowance
  · exact .inl hroom
  right
  cases hlive : limit.live now pushed with
  | nil => simp [hlive, hallows] at hroom
  | cons oldest rest => exact ⟨oldest, rest, rfl, by rw [← hlive]; omega⟩

theorem Kept.take_eq (h : Kept limits s) (htidy : Tidies tidy) (hapart : Apart limits)
    (hlimit : limit ∈ limits) (key : Key) (hnow : s.clock ≤ now) :
    s.buckets.take tidy limit key now =
      let live := limit.live now (pushes (limit.slot key) s.log)
      let answer := limit.verdict now (pushes (limit.slot key) s.log)
      (answer, s.buckets.put tidy limit key now
        (if answer = .passes then live ++ [now] else live)) := by
  have hfew := h.length_live_le key hlimit hnow
  have hfits := limit.fits
  have hmod : (limit.live now (pushes (limit.slot key) s.log)).length % 2 ^ 32 =
      (limit.live now (pushes (limit.slot key) s.log)).length := Nat.mod_eq_of_lt (by omega)
  simp only [Buckets.take, h.alive, Bool.false_eq_true, if_false,
    h.queue_eq htidy hapart hlimit hnow, hmod]
  rcases live_cases _ _ (hapart.allows limit hlimit) with hroom | ⟨oldest, rest, hlive, hfull⟩
  · rw [verdict_of_lt hroom, if_neg (by omega)]
    simp
  · rw [verdict_of_le hlive hfull, if_pos hfull, hlive]
    simp

theorem Kept.check_eq (h : Kept limits s) (hapart : Apart limits) (hlimit : limit ∈ limits)
    (key : Key) (hnow : s.clock ≤ now) :
    s.buckets.check limit key now = limit.verdict now (pushes (limit.slot key) s.log) := by
  have hfew := h.length_live_le key hlimit hnow
  have hfits := limit.fits
  have hhold := (h.held limit hlimit key).later hnow
  have hqueue := hhold.prune_eq (h.past_now hnow _) (h.ascending _)
  have hinside : ((s.buckets.records (limit.slot key)).getD []).filter
      (fun t => now - t < limit.window) = limit.live now (pushes (limit.slot key) s.log) := by
    rw [← hqueue, hhold.prune_filter (h.past_now hnow _) (h.ascending _)]
    apply List.filter_congr
    intro t _
    simp [Limit.isPast, ← decide_not]
  have hallows := hapart.allows limit hlimit
  cases hrecord : s.buckets.records (limit.slot key) with
  | none =>
    have hempty : limit.live now (pushes (limit.slot key) s.log) = [] := by
      simpa [hrecord] using hinside.symm
    rw [verdict_of_lt (by simpa [hempty] using hallows)]
    simp [Buckets.check, h.alive, hrecord]
  | some times =>
    have hlive : times.filter (fun t => now - t < limit.window) =
        limit.live now (pushes (limit.slot key) s.log) := by
      simpa [hrecord] using hinside
    have hmod : (limit.live now (pushes (limit.slot key) s.log)).length % 2 ^ 32 =
        (limit.live now (pushes (limit.slot key) s.log)).length := Nat.mod_eq_of_lt (by omega)
    simp only [Buckets.check, h.alive, Bool.false_eq_true, if_false, hrecord,
      List.countP_eq_length_filter, ← List.head?_filter, hlive, hmod]
    rcases live_cases _ _ hallows with hroom | ⟨oldest, rest, hfirst, hfull⟩
    · rw [verdict_of_lt hroom, if_pos hroom]
    · rw [verdict_of_le hfirst hfull, if_neg (by omega), hfirst]
      rfl

theorem Kept.note_eq (h : Kept limits s) (htidy : Tidies tidy) (hapart : Apart limits)
    (hlimit : limit ∈ limits) (key : Key) (hnow : s.clock ≤ now) :
    s.buckets.note tidy limit key now = (.passes, s.buckets.put tidy limit key now
      (limit.live now (pushes (limit.slot key) s.log) ++ [now])) := by
  simp only [Buckets.note, h.alive, Bool.false_eq_true, if_false,
    h.queue_eq htidy hapart hlimit hnow]

theorem secondsLeft_le_iff (hpast : oldest ≤ now) (hlive : now < oldest + limit.window)
    (later : Nat) : secondsLeft limit now oldest ≤ later ↔
      oldest + limit.window ≤ now + later * NANOS := by
  have hleft : limit.window - (now - oldest) = oldest + limit.window - now := by omega
  simp only [secondsLeft, hleft, NANOS]
  split <;> omega

theorem live_later (hpushed : pushed.Pairwise fun later earlier => earlier ≤ later)
    (hlive : limit.live now pushed = oldest :: rest) {later : Nat} (hnow : now ≤ later) :
    (limit.live later pushed).length < (limit.live now pushed).length ↔
      oldest + limit.window ≤ later := by
  have hasc : (limit.live now pushed).Pairwise (· ≤ ·) :=
    List.pairwise_reverse.mpr (hpushed.sublist List.filter_sublist)
  have hfilter : limit.live later pushed =
      (limit.live now pushed).filter fun t => later < t + limit.window := by
    simp only [Limit.live, List.filter_reverse, List.filter_filter]
    congr 1
    apply List.filter_congr
    intro t _
    simp only [← Bool.decide_and, decide_eq_decide]
    omega
  rw [hfilter, List.length_filter_lt_length_iff_exists, hlive]
  rw [hlive] at hasc
  constructor
  · intro ⟨t, ht, hgone⟩
    have hle : oldest ≤ t := by
      rcases List.mem_cons.mp ht with rfl | hrest
      · exact Nat.le_refl _
      · exact (List.pairwise_cons.mp hasc).1 t hrest
    simp only [decide_eq_true_eq] at hgone
    omega
  · intro hgone
    exact ⟨oldest, by simp, by simpa using hgone⟩

theorem Kept.waits_iff (h : Kept limits s) (hapart : Apart limits) (hlimit : limit ∈ limits)
    (hnow : s.clock ≤ now)
    (hwaits : limit.verdict now (pushes (limit.slot key) s.log) = .waits seconds) (later : Nat) :
    limit.verdict (now + later * NANOS) (pushes (limit.slot key) s.log) = .passes ↔
      seconds ≤ later := by
  have hfew := h.length_live_le key hlimit hnow
  have hallows := hapart.allows limit hlimit
  rcases live_cases now (pushes (limit.slot key) s.log) hallows with hroom | ⟨oldest, rest, hfirst, hfull⟩
  · rw [verdict_of_lt hroom] at hwaits
    cases hwaits
  rw [verdict_of_le hfirst hfull] at hwaits
  obtain rfl := Answer.waits.inj hwaits
  have hmem : oldest ∈ limit.live now (pushes (limit.slot key) s.log) := by simp [hfirst]
  simp only [Limit.live, List.mem_reverse, List.mem_filter, decide_eq_true_eq] at hmem
  rw [secondsLeft_le_iff (h.past_now hnow _ oldest hmem.1) hmem.2,
    ← live_later (h.ascending _) hfirst (Nat.le_add_right now _)]
  rcases live_cases (now + later * NANOS) (pushes (limit.slot key) s.log) hallows with
    hroom | ⟨first, others, hlater, hstill⟩
  · rw [verdict_of_lt hroom]
    simp
    omega
  · rw [verdict_of_le hlater hstill]
    simp
    omega

end Answers

section Runs

variable {limits : List Limit} {limit : Limit} {key : Key} {s t : State} {now : Nat}
  {tidy : Records → Nat → Records} {entry : Entry} {e : Event} {events : List Event}

theorem pushes_cons (slot : Slot) (log : List Entry) : pushes slot (entry :: log) =
    if entry.call.slot = slot ∧ entry.pushes = true then entry.now :: pushes slot log
    else pushes slot log := by
  simp only [pushes, List.filter_cons]
  split <;> simp_all

theorem Apart.of_slot (h : Apart limits) {other : Limit} {key' : Key} (hlimit : limit ∈ limits)
    (hother : other ∈ limits) (hslot : other.slot key' = limit.slot key) : other = limit :=
  h.names other hother limit hlimit (Prod.mk.inj hslot).1

theorem Kept.passed (h : Kept limits s) (entry : Entry) (hnow : s.clock ≤ entry.now) (hentry : entry.pushes = false) :
    Kept limits ⟨s.buckets, entry.now, entry :: s.log⟩ := by
  have hsame (slot : Slot) : pushes slot (entry :: s.log) = pushes slot s.log := by
    simp [pushes_cons, hentry]
  constructor
  · exact h.alive
  · intro slot
    rw [hsame]
    exact h.past_now hnow slot
  · intro slot
    rw [hsame]
    exact h.ascending slot
  · intro limit hlimit key
    rw [hsame]
    exact (h.held limit hlimit key).later hnow
  · intro limit hlimit key
    rw [hsame]
    exact h.sparse limit hlimit key

theorem Kept.put (h : Kept limits s) (entry : Entry) (htidy : Tidies tidy) (hapart : Apart limits)
    (hlimit : limit ∈ limits) (hnow : s.clock ≤ entry.now) (hslot : entry.call.slot = limit.slot key)
    (hroom : entry.pushes = true →
      (limit.live entry.now (pushes (limit.slot key) s.log)).length < limit.allowance) :
    Kept limits ⟨s.buckets.put tidy limit key entry.now
      (if entry.pushes then limit.live entry.now (pushes (limit.slot key) s.log) ++ [entry.now]
        else limit.live entry.now (pushes (limit.slot key) s.log)),
      entry.now, entry :: s.log⟩ := by
  have hqueue : Holds limit entry.now (pushes (limit.slot key) s.log)
      (limit.live entry.now (pushes (limit.slot key) s.log)) := by
    have hholds := h.holds_tidied htidy hapart hlimit key hnow
    rw [← hholds.prune_eq (h.past_now hnow _) (h.ascending _)]
    exact hholds.pruned (h.past_now hnow _)
  constructor
  · exact h.alive
  · intro slot
    have hpast := h.past_now hnow slot
    rw [pushes_cons]
    split
    · simpa using hpast
    · exact hpast
  · intro slot
    rw [pushes_cons]
    split
    · exact List.pairwise_cons.mpr ⟨h.past_now hnow slot, h.ascending slot⟩
    · exact h.ascending slot
  · intro other hother key'
    by_cases hsame : other.slot key' = limit.slot key
    · obtain rfl := hapart.of_slot hlimit hother hsame
      simp only [Buckets.put, hsame, Function.update_self, Option.getD_some, pushes_cons, hslot,
        true_and]
      by_cases hpush : entry.pushes = true
      · rw [if_pos hpush, if_pos hpush]
        exact hqueue.push
      · rw [if_neg hpush, if_neg hpush]
        exact hqueue
    · have hother' := h.holds_tidied htidy hapart hother key' hnow
      simpa [Buckets.put, Function.update_of_ne hsame, pushes_cons, hslot, Ne.symm hsame]
        using hother'
  · intro other hother key'
    rw [pushes_cons]
    split
    · next hhere =>
      have hsame : other.slot key' = limit.slot key := hhere.1.symm.trans hslot
      obtain rfl := hapart.of_slot hlimit hother hsame
      rw [hsame]
      refine ⟨?_, h.sparse other hother key⟩
      rw [← length_live]
      exact hroom hhere.2
    · exact h.sparse other hother key'

def Event.answer (e : Event) (log : List Entry) : Answer :=
  match e.call with
  | .take limit _ | .check limit _ => limit.verdict e.now (pushes e.call.slot log)
  | .note _ _ => .passes

/-- Nothing is noted where there is no room. -/
def Event.hasRoom (e : Event) (log : List Entry) : Prop :=
  ∀ limit key, e.call = .note limit key →
    limit.verdict e.now (pushes (limit.slot key) log) = .passes

theorem Kept.step (h : Kept limits s) (htidy : Tidies tidy) (hapart : Apart limits)
    (hlimit : e.call.limit ∈ limits) (hroom : e.hasRoom s.log) (hnow : s.clock ≤ e.now) :
    ∃ t, (machine tidy).step s e = some t ∧ Kept limits t ∧
      t.log = ⟨e.now, e.call, e.answer s.log⟩ :: s.log := by
  have hlive (limit : Limit) (key : Key)
      (hpass : limit.verdict e.now (pushes (limit.slot key) s.log) = .passes)
      (hallows : 0 < limit.allowance) :
      (limit.live e.now (pushes (limit.slot key) s.log)).length < limit.allowance := by
    rcases live_cases e.now (pushes (limit.slot key) s.log) hallows
      with hroom | ⟨oldest, rest, hfirst, hfull⟩
    · exact hroom
    · rw [verdict_of_le hfirst hfull] at hpass
      cases hpass
  obtain ⟨now, call⟩ := e
  have hclock : s.clock ≤ now := hnow
  cases call with
  | take limit key =>
    have hmem : limit ∈ limits := hlimit
    have htake := h.take_eq htidy hapart hmem key hclock
    have hput := h.put ⟨now, .take limit key,
      limit.verdict now (pushes (limit.slot key) s.log)⟩ htidy hapart hmem hclock rfl
      fun hpush => hlive limit key (by simpa [Entry.pushes, Call.isCheck] using hpush)
        (hapart.allows limit hmem)
    refine ⟨_, ?_, hput, rfl⟩
    simp only [machine, if_pos hclock, Call.run, htake]
    simp [Entry.pushes, Call.isCheck]
  | check limit key =>
    have hmem : limit ∈ limits := hlimit
    have hcheck := h.check_eq hapart hmem key hclock
    have hpassed := h.passed ⟨now, .check limit key,
      limit.verdict now (pushes (limit.slot key) s.log)⟩ hclock (by simp [Entry.pushes, Call.isCheck])
    refine ⟨_, ?_, hpassed, rfl⟩
    simp only [machine, if_pos hclock, Call.run]
    rw [← hcheck]
  | note limit key =>
    have hmem : limit ∈ limits := hlimit
    have hnote := h.note_eq htidy hapart hmem key hclock
    have hput := h.put ⟨now, .note limit key, .passes⟩ htidy hapart hmem hclock rfl
      fun _ => hlive limit key (hroom limit key rfl) (hapart.allows limit hmem)
    refine ⟨_, ?_, hput, rfl⟩
    simp only [machine, if_pos hclock, Call.run, hnote]
    simp [Entry.pushes, Call.isCheck]

theorem Kept.hasRoom (h : Kept limits s) (hapart : Apart limits) (hheeds : Heeds limits s e)
    (hnow : s.clock ≤ e.now) : e.hasRoom s.log := by
  intro limit key hcall
  obtain ⟨hlimit, hdue⟩ := hheeds
  rw [hcall] at hlimit
  have hmem : limit ∈ limits := hlimit
  rw [← h.check_eq hapart hmem key hnow]
  simpa [Event.isDue, hcall] using hdue

theorem Kept.runs {swept bare last : State} (hapart : Apart limits) (hswept : Kept limits swept)
    (hbare : Kept limits bare) (hlog : bare.log = swept.log) (hclock : bare.clock = swept.clock)
    (hheeds : (machine sweep).Meets (Heeds limits) swept events)
    (hrun : (machine sweep).exec swept events = some last) :
    Kept limits last ∧ ∃ t, (machine unswept).exec bare events = some t ∧ t.log = last.log := by
  induction events generalizing swept bare with
  | nil =>
    obtain rfl : swept = last := by simpa using hrun
    exact ⟨hswept, bare, rfl, hlog⟩
  | cons e events ih =>
    obtain ⟨next, hstep, hrest⟩ := (machine sweep).exec_cons.mp hrun
    obtain ⟨hheed, hheeds⟩ := ((machine sweep).meets_cons hstep).mp hheeds
    have hnow : swept.clock ≤ e.now := by
      by_contra hlate
      simp [machine, hlate] at hstep
    have hroom := hswept.hasRoom hapart hheed hnow
    obtain ⟨t, ht, hkept, htlog⟩ := hswept.step tidies_sweep hapart hheed.1 hroom hnow
    obtain rfl : next = t := Option.some.inj (hstep.symm.trans ht)
    obtain ⟨u, hu, hukept, hulog⟩ := hbare.step tidies_unswept hapart hheed.1
      (by rw [hlog]; exact hroom) (by rw [hclock]; exact hnow)
    have hclocks : next.clock = e.now ∧ u.clock = e.now := by
      constructor
      · simp only [machine, if_pos hnow, Option.some.injEq] at hstep
        rw [← hstep]
      · rw [← hclock] at hnow
        simp only [machine, if_pos hnow, Option.some.injEq] at hu
        rw [← hu]
    obtain ⟨hlast, v, hv, hvlog⟩ := ih hkept hukept (by rw [hulog, htlog, hlog])
      (hclocks.2.trans hclocks.1.symm) hheeds hrest
    exact ⟨hlast, v, (machine unswept).exec_cons.mpr ⟨u, hu, hv⟩, hvlog⟩

theorem granted_sublist (limit : Limit) (key : Key) (log : List Entry) :
    (granted limit key log).Sublist (pushes (limit.slot key) log) := by
  apply List.Sublist.map
  apply List.monotone_filter_right
  intro entry hgranted
  simp only [decide_eq_true_eq] at hgranted
  simp [Entry.pushes, hgranted.1, hgranted.2, Call.slot, Call.isCheck]

theorem Kept.brakes (h : Kept limits s) (hapart : Apart limits) (hlimit : limit ∈ limits)
    (key : Key) : Brakes limit key s where
  sparing start := ((h.sparse limit hlimit key).sublist (granted_sublist limit key s.log)).count_le start
  agreeing now hnow := by
    rw [h.check_eq hapart hlimit key hnow, h.take_eq tidies_sweep hapart hlimit key hnow]
  checked now seconds hnow hwaits later := by
    rw [h.check_eq hapart hlimit key hnow] at hwaits
    rw [h.take_eq tidies_sweep hapart hlimit key (Nat.le_trans hnow (Nat.le_add_right _ _))]
    exact h.waits_iff hapart hlimit hnow hwaits later
  refused now seconds hnow hwaits later := by
    have htake := h.take_eq tidies_sweep hapart hlimit key hnow
    have hverdict : limit.verdict now (pushes (limit.slot key) s.log) = .waits seconds := by
      rw [← hwaits, htake]
    obtain ⟨t, hstep, hkept, hlog⟩ := h.step (e := ⟨now, .take limit key⟩) tidies_sweep hapart hlimit
      (by intro _ _ hcall; cases hcall) hnow
    simp only [machine, if_pos hnow, Option.some.injEq] at hstep
    have hpushes : pushes (limit.slot key) t.log = pushes (limit.slot key) s.log := by
      rw [hlog, pushes_cons]
      simp [Event.answer, Call.slot, Entry.pushes, hverdict]
    have hbuckets : t.buckets = (s.buckets.take sweep limit key now).2 := by
      rw [← hstep]
      rfl
    have hclock : t.clock = now := by rw [← hstep]
    rw [← hbuckets, hkept.take_eq tidies_sweep hapart hlimit key (by omega), hpushes]
    exact h.waits_iff hapart hlimit hnow hverdict later

end Runs

/-- In every run under limits that lie apart in which nothing is noted into a full bucket, each of
the limits is kept, refusals say exactly how long they last, and the sweep changes no answer. -/
theorem buckets_hold (limits : List Limit) (hapart : Apart limits) (events : List Event) (s : State)
    (hheeds : (machine sweep).Meets (Heeds limits) {} events)
    (hrun : (machine sweep).exec {} events = some s) :
    (∀ limit ∈ limits, ∀ key, Brakes limit key s) ∧
      ∃ t, (machine unswept).exec {} events = some t ∧ t.log = s.log := by
  obtain ⟨hkept, hsame⟩ := Kept.runs hapart Kept.start Kept.start rfl rfl hheeds hrun
  exact ⟨fun limit hlimit key => hkept.brakes hapart hlimit key, hsame⟩

def LIMITS : List Limit :=
  [REGISTER_PER_HOUR, REGISTER_PER_DAY, RESEND_PER_ADDRESS, RESET_ATTEMPTS,
    ADMIN_RESET_PER_ACCOUNT, VERIFY_ATTEMPTS]

theorem limits_apart : Apart LIMITS where
  allows := by decide +kernel
  short := by decide +kernel
  names := by decide +kernel

/-- The second mail within five minutes is refused, and the third is not. -/
def resent : List Event :=
  [⟨0, .take RESEND_PER_ADDRESS ['a']⟩, ⟨299 * NANOS, .take RESEND_PER_ADDRESS ['a']⟩,
    ⟨300 * NANOS, .check RESEND_PER_ADDRESS ['a']⟩, ⟨300 * NANOS, .note RESEND_PER_ADDRESS ['a']⟩]

theorem buckets_hold_resent : ∃ s, (machine sweep).exec {} resent = some s ∧
    ∀ key, Brakes RESEND_PER_ADDRESS key s := by
  obtain ⟨s, hrun, -⟩ : (machine sweep).Ends {} resent fun _ => True := by decide +kernel
  have hheeds : (machine sweep).Meets (Heeds LIMITS) {} resent := by decide +kernel
  exact ⟨s, hrun, (buckets_hold LIMITS limits_apart resent s hheeds hrun).1 _ (by decide +kernel)⟩

/-- Two sign-ups of one address within five minutes, each of which is noted. -/
def signedUpTwice : List Event :=
  [⟨0, .note RESEND_PER_ADDRESS ['a']⟩, ⟨100 * NANOS, .note RESEND_PER_ADDRESS ['a']⟩]

/-- A resend is told to wait for 199 seconds, after which it is refused again. -/
theorem second_note_still_refuses :
    ¬ ∀ (events : List Event) (s : State), (machine sweep).exec {} events = some s →
      ∀ limit key, Brakes limit key s := by
  intro hall
  obtain ⟨s, hrun, hclock, hwaits, hagain⟩ : (machine sweep).Ends {} signedUpTwice fun s =>
      s.clock ≤ 101 * NANOS ∧
      (s.buckets.take sweep RESEND_PER_ADDRESS ['a'] (101 * NANOS)).1 = .waits 199 ∧
      ((s.buckets.take sweep RESEND_PER_ADDRESS ['a'] (101 * NANOS)).2.take sweep
        RESEND_PER_ADDRESS ['a'] (101 * NANOS + 199 * NANOS)).1 ≠ .passes := by
    decide +kernel
  have hbrakes := hall signedUpTwice s hrun RESEND_PER_ADDRESS ['a']
  exact hagain ((hbrakes.refused (101 * NANOS) 199 hclock hwaits 199).mpr (Nat.le_refl _))

end CraftPanel.Accounts.Rates
