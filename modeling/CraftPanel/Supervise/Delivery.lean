import CraftPanel.Supervise.Link

/-!
# What the link loop delivers

A line that leaves the queue without being sent is still in the ring, and the next connection
replays it before anything else; `Exited` has no such second place. The loop loses it in a failed
send of the pending queue, by eviction, or by returning while it is still in the channel.
-/

namespace CraftPanel.Supervise

open Framework

/-- `Exited` on its way from the exit watch into the channel. -/
def ExitWatch.held : ExitWatch → Option Message
  | waiting | done => none
  | holding status => some status.message

/-- The loop runs, and the message is in one of its places. -/
def Holds (s : Loop) (m : Message) : Prop :=
  s.phase ≠ .returned ∧ (m ∈ s.ring.replay ∨ m ∈ s.pending ∨ m ∈ s.channel ∨
    m ∈ s.held.map .output ∨ m ∈ s.exit.held)

/-- An output line that `ringCapacity` newer ones follow. -/
def BeyondRing (s : Loop) (m : Message) : Prop :=
  ∃ line, m = .output line ∧ line.seq + ringCapacity < s.ring.nextSeq

structure NoneLost (s : Loop) : Prop where
  kept : ∀ m ∈ s.queued, m ∈ s.delivered ∨ Holds s m ∨ BeyondRing s m
  returned : s.phase = .returned → ∃ m ∈ s.delivered, m.isExited = true

/-- The front of the pending queue can be given up. -/
def frontIsOutput (s : Loop) : Prop := ∀ m ∈ s.pending.head?, m.isExited = false

/-- The events that spare `Exited`: the process can be waited for, neither a failed send of the
pending queue nor an eviction hits it, and the loop does not return over a message that is still
on its way into the queue. -/
def SparesExited (s : Loop) : Event → Prop
  | .exits status => status.isSome = true
  | .send ok => ok = false → s.phase = .flush → frontIsOutput s
  | .drain => s.channel ≠ [] → ringCapacity ≤ s.pending.length → frontIsOutput s
  | .check => s.finished = true → s.pending = [] → s.channel = [] ∧ s.held = []
  | _ => True

instance (s : Loop) : Decidable (frontIsOutput s) :=
  inferInstanceAs (Decidable (∀ m ∈ s.pending.head?, _))

instance (s : Loop) : ∀ e, Decidable (SparesExited s e)
  | .exits status => inferInstanceAs (Decidable (status.isSome = true))
  | .send _ => inferInstanceAs (Decidable (_ → _ → frontIsOutput s))
  | .drain => inferInstanceAs (Decidable (_ → _ → frontIsOutput s))
  | .check => inferInstanceAs (Decidable (_ → _ → _ ∧ _))
  | .read .. | .enqueue _ | .enqueueExit | .connect _ | .greet _ | .proceed | .hangup | .wake =>
    isTrue trivial

/-- Every line of the ring was sent, or is under way in the readers, the channel or `extra`. -/
def Covered (s : Loop) (extra : List Message) : Prop :=
  ∀ line ∈ s.ring.lines, .output line ∈ s.delivered ∨ line ∈ s.held ∨ .output line ∈ s.channel ∨
    .output line ∈ extra

/-- What each phase owes the lines of the ring. Between two connections a line may be in the ring
only, but then the pending queue is not empty, and it stays so until the ring is replayed. -/
def CoveredAt (s : Loop) : Phase → Prop
  | .replay todo => Covered s todo ∧ (Covered s s.pending ∨ s.pending ≠ [])
  | .flush => Covered s []
  | .serve => Covered s [] ∧ s.pending = []
  | .returned => Covered s [] ∧ s.held = [] ∧ s.channel = []
  | .connect | .drain | .greet | .check | .sleep => Covered s s.pending ∨ s.pending ≠ []

structure Inv (s : Loop) : Prop where
  ringed : ∀ line, .output line ∈ s.queued →
    line ∈ s.ring.lines ∨ line.seq + ringCapacity < s.ring.nextSeq
  exited : ∀ m ∈ s.queued, m.isExited = true →
    m ∈ s.delivered ∨ m ∈ s.pending ∨ m ∈ s.channel ∨ m ∈ s.exit.held
  holding : ∀ m ∈ s.exit.held, m ∈ s.queued
  reported : s.exit = .done → ∃ m ∈ s.queued, m.isExited = true
  finished : s.finished = true → s.exit = .done
  returned : s.phase = .returned → s.finished = true ∧ s.pending = []
  covered : CoveredAt s s.phase

theorem Covered.mono {s : Loop} {extra extra' : List Message} (h : Covered s extra)
    (hsub : ∀ m ∈ extra, m ∈ extra') : Covered s extra' := by
  intro line hline
  rcases h line hline with h | h | h | h
  · exact .inl h
  · exact .inr (.inl h)
  · exact .inr (.inr (.inl h))
  · exact .inr (.inr (.inr (hsub _ h)))

theorem CoveredAt.of_covered {s t : Loop} {p : Phase} (h : CoveredAt s p) (hp : p ≠ .returned)
    (hcovered : ∀ extra, Covered s extra → Covered t extra) (hpending : t.pending = s.pending) :
    CoveredAt t p := by
  cases p with
  | replay todo => exact ⟨hcovered _ h.1, hpending ▸ h.2.imp_left (hcovered _)⟩
  | flush => exact hcovered _ h
  | serve => exact ⟨hcovered _ h.1, hpending ▸ h.2⟩
  | returned => exact absurd rfl hp
  | connect | drain | greet | check | sleep =>
    change Covered t t.pending ∨ t.pending ≠ []
    rw [hpending]
    exact Or.imp_left (hcovered _) h

section Steps

variable {s t : Loop}

theorem inv_read {line : String} {stream : OutputStream} (hinv : Inv s)
    (hphase : s.phase ≠ .returned) (h : s.read line stream = some t) : Inv t := by
  simp only [Loop.read] at h
  split at h
  · simp at h
  cases h
  have hcovered : ∀ extra, Covered s extra → Covered { s with
      ring := (s.ring.push ringCapacity_pos line stream).1
      held := s.held ++ [⟨s.ring.nextSeq, line, stream⟩]
      queued := s.queued ++ [.output ⟨s.ring.nextSeq, line, stream⟩] } extra := by
    intro extra hs other hother
    rw [Ring.push_lines] at hother
    rcases List.mem_append.mp hother with hold | hnew
    · have hmem : other ∈ s.ring.lines := by
        split at hold
        · exact List.mem_of_mem_tail hold
        · exact hold
      rcases hs other hmem with h | h | h
      · exact .inl h
      · exact .inr (.inl (List.mem_append_left _ h))
      · exact .inr (.inr h)
    · exact .inr (.inl (List.mem_append_right _ hnew))
  refine ⟨fun other hother => ?_, fun m hm hexited => ?_, fun m hm => ?_, fun hdone => ?_,
    hinv.finished, fun hreturned => absurd hreturned hphase,
    hinv.covered.of_covered hphase hcovered rfl⟩
  · rcases List.mem_append.mp hother with hold | hnew
    · rcases hinv.ringed other hold with h | h
      · exact s.ring.mem_push ringCapacity_pos line stream h
      · exact .inr (Nat.lt_succ_of_lt h)
    · simp only [List.mem_singleton, Message.output.injEq] at hnew
      exact .inl (by simp [hnew])
  · rcases List.mem_append.mp hm with hold | hnew
    · exact hinv.exited m hold hexited
    · rw [List.mem_singleton.mp hnew] at hexited
      simp [Message.isExited] at hexited
  · exact List.mem_append_left _ (hinv.holding m hm)
  · obtain ⟨m, hm, he⟩ := hinv.reported hdone
    exact ⟨m, List.mem_append_left _ hm, he⟩

theorem inv_enqueue {stream : OutputStream} (hinv : Inv s) (hphase : s.phase ≠ .returned)
    (h : s.enqueue stream = some t) : Inv t := by
  simp only [Loop.enqueue] at h
  split at h
  · rename_i line hline
    split at h
    · cases h
      refine ⟨hinv.ringed, fun m hm he => ?_, hinv.holding, hinv.reported, hinv.finished,
        fun hreturned => absurd hreturned hphase, hinv.covered.of_covered hphase ?_ rfl⟩
      · rcases hinv.exited m hm he with h | h | h | h
        · exact .inl h
        · exact .inr (.inl h)
        · exact .inr (.inr (.inl (List.mem_append_left _ h)))
        · exact .inr (.inr (.inr h))
      intro extra hs other hother
      rcases hs other hother with h | h | h | h
      · exact .inl h
      · by_cases heq : other = line
        · exact .inr (.inr (.inl (by simp [heq])))
        · exact .inr (.inl ((List.mem_erase_of_ne heq).mpr h))
      · exact .inr (.inr (.inl (List.mem_append_left _ h)))
      · exact .inr (.inr (.inr h))
    · simp at h
  · simp at h

theorem inv_exits {status : Option ExitStatus} (hinv : Inv s) (hphase : s.phase ≠ .returned)
    (hok : status.isSome = true) (h : s.exits status = some t) : Inv t := by
  simp only [Loop.exits] at h
  split at h
  · rename_i status' hexit
    cases h
    refine ⟨fun line hline => ?_, fun m hm he => ?_, fun m hm => ?_, fun hdone => ?_,
      fun hfinished => ?_, fun hreturned => absurd hreturned hphase,
      hinv.covered.of_covered hphase (fun _ hs => hs) rfl⟩
    · rcases List.mem_append.mp hline with hold | hnew
      · exact hinv.ringed line hold
      · simp [ExitStatus.message] at hnew
    · rcases List.mem_append.mp hm with hold | hnew
      · rcases hinv.exited m hold he with h | h | h | h
        · exact .inl h
        · exact .inr (.inl h)
        · exact .inr (.inr (.inl h))
        · simp [hexit, ExitWatch.held] at h
      · exact .inr (.inr (.inr (by simp [ExitWatch.held, List.mem_singleton.mp hnew])))
    · have hm' : status'.message = m := by simpa [ExitWatch.held] using hm
      simp [hm']
    · simp at hdone
    · simp [hinv.finished hfinished] at hexit
  · simp at hok
  · simp at h

theorem inv_enqueueExit (hinv : Inv s) (hphase : s.phase ≠ .returned)
    (h : s.enqueueExit = some t) : Inv t := by
  simp only [Loop.enqueueExit] at h
  split at h
  · rename_i status hexit
    split at h
    · cases h
      refine ⟨hinv.ringed, fun m hm he => ?_, fun m hm => by simp [ExitWatch.held] at hm,
        fun _ => ⟨status.message, hinv.holding _ (by simp [hexit, ExitWatch.held]), rfl⟩, fun _ => rfl,
        fun hreturned => absurd hreturned hphase, hinv.covered.of_covered hphase ?_ rfl⟩
      · rcases hinv.exited m hm he with h | h | h | h
        · exact .inl h
        · exact .inr (.inl h)
        · exact .inr (.inr (.inl (List.mem_append_left _ h)))
        · have hmessage : status.message = m := by simpa [hexit, ExitWatch.held] using h
          exact .inr (.inr (.inl (by simp [hmessage])))
      · intro extra hs other hother
        rcases hs other hother with h | h | h | h
        · exact .inl h
        · exact .inr (.inl h)
        · exact .inr (.inr (.inl (List.mem_append_left _ h)))
        · exact .inr (.inr (.inr h))
    · simp at h
  · simp at h

theorem inv_phase {p : Phase} (hinv : Inv s) (hp : p ≠ .returned) (hcovered : CoveredAt s p) :
    Inv { s with phase := p } :=
  ⟨hinv.ringed, hinv.exited, hinv.holding, hinv.reported, hinv.finished,
    fun hreturned => absurd hreturned hp, by cases p <;> exact hcovered⟩

theorem inv_drain (hinv : Inv s) (hok : SparesExited s .drain) (h : s.drain = some t) : Inv t := by
  simp only [Loop.drain] at h
  split at h
  · rename_i hphase hchannel
    cases h
    have hcovered := hinv.covered
    rw [hphase] at hcovered
    exact inv_phase hinv (by simp) hcovered
  · rename_i message channel hphase hchannel
    cases h
    refine ⟨hinv.ringed, fun m hm he => ?_, hinv.holding, hinv.reported, hinv.finished,
      fun hreturned => by simp [hphase] at hreturned, ?_⟩
    · rcases hinv.exited m hm he with h | h | h | h
      · exact .inl h
      · refine .inr (.inl (List.mem_append_left _ ?_))
        split
        · rename_i hfull
          -- an evicted front is not `Exited`
          cases hpending : s.pending with
          | nil => simp [hpending] at h
          | cons front rest =>
            have hfront := hok (by simp [hchannel]) hfull front (by simp [hpending])
            rcases List.mem_cons.mp (hpending ▸ h) with rfl | h
            · simp [he] at hfront
            · exact h
        · exact h
      · rcases List.mem_cons.mp (hchannel ▸ h) with rfl | h
        · exact .inr (.inl (by simp))
        · exact .inr (.inr (.inl h))
      · exact .inr (.inr (.inr h))
    · rw [hphase]
      exact .inr (by simp)
  · simp at h

theorem inv_send {ok : Bool} (hinv : Inv s) (hok : SparesExited s (.send ok))
    (h : s.send ok = some t) : Inv t := by
  have hcovered := hinv.covered
  simp only [Loop.send] at h
  split at h
  · rename_i message todo hphase
    rw [hphase] at hcovered
    split at h
    · cases h
      refine ⟨hinv.ringed, fun m hm he => ?_, hinv.holding, hinv.reported, hinv.finished,
        fun hreturned => by simp at hreturned, fun line hline => ?_, ?_⟩
      · exact (hinv.exited m hm he).imp_left (List.mem_append_left _)
      · rcases hcovered.1 line hline with h | h | h | h
        · exact .inl (List.mem_append_left _ h)
        · exact .inr (.inl h)
        · exact .inr (.inr (.inl h))
        · rcases List.mem_cons.mp h with h | h
          · exact .inl (by simp [h])
          · exact .inr (.inr (.inr h))
      · exact hcovered.2.imp_left fun hs line hline =>
          (hs line hline).imp_left (List.mem_append_left _)
    · cases h
      exact inv_phase hinv (by simp) hcovered.2
  · rename_i hphase
    rw [hphase] at hcovered
    split at h
    · rename_i message pending hpending
      split at h
      · cases h
        refine ⟨hinv.ringed, fun m hm he => ?_, hinv.holding, hinv.reported, hinv.finished,
          fun hreturned => by simp [hphase] at hreturned, ?_⟩
        · rcases hinv.exited m hm he with h | h | h
          · exact .inl (List.mem_append_left _ h)
          · rcases List.mem_cons.mp (hpending ▸ h) with rfl | h
            · exact .inl (by simp)
            · exact .inr (.inl h)
          · exact .inr (.inr h)
        · rw [hphase]
          exact fun line hline => (hcovered line hline).imp_left (List.mem_append_left _)
      · rename_i hfailed
        cases h
        have hfront := hok (by simpa using hfailed) hphase message (by simp [hpending])
        refine ⟨hinv.ringed, fun m hm he => ?_, hinv.holding, hinv.reported, hinv.finished,
          fun hreturned => by simp at hreturned, .inl (Covered.mono hcovered (by simp))⟩
        rcases hinv.exited m hm he with h | h | h
        · exact .inl h
        · rcases List.mem_cons.mp (hpending ▸ h) with rfl | h
          · simp [he] at hfront
          · exact .inr (.inl h)
        · exact .inr (.inr h)
    · simp at h
  · rename_i hphase
    rw [hphase] at hcovered
    split at h
    · rename_i message channel hchannel
      split at h
      · cases h
        refine ⟨hinv.ringed, fun m hm he => ?_, hinv.holding, hinv.reported, hinv.finished,
          fun hreturned => by simp [hphase] at hreturned, ?_⟩
        · rcases hinv.exited m hm he with h | h | h | h
          · exact .inl (List.mem_append_left _ h)
          · exact .inr (.inl h)
          · rcases List.mem_cons.mp (hchannel ▸ h) with rfl | h
            · exact .inl (by simp)
            · exact .inr (.inr (.inl h))
          · exact .inr (.inr (.inr h))
        · rw [hphase]
          refine ⟨fun line hline => ?_, hcovered.2⟩
          rcases hcovered.1 line hline with h | h | h | h
          · exact .inl (List.mem_append_left _ h)
          · exact .inr (.inl h)
          · rcases List.mem_cons.mp (hchannel ▸ h) with h | h
            · exact .inl (by simp [h])
            · exact .inr (.inr (.inl h))
          · simp at h
      · cases h
        refine ⟨hinv.ringed, fun m hm he => ?_, hinv.holding, hinv.reported, hinv.finished,
          fun hreturned => by simp at hreturned, .inr (by simp)⟩
        rcases hinv.exited m hm he with h | h | h | h
        · exact .inl h
        · exact .inr (.inl (List.mem_append_left _ h))
        · rcases List.mem_cons.mp (hchannel ▸ h) with rfl | h
          · exact .inr (.inl (by simp))
          · exact .inr (.inr (.inl h))
        · exact .inr (.inr (.inr h))
    · simp at h
  · simp at h

theorem inv_proceed (hinv : Inv s) (h : s.proceed = some t) : Inv t := by
  have hcovered := hinv.covered
  simp only [Loop.proceed] at h
  split at h
  · rename_i hphase
    rw [hphase] at hcovered
    cases h
    exact inv_phase hinv (by simp) hcovered.1
  · rename_i hphase
    rw [hphase] at hcovered
    split at h
    · rename_i hpending
      cases h
      exact inv_phase hinv (by simp) ⟨hcovered, hpending⟩
    · simp at h
  · simp at h

theorem inv_check (hinv : Inv s) (hok : SparesExited s .check) (h : s.check = some t) : Inv t := by
  have hcovered := hinv.covered
  simp only [Loop.check] at h
  split at h
  · rename_i hphase
    rw [hphase] at hcovered
    split at h
    · rename_i hend
      cases h
      simp only [Bool.and_eq_true, List.isEmpty_iff] at hend
      obtain ⟨hchannel, hheld⟩ := hok hend.1 hend.2
      have hcovered' : Covered s [] := by
        rcases hcovered with hs | hs
        · exact hend.2 ▸ hs
        · exact absurd hend.2 hs
      exact ⟨hinv.ringed, hinv.exited, hinv.holding, hinv.reported, hinv.finished,
        fun _ => hend, hcovered', hheld, hchannel⟩
    · cases h
      refine ⟨hinv.ringed, hinv.exited, hinv.holding, hinv.reported, fun hfinished => ?_,
        fun hreturned => by simp at hreturned, hcovered⟩
      simp only [Bool.or_eq_true, decide_eq_true_eq] at hfinished
      exact hfinished.elim hinv.finished id
  · simp at h

theorem inv_step {e : Event} (hinv : Inv s) (hok : SparesExited s e) (h : s.step e = some t) :
    Inv t := by
  have hcovered := hinv.covered
  unfold Loop.step at h
  split at h
  · simp at h
  rename_i hphase
  cases e with
  | read line stream => exact inv_read hinv hphase h
  | enqueue stream => exact inv_enqueue hinv hphase h
  | exits status => exact inv_exits hinv hphase hok h
  | enqueueExit => exact inv_enqueueExit hinv hphase h
  | drain => exact inv_drain hinv hok h
  | send ok => exact inv_send hinv hok h
  | proceed => exact inv_proceed hinv h
  | check => exact inv_check hinv hok h
  | connect ok =>
    simp only at h
    split at h
    · rename_i hconnect
      rw [hconnect] at hcovered
      cases h
      cases ok
      · exact inv_phase hinv (by simp) hcovered
      · exact inv_phase hinv (by simp) hcovered
    · simp at h
  | greet accepted =>
    simp only at h
    split at h
    · rename_i hgreet
      rw [hgreet] at hcovered
      cases h
      cases accepted
      · exact inv_phase hinv (by simp) hcovered
      · refine inv_phase hinv (by simp) ⟨fun line hline => ?_, hcovered⟩
        exact .inr (.inr (.inr (List.mem_map_of_mem hline)))
    · simp at h
  | hangup =>
    simp only at h
    split at h
    · rename_i hserve
      rw [hserve] at hcovered
      cases h
      exact inv_phase hinv (by simp) (.inl (hcovered.1.mono (by simp)))
    · simp at h
  | wake =>
    simp only at h
    split at h
    · rename_i hsleep
      rw [hsleep] at hcovered
      cases h
      exact inv_phase hinv (by simp) hcovered
    · simp at h

end Steps

theorem inv_init : Inv {} :=
  ⟨by simp, by simp, by simp [ExitWatch.held], by simp, by simp, by simp, .inl fun line hline => by
    simp [Ring.new] at hline⟩

theorem Inv.delivered {s : Loop} (hinv : Inv s) (hphase : s.phase = .returned) :
    (∃ m ∈ s.delivered, m.isExited = true) ∧ ∀ m ∈ s.queued, m ∈ s.delivered ∨ BeyondRing s m := by
  obtain ⟨hfinished, hpending⟩ := hinv.returned hphase
  have hcovered := hinv.covered
  rw [hphase] at hcovered
  obtain ⟨hcovered, hheld, hchannel⟩ := hcovered
  have hdone := hinv.finished hfinished
  have hexited : ∀ m ∈ s.queued, m.isExited = true → m ∈ s.delivered := by
    intro m hm he
    rcases hinv.exited m hm he with h | h | h | h
    · exact h
    · simp [hpending] at h
    · simp [hchannel] at h
    · simp [hdone, ExitWatch.held] at h
  obtain ⟨m, hm, he⟩ := hinv.reported hdone
  refine ⟨⟨m, hexited m hm he, he⟩, fun m hm => ?_⟩
  cases m with
  | exited code signal oomKilled => exact .inl (hexited _ hm rfl)
  | output line =>
    rcases hinv.ringed line hm with h | h
    · rcases hcovered line h with h | h | h | h
      · exact .inl h
      · simp [hheld] at h
      · simp [hchannel] at h
      · simp at h
    · exact .inr ⟨line, rfl, h⟩

theorem Inv.noneLost {s : Loop} (hinv : Inv s) : NoneLost s := by
  refine ⟨fun m hm => ?_, fun hphase => (hinv.delivered hphase).1⟩
  by_cases hphase : s.phase = .returned
  · exact ((hinv.delivered hphase).2 m hm).imp_right .inr
  cases m with
  | exited code signal oomKilled =>
    rcases hinv.exited _ hm rfl with h | h | h | h
    · exact .inl h
    · exact .inr (.inl ⟨hphase, .inr (.inl h)⟩)
    · exact .inr (.inl ⟨hphase, .inr (.inr (.inl h))⟩)
    · exact .inr (.inl ⟨hphase, .inr (.inr (.inr (.inr h)))⟩)
  | output line =>
    rcases hinv.ringed line hm with h | h
    · exact .inr (.inl ⟨hphase, .inl (List.mem_map_of_mem h)⟩)
    · exact .inr (.inr ⟨line, rfl, h⟩)

/-- In every run whose events spare `Exited`, each message is delivered, held, or an output line
that the ring has outrun, and the loop returns only after `Exited` and the whole ring went out. -/
theorem link_loop_loses_nothing {s : Loop} {es : List Event} (hok : loop.Meets SparesExited {} es)
    (hrun : loop.exec {} es = some s) : NoneLost s :=
  (loop.invariant inv_step inv_init hok hrun).noneLost

/-- A process that says one line, ends and is delivered at the second connection. -/
def deliveredRun : List Event :=
  [.read "Done" .stdout, .enqueue .stdout, .exits (some ⟨some 0, none, false⟩), .enqueueExit,
    .connect false, .drain, .drain, .drain, .check, .wake, .connect true, .greet true, .send true,
    .proceed, .send true, .send true, .proceed, .hangup, .check]

theorem link_loop_loses_nothing_delivered : loop.Ends {} deliveredRun NoneLost := by
  have hok : loop.Meets SparesExited {} deliveredRun := by decide
  exact ⟨_, rfl, link_loop_loses_nothing hok rfl⟩

/-- The process ends while the panel is away, and the connection that takes `Exited` out of the
pending queue fails on it: the loop returns without having delivered it. -/
def failedRun : List Event :=
  [.exits (some ⟨some 0, none, false⟩), .enqueueExit, .connect false, .drain, .drain, .check,
    .wake, .connect true, .greet true, .proceed, .send false, .check]

theorem failed_send_loses_exited :
    ¬ ∀ (es : List Event) (s : Loop), loop.exec {} es = some s → NoneLost s := by
  intro hall
  have hend : loop.Ends {} failedRun fun s => s.phase = .returned ∧ s.delivered = [] := by decide
  obtain ⟨s, hrun, hphase, hnone⟩ := hend
  obtain ⟨m, hm, -⟩ := (hall _ s hrun).returned hphase
  simp [hnone] at hm

end CraftPanel.Supervise
