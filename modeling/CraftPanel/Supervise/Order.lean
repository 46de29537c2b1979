import CraftPanel.Supervise.Link

/-!
# The order of what a connection brings

The numbers that the loop is still to send on its connection, in the order it will send them. A
step moves them on or drops them; only a replay puts numbers in front that were sent before.
-/

namespace CraftPanel.Supervise

open Framework

def seqs (messages : List Message) : List Nat := messages.filterMap (·.seq?)

@[simp] theorem seqs_nil : seqs [] = [] := rfl

@[simp] theorem seqs_append (l m : List Message) : seqs (l ++ m) = seqs l ++ seqs m :=
  List.filterMap_append

@[simp] theorem seqs_output (line : Line) (l : List Message) :
    seqs (.output line :: l) = line.seq :: seqs l := rfl

@[simp] theorem seqs_exited (status : ExitStatus) (l : List Message) :
    seqs (status.message :: l) = seqs l := rfl

@[simp] theorem seqs_map_output (lines : List Line) :
    seqs (lines.map .output) = lines.map (·.seq) := by
  induction lines with
  | nil => rfl
  | cons line lines ih => rw [List.map_cons, seqs_output, ih, List.map_cons]

theorem seqs_cons (m : Message) (l : List Message) : seqs (m :: l) = seqs [m] ++ seqs l := by
  rw [← seqs_append, List.singleton_append]

/-- Increasing numbers below the next one. -/
def Rising (l : List Nat) (next : Nat) : Prop := (l ++ [next]).Pairwise (· < ·)

theorem rising_iff {l : List Nat} {next : Nat} :
    Rising l next ↔ l.Pairwise (· < ·) ∧ ∀ n ∈ l, n < next := by
  simp [Rising, List.pairwise_append]

theorem Rising.sublist {l l' : List Nat} {next next' : Nat} (h : Rising l next)
    (hsub : l'.Sublist l) (hnext : next ≤ next') : Rising l' next' := by
  rw [rising_iff] at h ⊢
  exact ⟨h.1.sublist hsub, fun n hn => Nat.lt_of_lt_of_le (h.2 n (hsub.subset hn)) hnext⟩

theorem Rising.concat {l : List Nat} {next : Nat} (h : Rising l next) :
    Rising (l ++ [next]) (next + 1) := by
  refine rising_iff.mpr ⟨h, fun n hn => ?_⟩
  rcases List.mem_append.mp hn with hn | hn
  · exact Nat.lt_succ_of_lt ((rising_iff.mp h).2 n hn)
  · rw [List.mem_singleton.mp hn]
    exact Nat.lt_succ_self _

/-- What a connection in this phase is still to bring, in front of what waits. -/
def Phase.ahead : Phase → List Message → List Message
  | replay todo, waiting => todo ++ waiting
  | flush, waiting | serve, waiting => waiting
  | connect, _ | drain, _ | greet, _ | check, _ | sleep, _ | returned, _ => []

def Phase.todo : Phase → List Message
  | replay todo => todo
  | _ => []

theorem Phase.ahead_sublist {p : Phase} {l l' : List Message} {new : List Nat}
    (h : (seqs l').Sublist (seqs l ++ new)) :
    (seqs (p.ahead l')).Sublist (seqs (p.ahead l) ++ new) := by
  cases p with
  | replay todo =>
    simp only [ahead, seqs_append, List.append_assoc]
    exact h.append_left _
  | flush | serve => exact h
  | connect | drain | greet | check | sleep | returned => exact List.nil_sublist _

namespace Loop

variable (s : Loop)

/-- The messages behind the replay: the pending queue, the channel, the readers. -/
def waiting : List Message := s.pending ++ s.channel ++ s.held.map .output

def coming : List Message := s.phase.ahead s.waiting

/-- The readers hand their lines over in the order of their numbers. -/
def handsInOrder (stream : OutputStream) : Prop :=
  s.held.find? (·.stream = stream) = s.held.head?

instance (stream : OutputStream) : Decidable (s.handsInOrder stream) :=
  inferInstanceAs (Decidable (_ = _))

end Loop

theorem sent_eq {s t : Loop} {l : List Message} (h : t.delivered = s.delivered ++ l) :
    sent s t = l := by
  rw [sent, h, List.drop_left]

/-- All that one step does to the numbers: it takes the next one, and sends some of those that
were to come or gives them up. -/
structure Moves (s t : Loop) (new : List Nat) : Prop where
  numbers : new = [] ∧ t.ring.nextSeq = s.ring.nextSeq ∨
    new = [s.ring.nextSeq] ∧ t.ring.nextSeq = s.ring.nextSeq + 1
  delivered : t.delivered = s.delivered ++ sent s t
  coming : (seqs (sent s t ++ t.coming)).Sublist (seqs s.coming ++ new)
  places : ∀ n ∈ seqs (sent s t ++ t.waiting ++ t.phase.todo),
    n ∈ seqs (s.waiting ++ s.phase.todo) ∨ n ∈ new
  serving : t.phase = .serve → t.pending = []

section Steps

variable {s t : Loop} {e : Event}

theorem moves_of_waiting {new : List Nat}
    (hnew : new = [] ∧ t.ring.nextSeq = s.ring.nextSeq ∨
      new = [s.ring.nextSeq] ∧ t.ring.nextSeq = s.ring.nextSeq + 1)
    (hphase : t.phase = s.phase) (hpending : t.pending = s.pending)
    (hdelivered : t.delivered = s.delivered) (hwaiting : seqs t.waiting = seqs s.waiting ++ new)
    (hserving : s.phase = .serve → s.pending = []) : Moves s t new := by
  have hsent : sent s t = [] := sent_eq (by simp [hdelivered])
  refine ⟨hnew, by simp [hsent, hdelivered], ?_, fun n hn => ?_, by rwa [hphase, hpending]⟩
  · rw [hsent, List.nil_append, Loop.coming, Loop.coming, hphase]
    exact Phase.ahead_sublist (hwaiting ▸ .refl _)
  · simp only [hsent, List.nil_append, hphase, seqs_append, hwaiting, List.mem_append] at hn ⊢
    tauto

theorem moves_of_phase {p : Phase} (hahead : ∀ l, p.ahead l = []) (htodo : p.todo = [])
    (hserve : p ≠ .serve) {finished : Bool} : Moves s { s with phase := p, finished } [] := by
  have hsent : sent s { s with phase := p, finished } = [] := sent_eq (by simp)
  refine ⟨.inl ⟨rfl, rfl⟩, by simp [hsent], ?_, fun n hn => ?_, fun h => absurd h hserve⟩
  · rw [hsent, List.nil_append, Loop.coming, hahead]
    exact List.nil_sublist _
  · simp only [hsent, htodo, List.nil_append, List.append_nil] at hn
    exact .inl (by rw [seqs_append]; exact List.mem_append_left _ hn)

theorem moves_read {line : String} {stream : OutputStream}
    (hserving : s.phase = .serve → s.pending = []) (h : s.read line stream = some t) :
    Moves s t [s.ring.nextSeq] := by
  simp only [Loop.read] at h
  split at h
  · simp at h
  cases h
  exact moves_of_waiting (.inr ⟨rfl, rfl⟩) rfl rfl rfl (by simp [Loop.waiting]) hserving

theorem moves_enqueue {stream : OutputStream} (hserving : s.phase = .serve → s.pending = [])
    (hok : s.handsInOrder stream) (h : s.enqueue stream = some t) : Moves s t [] := by
  simp only [Loop.enqueue] at h
  split at h
  · rename_i line hline
    split at h
    · cases h
      refine moves_of_waiting (.inl ⟨rfl, rfl⟩) rfl rfl rfl ?_ hserving
      have hhead : s.held.head? = some line := by rw [← hok, hline]
      obtain ⟨rest, hheld⟩ := List.head?_eq_some_iff.mp hhead
      simp [Loop.waiting, hheld]
    · simp at h
  · simp at h

theorem moves_exits {status : Option ExitStatus} (hserving : s.phase = .serve → s.pending = [])
    (h : s.exits status = some t) : Moves s t [] := by
  simp only [Loop.exits] at h
  split at h
  · cases h
    exact moves_of_waiting (.inl ⟨rfl, rfl⟩) rfl rfl rfl (by simp [Loop.waiting]) hserving
  · cases h
    exact moves_of_waiting (.inl ⟨rfl, rfl⟩) rfl rfl rfl (by simp [Loop.waiting]) hserving
  · simp at h

theorem moves_enqueueExit (hserving : s.phase = .serve → s.pending = [])
    (h : s.enqueueExit = some t) : Moves s t [] := by
  simp only [Loop.enqueueExit] at h
  split at h
  · split at h
    · cases h
      exact moves_of_waiting (.inl ⟨rfl, rfl⟩) rfl rfl rfl (by simp [Loop.waiting]) hserving
    · simp at h
  · simp at h

theorem moves_drain (h : s.drain = some t) : Moves s t [] := by
  simp only [Loop.drain] at h
  split at h
  · cases h
    exact moves_of_phase (fun _ => rfl) rfl (by simp)
  · rename_i message channel hphase hchannel
    cases h
    refine ⟨.inl ⟨rfl, rfl⟩, by simp [sent], by simp [sent, Loop.coming, hphase, Phase.ahead],
      fun n hn => .inl ?_, by simp [hphase]⟩
    simp only [sent, List.drop_length, List.nil_append, Loop.waiting, hphase, hchannel,
      seqs_append, List.mem_append] at hn ⊢
    rw [seqs_cons]
    split at hn
    · have htail : ∀ n ∈ seqs s.pending.tail, n ∈ seqs s.pending := fun n hn =>
        (List.Sublist.filterMap _ (List.tail_sublist _)).subset hn
      simp only [List.mem_append]
      tauto
    · simp only [List.mem_append]
      tauto
  · simp at h

theorem moves_send {ok : Bool} (hserving : s.phase = .serve → s.pending = [])
    (h : s.send ok = some t) : Moves s t [] := by
  simp only [Loop.send] at h
  split at h
  · rename_i message todo hphase
    split at h
    · cases h
      refine ⟨.inl ⟨rfl, rfl⟩, by simp [sent], ?_, fun n hn => .inl ?_, by simp⟩
      · simp [sent, Loop.coming, hphase, Phase.ahead, Loop.waiting]
      simp only [sent, List.drop_left, Phase.todo, hphase] at hn ⊢
      rw [seqs_append, seqs_cons message todo]
      simp only [seqs_append, List.mem_append] at hn ⊢
      tauto
    · cases h
      exact moves_of_phase (fun _ => rfl) rfl (by simp)
  · rename_i hphase
    split at h
    · rename_i message pending hpending
      split at h
      · cases h
        refine ⟨.inl ⟨rfl, rfl⟩, by simp [sent], ?_, fun n hn => .inl ?_, by simp [hphase]⟩
        · simp [sent, Loop.coming, hphase, Phase.ahead, Loop.waiting, hpending]
        · simpa [sent, Loop.waiting, hpending, hphase, Phase.todo] using hn
      cases h
      refine ⟨.inl ⟨rfl, rfl⟩, by simp [sent], by simp [sent, Loop.coming, Phase.ahead],
        fun n hn => .inl ?_, by simp⟩
      simp only [sent, Loop.waiting, hpending, Phase.todo, List.drop_length, List.nil_append,
        List.append_nil, seqs_append, List.cons_append] at hn ⊢
      rw [seqs_cons]
      simp only [seqs_append, List.mem_append] at hn ⊢
      tauto
    · simp at h
  · rename_i hphase
    have hnone := hserving hphase
    split at h
    · rename_i message channel hchannel
      split at h
      · cases h
        refine ⟨.inl ⟨rfl, rfl⟩, by simp [sent], ?_, fun n hn => .inl ?_, fun _ => hnone⟩
        · simp [sent, Loop.coming, hphase, Phase.ahead, Loop.waiting, hnone, hchannel]
        · simpa [sent, Loop.waiting, hnone, hchannel, hphase, Phase.todo] using hn
      · cases h
        refine ⟨.inl ⟨rfl, rfl⟩, by simp [sent], by simp [sent, Loop.coming, Phase.ahead],
          fun n hn => .inl ?_, by simp⟩
        simpa [sent, Loop.waiting, hnone, hchannel, hphase, Phase.todo] using hn
    · simp at h
  · simp at h

theorem moves_proceed (h : s.proceed = some t) : Moves s t [] := by
  simp only [Loop.proceed] at h
  split at h
  · rename_i hphase
    cases h
    exact ⟨.inl ⟨rfl, rfl⟩, by simp [sent], by simp [sent, Loop.coming, hphase, Phase.ahead, Loop.waiting],
      fun n hn => .inl (by simpa [sent, hphase, Phase.todo, Loop.waiting] using hn), by simp⟩
  · rename_i hphase
    split at h
    · rename_i hpending
      cases h
      exact ⟨.inl ⟨rfl, rfl⟩, by simp [sent], by simp [sent, Loop.coming, hphase, Phase.ahead, Loop.waiting],
        fun n hn => .inl (by simpa [sent, hphase, Phase.todo, Loop.waiting] using hn), fun _ => hpending⟩
    · simp at h
  · simp at h

theorem moves_check (h : s.check = some t) : Moves s t [] := by
  simp only [Loop.check] at h
  split at h
  · split at h
    · cases h
      exact moves_of_phase (fun _ => rfl) rfl (by simp)
    · cases h
      exact moves_of_phase (fun _ => rfl) rfl (by simp)
  · simp at h

theorem moves_step (hserving : s.phase = .serve → s.pending = [])
    (hok : ∀ stream, e = .enqueue stream → s.handsInOrder stream) (hgreet : e ≠ .greet true)
    (h : s.step e = some t) : ∃ new, Moves s t new := by
  unfold Loop.step at h
  split at h
  · simp at h
  cases e with
  | read line stream => exact ⟨_, moves_read hserving h⟩
  | enqueue stream => exact ⟨_, moves_enqueue hserving (hok stream rfl) h⟩
  | exits status => exact ⟨_, moves_exits hserving h⟩
  | enqueueExit => exact ⟨_, moves_enqueueExit hserving h⟩
  | drain => exact ⟨_, moves_drain h⟩
  | send ok => exact ⟨_, moves_send hserving h⟩
  | proceed => exact ⟨_, moves_proceed h⟩
  | check => exact ⟨_, moves_check h⟩
  | connect ok =>
    simp only at h
    split at h
    · cases h
      cases ok
      · exact ⟨[], moves_of_phase (fun _ => rfl) rfl (by simp)⟩
      · exact ⟨[], moves_of_phase (fun _ => rfl) rfl (by simp)⟩
    · simp at h
  | greet accepted =>
    cases accepted with
    | true => exact absurd rfl hgreet
    | false =>
      simp only at h
      split at h
      · cases h
        exact ⟨[], moves_of_phase (fun _ => rfl) rfl (by simp)⟩
      · simp at h
  | hangup | wake =>
    simp only at h
    split at h
    · cases h
      exact ⟨[], moves_of_phase (fun _ => rfl) rfl (by simp)⟩
    · simp at h

theorem sent_eq_nil (h : s.step e = some t) (hsend : e ≠ .send true) : sent s t = [] := by
  suffices hdelivered : t.delivered = s.delivered by
    rw [sent, hdelivered, List.drop_length]
  unfold Loop.step at h
  split at h
  · simp at h
  cases e with
  | send ok =>
    cases ok with
    | true => exact absurd rfl hsend
    | false =>
      simp only [Loop.send] at h
      grind
  | read line stream =>
    simp only [Loop.read] at h
    grind
  | enqueue stream =>
    simp only [Loop.enqueue] at h
    grind
  | exits status =>
    simp only [Loop.exits] at h
    grind
  | enqueueExit =>
    simp only [Loop.enqueueExit] at h
    grind
  | drain =>
    simp only [Loop.drain] at h
    grind
  | proceed =>
    simp only [Loop.proceed] at h
    grind
  | check =>
    simp only [Loop.check] at h
    grind
  | connect ok | greet accepted | hangup | wake => grind

theorem connect_step (h : s.step (.connect true) = some t) : t.coming = [] := by
  unfold Loop.step at h
  split at h
  · simp at h
  simp only at h
  split at h
  · cases h
    rfl
  · simp at h

theorem greet_step (h : s.step (.greet true) = some t) :
    s.phase = .greet ∧ t = { s with phase := .replay s.ring.replay } := by
  unfold Loop.step at h
  split at h
  · simp at h
  simp only at h
  split at h
  · rename_i hphase
    exact ⟨hphase, ((Option.some.injEq _ _).mp h).symm⟩
  · simp at h

end Steps

/-- Every number the loop has in its hands or has sent is below the next one, and nothing is
pending while it serves. -/
structure Numbered (s : Loop) : Prop where
  delivered : ∀ n ∈ seqs s.delivered, n < s.ring.nextSeq
  places : ∀ n ∈ seqs (s.waiting ++ s.phase.todo), n < s.ring.nextSeq
  serving : s.phase = .serve → s.pending = []

theorem Ring.lt_of_mem_replay {capacity : Nat} (r : Ring capacity) {n : Nat}
    (h : n ∈ seqs r.replay) : n < r.nextSeq := by
  rw [Ring.replay, seqs_map_output] at h
  exact ((r.seq_mem_iff n).mp h).2.1

theorem Moves.next_le {s t : Loop} {new : List Nat} (h : Moves s t new) :
    s.ring.nextSeq ≤ t.ring.nextSeq := by
  rcases h.numbers with ⟨-, hnext⟩ | ⟨-, hnext⟩ <;> omega

theorem Moves.lt_of_mem_new {s t : Loop} {new : List Nat} (h : Moves s t new) {n : Nat}
    (hn : n ∈ new) : n < t.ring.nextSeq := by
  rcases h.numbers with ⟨rfl, -⟩ | ⟨rfl, hnext⟩
  · simp at hn
  · rw [List.mem_singleton.mp hn]
    omega

theorem numbered_step {s t : Loop} {e : Event} (hs : Numbered s)
    (hok : ∀ stream, e = .enqueue stream → s.handsInOrder stream) (h : s.step e = some t) :
    Numbered t := by
  by_cases hgreet : e = .greet true
  · subst hgreet
    obtain ⟨-, rfl⟩ := greet_step h
    refine ⟨hs.delivered, fun n hn => ?_, by simp⟩
    rw [seqs_append, List.mem_append] at hn
    rcases hn with hn | hn
    · exact hs.places n (by rw [seqs_append]; exact List.mem_append_left _ hn)
    · exact s.ring.lt_of_mem_replay hn
  obtain ⟨new, hmoves⟩ := moves_step hs.serving hok hgreet h
  have hplaces : ∀ n ∈ seqs (sent s t ++ t.waiting ++ t.phase.todo), n < t.ring.nextSeq := by
    intro n hn
    rcases hmoves.places n hn with hn | hn
    · exact Nat.lt_of_lt_of_le (hs.places n hn) hmoves.next_le
    · exact hmoves.lt_of_mem_new hn
  refine ⟨fun n hn => ?_, fun n hn => hplaces n ?_, hmoves.serving⟩
  · rw [hmoves.delivered, seqs_append, List.mem_append] at hn
    rcases hn with hn | hn
    · exact Nat.lt_of_lt_of_le (hs.delivered n hn) hmoves.next_le
    · exact hplaces n (by simp [hn])
  · rw [List.append_assoc, seqs_append]
    exact List.mem_append_right _ hn

theorem Moves.rising {s t : Loop} {new l : List Nat} (h : Moves s t new)
    (hrising : Rising (l ++ seqs s.coming) s.ring.nextSeq) :
    Rising (l ++ seqs (sent s t ++ t.coming)) t.ring.nextSeq := by
  have hsub := h.coming.append_left l
  rw [← List.append_assoc] at hsub
  rcases h.numbers with ⟨rfl, hnext⟩ | ⟨rfl, hnext⟩
  · rw [hnext]
    exact hrising.sublist (by simpa using hsub) (Nat.le_refl _)
  · rw [hnext]
    exact hrising.concat.sublist hsub (Nat.le_refl _)

end CraftPanel.Supervise
