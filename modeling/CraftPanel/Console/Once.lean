import CraftPanel.Console.Follow
import CraftPanel.Supervise.Order

/-!
# Lines shown once

The panel's end ignores the sequence numbers, so what keeps a line from being shown twice is only
that a follower never listens to a connection which brings it again. Where each follower begins
to listen ahead of new and ordered lines only, the console stays in the order of the numbers.
-/

namespace CraftPanel.Console

open Framework Supervise

def numbers (lines : List Line) : List Nat := lines.map (·.seq)

namespace System

variable (s : System)

def bundle : List Line := (s.attending.map (·.bundle)).getD []

/-- What the console has taken, with what the follower has bundled for it. -/
def shown : List Nat := numbers (s.console ++ s.bundle)

def ahead (connection : Nat) : List Nat :=
  if connection = s.current then seqs s.loop.coming else []

/-- What a follower has before it: in its receiver, on the wire, and ahead of that. -/
def due (a : Attend) : List Nat :=
  numbers a.queue ++ seqs (s.wire a.link) ++ s.ahead a.link

end System

/-- The lines of the process are in the console in the order of their numbers, each of them at
most once. -/
def ShownOnce (s : System) : Prop := (numbers s.console).Pairwise (· < ·)

/-- Where a follower subscribes, and where a replay begins under a follower that has, the lines
to come are new and in order; and the readers hand their lines over in order. -/
def BringsNewLines (s : System) : Event → Prop
  | .supervisor (.enqueue stream) => s.loop.handsInOrder stream
  | .supervisor (.greet true) => ∀ a ∈ s.attending, a.subscribed = true → a.link = s.current →
      (s.shown ++ s.due a ++ seqs (s.loop.ring.replay ++ s.loop.waiting)).Pairwise (· < ·)
  | .subscribes => ∀ a ∈ s.attending, (s.shown ++ s.due a).Pairwise (· < ·)
  | _ => True

instance (s : System) : ∀ e, Decidable (BringsNewLines s e)
  | .supervisor (.enqueue stream) => inferInstanceAs (Decidable (s.loop.handsInOrder stream))
  | .supervisor (.greet true) =>
    inferInstanceAs (Decidable (∀ a ∈ s.attending, _ → _ → List.Pairwise _ _))
  | .subscribes => inferInstanceAs (Decidable (∀ a ∈ s.attending, List.Pairwise _ _))
  | .supervisor (.greet false) | .supervisor (.read ..) | .supervisor (.exits _)
  | .supervisor .enqueueExit | .supervisor (.connect _) | .supervisor .drain
  | .supervisor (.send _) | .supervisor .proceed | .supervisor .hangup | .supervisor .check
  | .supervisor .wake | .accepts _ | .registers _ | .absorbs _ | .detaches .. | .follows
  | .receives | .flushes | .leaves | .forgets _ => isTrue trivial

structure Inv (s : System) : Prop where
  numbered : Numbered s.loop
  wires : ∀ k, ∀ n ∈ seqs (s.wire k), n < s.loop.ring.nextSeq
  shown : Rising s.shown s.loop.ring.nextSeq
  quiet : ∀ a ∈ s.attending, a.subscribed = false → a.queue = [] ∧ a.bundle = []
  listening : ∀ a ∈ s.attending, a.subscribed = true →
    Rising (s.shown ++ s.due a) s.loop.ring.nextSeq

section Steps

variable {s t : System}

theorem ahead_lt (h : Numbered s.loop) (k : Nat) : ∀ n ∈ s.ahead k, n < s.loop.ring.nextSeq := by
  intro n hn
  unfold System.ahead at hn
  split at hn
  · refine h.places n ?_
    unfold Loop.coming at hn
    unfold Phase.ahead at hn
    split at hn <;> simp_all [Phase.todo]
    tauto
  · simp at hn

theorem inv_loop {new : List Nat} {loop : Loop} {wire : Nat → List Message} {current : Nat}
    {stage : Nat → Stage} (hinv : Inv s) (hnumbered : Numbered loop)
    (hmoves : Moves s.loop loop new)
    (hwire : wire = Function.update s.wire s.current (s.wire s.current ++ sent s.loop loop))
    (hcurrent : current = s.current ∨ loop.coming = []) :
    Inv { s with loop, wire, current, stage } := by
  have hnext := hmoves.next_le
  have hsent : ∀ n ∈ seqs (sent s.loop loop), n < loop.ring.nextSeq := by
    intro n hn
    refine hnumbered.delivered n ?_
    rw [hmoves.delivered, seqs_append]
    exact List.mem_append_right _ hn
  refine ⟨hnumbered, fun k n hn => ?_, hinv.shown.sublist (.refl _) hnext, hinv.quiet,
    fun a ha hsubscribed => ?_⟩
  · simp only [hwire, Function.update_apply] at hn
    split at hn
    · rw [seqs_append, List.mem_append] at hn
      rcases hn with hn | hn
      · exact Nat.lt_of_lt_of_le (hinv.wires _ n hn) hnext
      · exact hsent n hn
    · exact Nat.lt_of_lt_of_le (hinv.wires k n hn) hnext
  have hlistening := hinv.listening a ha hsubscribed
  by_cases hlink : a.link = s.current
  · have hrising := hmoves.rising (l := s.shown ++ (numbers a.queue ++ seqs (s.wire s.current)))
      (by simpa [System.due, System.ahead, hlink] using hlistening)
    refine hrising.sublist ?_ (Nat.le_refl _)
    change (s.shown ++ System.due _ a).Sublist _
    simp only [System.due, System.ahead, hwire, hlink, Function.update_self, seqs_append,
      List.append_assoc]
    refine .append_left (.append_left (.append_left (.append_left ?_ _) _) _) _
    split
    · exact .refl _
    · exact List.nil_sublist _
  · refine hlistening.sublist ?_ hnext
    change (s.shown ++ System.due _ a).Sublist _
    simp only [System.due, System.ahead, hwire, Function.update_of_ne hlink, if_neg hlink]
    refine .append_left (.append_left ?_ _) _
    split
    · rename_i hcur
      rcases hcurrent with h | h
      · exact absurd (hcur.trans h) hlink
      · rw [h]
        exact List.nil_sublist _
    · exact .refl _

theorem inv_supervisor {e : Supervise.Event} (hinv : Inv s)
    (hok : BringsNewLines s (.supervisor e)) (h : s.supervisor e = some t) : Inv t := by
  have horder : ∀ stream, e = .enqueue stream → s.loop.handsInOrder stream := by
    rintro stream rfl
    exact hok
  simp only [System.supervisor] at h
  split at h
  · simp at h
  rename_i loop hloop
  have hnumbered := numbered_step hinv.numbered horder hloop
  by_cases hgreet : e = .greet true
  · subst hgreet
    obtain ⟨hphase, rfl⟩ := greet_step hloop
    simp only at h
    split at h
    · simp at h
    cases h
    refine ⟨hnumbered, hinv.wires, hinv.shown, hinv.quiet, fun a ha hsubscribed => ?_⟩
    by_cases hlink : a.link = s.current
    · have hnow := hinv.listening a ha hsubscribed
      have hnone : s.ahead a.link = [] := by simp [System.ahead, hlink, Loop.coming, hphase, Phase.ahead]
      have hnew := hok a ha hsubscribed hlink
      simp only [System.due, hnone, List.append_nil] at hnow hnew
      rw [rising_iff]
      refine ⟨?_, fun n hn => ?_⟩
      · simpa [System.shown, System.bundle, System.due, System.ahead, hlink, Loop.coming,
          Phase.ahead, Loop.waiting] using hnew
      simp only [System.due, ← List.append_assoc] at hn hnow
      rcases List.mem_append.mp hn with hn | hn
      · exact (rising_iff.mp hnow).2 n hn
      · exact ahead_lt hnumbered a.link n hn
    · refine (hinv.listening a ha hsubscribed).sublist ?_ (Nat.le_refl _)
      simp [System.shown, System.bundle, System.due, System.ahead, hlink]
  · obtain ⟨new, hmoves⟩ := moves_step hinv.numbered.serving horder hgreet hloop
    have hidle : e ≠ .send true → s.wire =
        Function.update s.wire s.current (s.wire s.current ++ sent s.loop loop) := by
      intro hsend
      rw [sent_eq_nil hloop hsend, List.append_nil, Function.update_eq_self]
    split at h
    · cases h
      exact inv_loop hinv hnumbered hmoves (hidle (by simp)) (.inr (connect_step hloop))
    · exact absurd rfl hgreet
    · cases h
      exact inv_loop hinv hnumbered hmoves rfl (.inl rfl)
    · rename_i hsend
      cases h
      exact inv_loop hinv hnumbered hmoves (hidle hsend) (.inl rfl)

theorem inv_panel (hinv : Inv s) (hloop : t.loop = s.loop)
    (hwires : ∀ k, (seqs (t.wire k)).Sublist (seqs (s.wire k)))
    (hshown : Rising t.shown s.loop.ring.nextSeq)
    (hquiet : ∀ a ∈ t.attending, a.subscribed = false → a.queue = [] ∧ a.bundle = [])
    (hdue : ∀ a ∈ t.attending, a.subscribed = true → Rising (t.shown ++ t.due a) s.loop.ring.nextSeq) :
    Inv t :=
  ⟨hloop ▸ hinv.numbered, fun k n hn => hloop ▸ hinv.wires k n ((hwires k).subset hn),
    hloop ▸ hshown, hquiet, fun a ha hsubscribed => hloop ▸ hdue a ha hsubscribed⟩

theorem inv_subscribes (hinv : Inv s) (hok : BringsNewLines s .subscribes)
    (h : s.step .subscribes = some t) : Inv t := by
  simp only [System.step] at h
  split at h
  · rename_i a hattending
    split at h
    · simp at h
    rename_i hnot
    cases h
    have hquiet := hinv.quiet a (by simp [hattending]) (by simpa using hnot)
    have hshown : (System.shown { s with attending := some { a with subscribed := true } }) =
        s.shown := by simp [System.shown, System.bundle, hattending]
    refine inv_panel hinv rfl (fun k => .refl _) (hshown ▸ hinv.shown) (by simp) ?_
    intro b hb _
    obtain rfl : { a with subscribed := true } = b := by simpa using hb
    have hnew := hok a (by simp [hattending])
    rw [hshown, rising_iff]
    refine ⟨hnew, fun n hn => ?_⟩
    rcases List.mem_append.mp hn with hn | hn
    · exact (rising_iff.mp hinv.shown).2 n hn
    simp only [System.due, hquiet.1, numbers, List.map_nil, List.nil_append] at hn
    rcases List.mem_append.mp hn with hn | hn
    · exact hinv.wires _ n hn
    · exact ahead_lt hinv.numbered a.link n hn
  · simp at h

@[simp] theorem hear_link (a : Attend) (k : Nat) (m : Message) : (a.hear k m).link = a.link := by
  cases m with
  | output line => simp only [Attend.hear]; split <;> rfl
  | exited code signal oomKilled => rfl

@[simp] theorem hear_bundle (a : Attend) (k : Nat) (m : Message) :
    (a.hear k m).bundle = a.bundle := by
  cases m with
  | output line => simp only [Attend.hear]; split <;> rfl
  | exited code signal oomKilled => rfl

@[simp] theorem hear_subscribed (a : Attend) (k : Nat) (m : Message) :
    (a.hear k m).subscribed = a.subscribed := by
  cases m with
  | output line => simp only [Attend.hear]; split <;> rfl
  | exited code signal oomKilled => rfl

theorem hear_eq_self {a : Attend} {k : Nat} {m : Message} (h : a.subscribed = false ∨ a.link ≠ k) :
    a.hear k m = a := by
  cases m with
  | output line =>
    simp only [Attend.hear]
    rcases h with h | h
    · simp [h]
    · simp [h]
  | exited code signal oomKilled => rfl

theorem hear_queue_sublist (a : Attend) (k : Nat) (m : Message) :
    (numbers (a.hear k m).queue).Sublist (numbers a.queue ++ seqs [m]) := by
  cases m with
  | output line =>
    simp only [Attend.hear]
    split
    · have hmap : numbers a.queue ++ seqs [.output line] = numbers (a.queue ++ [line]) := by
        simp [numbers]
      generalize a.queue.length + 1 - consoleBacklog = dropped
      rw [hmap]
      exact (List.drop_sublist dropped (a.queue ++ [line])).map _
    · exact List.sublist_append_left _ _
  | exited code signal oomKilled => exact List.sublist_append_left _ _

theorem inv_absorbs {k : Nat} (hinv : Inv s) (h : s.absorbs k = some t) : Inv t := by
  simp only [System.absorbs] at h
  split at h
  · rename_i message rest hstage hwire
    cases h
    have hwires : ∀ j, (seqs (Function.update s.wire k rest j)).Sublist (seqs (s.wire j)) := by
      intro j
      by_cases hj : j = k
      · rw [hj, Function.update_self, hwire, seqs_cons]
        exact List.sublist_append_right _ _
      · rw [Function.update_of_ne hj]
    have hshown : System.shown { s with
        wire := Function.update s.wire k rest
        attending := s.attending.map fun a => a.hear k message } = s.shown := by
      simp [System.shown, System.bundle, Function.comp_def]
    refine inv_panel hinv rfl hwires (hshown ▸ hinv.shown) ?_ ?_
    · intro b hb hsubscribed
      obtain ⟨a, ha, rfl⟩ := Option.mem_map.mp hb
      rw [hear_subscribed] at hsubscribed
      rw [hear_eq_self (.inl hsubscribed)]
      exact hinv.quiet a ha hsubscribed
    intro b hb hsubscribed
    obtain ⟨a, ha, rfl⟩ := Option.mem_map.mp hb
    rw [hear_subscribed] at hsubscribed
    refine (hinv.listening a ha hsubscribed).sublist ?_ (Nat.le_refl _)
    rw [hshown]
    refine .append_left ?_ _
    by_cases hlink : a.link = k
    · simp only [System.due, hear_link, hlink, Function.update_self, hwire]
      rw [seqs_cons, ← List.append_assoc]
      exact ((hear_queue_sublist a k message).append_right _).append_right _
    · rw [hear_eq_self (.inr hlink)]
      simp only [System.due, Function.update_of_ne hlink]
      exact .refl _
  · simp at h

theorem inv_bundle {a b : Attend} {console : List Line} (hinv : Inv s)
    (hattending : s.attending = some a) (hlink : b.link = a.link)
    (hsubscribed : b.subscribed = a.subscribed)
    (hqueue : a.subscribed = false → b.queue = [] ∧ b.bundle = [])
    (hshown : numbers (console ++ b.bundle ++ b.queue) = numbers (s.console ++ a.bundle ++ a.queue)) :
    Inv { s with attending := some b, console } := by
  have hall : s.shown ++ numbers a.queue =
      System.shown { s with attending := some b, console } ++ numbers b.queue := by
    simpa [System.shown, System.bundle, hattending, numbers] using hshown.symm
  have hdue : a.subscribed = true → Rising (System.shown { s with attending := some b, console } ++
      System.due { s with attending := some b, console } b) s.loop.ring.nextSeq := by
    intro hsub
    have hlistening := hinv.listening a (by simp [hattending]) hsub
    simp only [System.due, ← List.append_assoc] at hlistening ⊢
    rw [← hall, hlink]
    exact hlistening
  refine inv_panel hinv rfl (fun k => .refl _) ?_ ?_ ?_
  · cases hsub : a.subscribed with
    | true => exact (hdue hsub).sublist (List.sublist_append_left _ _) (Nat.le_refl _)
    | false =>
      have hquiet := hinv.quiet a (by simp [hattending]) hsub
      have hnow := hqueue hsub
      have heq : System.shown { s with attending := some b, console } = s.shown := by
        simpa [numbers, hquiet.1, hnow.1] using hall.symm
      exact heq ▸ hinv.shown
  · intro c hc hsub
    obtain rfl : b = c := by simpa using hc
    exact hqueue (hsubscribed ▸ hsub)
  · intro c hc hsub
    obtain rfl : b = c := by simpa using hc
    exact hdue (hsubscribed ▸ hsub)

theorem inv_receives (hinv : Inv s) (h : s.receives = some t) : Inv t := by
  simp only [System.receives] at h
  split at h
  · rename_i a hattending
    split at h
    · rename_i line queue hqueue
      have hloud : a.subscribed = false → False := fun hsub => by
        simp [(hinv.quiet a (by simp [hattending]) hsub).1] at hqueue
      split at h
      · cases h
        exact inv_bundle hinv hattending rfl rfl (fun hsub => (hloud hsub).elim)
          (by simp [hqueue])
      · cases h
        exact inv_bundle hinv hattending rfl rfl (fun hsub => (hloud hsub).elim)
          (by simp [hqueue])
    · simp at h
  · simp at h

theorem inv_flushes (hinv : Inv s) (h : s.flushes = some t) : Inv t := by
  obtain ⟨a, hattending, rfl⟩ := Option.map_eq_some_iff.mp h
  exact inv_bundle hinv hattending rfl rfl
    (fun hsub => ⟨(hinv.quiet a (by simp [hattending]) hsub).1, rfl⟩) (by simp)

theorem inv_leaves (hinv : Inv s) (h : s.leaves = some t) : Inv t := by
  simp only [System.leaves] at h
  split at h
  · rename_i a hattending
    split at h
    · cases h
      refine inv_panel hinv rfl (fun k => .refl _) ?_ (by simp) (by simp)
      simpa [System.shown, System.bundle, hattending] using hinv.shown
    · simp at h
  · simp at h

theorem inv_follows (hinv : Inv s) (h : s.step .follows = some t) : Inv t := by
  simp only [System.step] at h
  split at h
  · rename_i k hattending hlink
    cases h
    refine inv_panel hinv rfl (fun k => .refl _) ?_ (by simp) (by simp)
    simpa [System.shown, System.bundle, hattending] using hinv.shown
  · simp at h

theorem inv_forgets {lines : Nat} (hinv : Inv s) (h : s.step (.forgets lines) = some t) :
    Inv t := by
  cases h
  have hsub : (System.shown { s with console := s.console.drop lines }).Sublist s.shown :=
    ((List.drop_sublist _ _).append_right _).map _
  exact inv_panel hinv rfl (fun k => .refl _) (hinv.shown.sublist hsub (Nat.le_refl _)) hinv.quiet
    fun a ha hsubscribed =>
      (hinv.listening a ha hsubscribed).sublist (hsub.append_right _) (Nat.le_refl _)

theorem inv_step {e : Event} (hinv : Inv s) (hok : BringsNewLines s e) (h : s.step e = some t) :
    Inv t := by
  cases e with
  | supervisor event => exact inv_supervisor hinv hok h
  | absorbs k => exact inv_absorbs hinv h
  | follows => exact inv_follows hinv h
  | subscribes => exact inv_subscribes hinv hok h
  | receives => exact inv_receives hinv h
  | flushes => exact inv_flushes hinv h
  | leaves => exact inv_leaves hinv h
  | forgets lines => exact inv_forgets hinv h
  | accepts k | registers k =>
    simp only [System.step] at h
    split at h
    · cases h
      exact inv_panel hinv rfl (fun k => .refl _) hinv.shown hinv.quiet hinv.listening
    · simp at h
  | detaches k clean =>
    simp only [System.step, System.detaches] at h
    split at h
    · cases h
      exact inv_panel hinv rfl (fun k => .refl _) hinv.shown hinv.quiet hinv.listening
    · simp at h

end Steps

theorem inv_init : Inv {} := by
  refine ⟨⟨by simp, by simp [Loop.waiting, Phase.todo], by simp⟩, by simp, ?_, by simp, by simp⟩
  simp [System.shown, System.bundle, numbers, Rising]

/-- In every run in which followers begin to listen ahead of new and ordered lines only, over any
number of connections, the console has each line of the process at most once and in order. -/
theorem console_lines_once {s : System} {es : List Event}
    (hok : machine.Meets BringsNewLines {} es) (hrun : machine.exec {} es = some s) :
    ShownOnce s := by
  have hshown := (machine.invariant inv_step inv_init hok hrun).shown
  have hpairwise := (rising_iff.mp hshown).1
  rw [System.shown, numbers, List.map_append] at hpairwise
  exact (List.pairwise_append.mp hpairwise).1

/-- A first connection is made and followed before the process has said anything. -/
def followedRun : List Event :=
  [.supervisor (.connect true), .accepts 1, .registers 1, .follows, .subscribes,
    .supervisor (.greet true), .supervisor .proceed, .supervisor .proceed,
    .supervisor (.read "Done" .stdout), .supervisor (.enqueue .stdout), .supervisor (.send true),
    .absorbs 1, .receives, .flushes]

/-- The process keeps its one line in the ring while the connection is made again. -/
def replayedRun : List Event :=
  followedRun ++ [Event.supervisor .hangup, .detaches 1 true, .leaves, .supervisor .check,
    .supervisor .wake]

theorem console_lines_once_followed : machine.Ends {} replayedRun ShownOnce := by
  have hok : machine.Meets BringsNewLines {} replayedRun := by decide
  exact ⟨_, rfl, console_lines_once hok rfl⟩

/-- The follower of the second connection hears the replay of the line it has shown. -/
theorem replay_is_shown_again :
    ¬ ∀ (es : List Event) (s : System), machine.exec {} es = some s → ShownOnce s := by
  intro hall
  have hend : machine.Ends {} (replayedRun ++ [.supervisor (.connect true), .accepts 2,
      .registers 2, .follows, .subscribes, .supervisor (.greet true), .supervisor (.send true),
      .absorbs 2, .receives, .flushes]) fun s => numbers s.console = [1, 1] := by decide
  obtain ⟨s, hrun, hconsole⟩ := hend
  have honce := hall _ s hrun
  rw [ShownOnce, hconsole] at honce
  exact absurd honce (by decide)

end CraftPanel.Console
