import Mathlib.Data.List.TakeWhile
import CraftPanel.Supervise.Link

/-!
# Reading the output

`spawn_reader` of `supervise/mod.rs` for both streams of a process: the bytes that the process has
written, the lines that `Lines::next_line` makes of them, the ring they are pushed to and the channel
they are queued in for the panel.
-/

namespace CraftPanel.Supervise.Reading

open Framework

abbrev Bytes := List UInt8

def newline : UInt8 := 10

def carriageReturn : UInt8 := 13

def shorn (line : Bytes) : Bytes :=
  if line.getLast? = some carriageReturn then line.dropLast else line

/-- `String::from_utf8`. -/
def decode (line : Bytes) : Option String := String.fromUTF8? ⟨line.toArray⟩

/-- What comes next of the bytes that have arrived. -/
inductive Next
  | waits
  | ends
  | line (raw rest : Bytes)

/-- `next_line`, before the line is text; at the end of the stream a rest is a line too. -/
def nextLine (unread : Bytes) (closed : Bool) : Next :=
  match unread.dropWhile (· ≠ newline) with
  | _ :: rest => .line (shorn (unread.takeWhile (· ≠ newline))) rest
  | [] =>
    if !closed then .waits
    else if unread = [] then .ends
    else .line unread []

/-- `written` is history: all that the process has ever written. -/
structure Pipe where
  written : Bytes := []
  unread : Bytes := []
  closed : Bool := false
  stopped : Bool := false

/-- `pushed` and `queued` are history: what was pushed to the ring, and sent into the channel. -/
structure System where
  pipes : OutputStream → Pipe := fun _ => {}
  ring : Ring ringCapacity := .new ringCapacity
  held : OutputStream → Option Line := fun _ => none
  channel : List Line := []
  pushed : List Line := []
  queued : List Line := []

inductive Event
  | writes (stream : OutputStream) (bytes : Bytes)
  | closes (stream : OutputStream)
  | reads (stream : OutputStream)
  | sends (stream : OutputStream)
  | receives

namespace System

variable (s : System)

def setPipe (stream : OutputStream) (pipe : Pipe) : System :=
  { s with pipes := Function.update s.pipes stream pipe }

/-- The lock of the ring is held for the push alone; the reader then has the line in hand. -/
def push (stream : OutputStream) (text : String) : System :=
  let (ring, seq) := s.ring.push ringCapacity_pos text stream
  let line : Line := ⟨seq, text, stream⟩
  { s with
    ring
    held := Function.update s.held stream (some line)
    pushed := s.pushed ++ [line] }

/-- One turn of `while let Ok(Some(line)) = lines.next_line().await`. -/
def read (stream : OutputStream) : Option System :=
  let pipe := s.pipes stream
  if pipe.stopped || (s.held stream).isSome then none
  else match nextLine pipe.unread pipe.closed with
    | .waits => none
    | .ends => some (s.setPipe stream { pipe with stopped := true })
    | .line raw rest => match decode raw with
      | some text => some ((s.setPipe stream { pipe with unread := rest }).push stream text)
      | none => some (s.setPipe stream { pipe with unread := rest, stopped := true })

def step : Event → Option System
  | .writes stream bytes =>
    let pipe := s.pipes stream
    if pipe.closed then none
    else some (s.setPipe stream { pipe with
      written := pipe.written ++ bytes, unread := pipe.unread ++ bytes })
  | .closes stream =>
    let pipe := s.pipes stream
    if pipe.closed then none else some (s.setPipe stream { pipe with closed := true })
  | .reads stream => s.read stream
  | .sends stream => match s.held stream with
    | some line =>
      if s.channel.length < channelDepth then
        some { s with
          held := Function.update s.held stream none
          channel := s.channel ++ [line]
          queued := s.queued ++ [line] }
      else none
    | none => none
  | .receives => match s.channel with
    | [] => none
    | _ :: channel => some { s with channel }

def pushedOf (stream : OutputStream) : List Line := s.pushed.filter (·.stream = stream)

def queuedOf (stream : OutputStream) : List Line := s.queued.filter (·.stream = stream)

end System

def machine : Machine System Event := ⟨System.step⟩

def linesFrom : Bytes → Bytes → List Bytes
  | [], [] => []
  | front, [] => [front]
  | front, byte :: rest =>
    if byte = newline then shorn front :: linesFrom [] rest else linesFrom (front ++ [byte]) rest

/-- The lines of all the bytes of a stream, the last of which may lack its newline. -/
def linesOf (bytes : Bytes) : List Bytes := linesFrom [] bytes

/-- The front of a stream ends with a line. -/
def Cut (front : Bytes) (raws : List Bytes) : Prop :=
  ∀ more, linesOf (front ++ more) = raws ++ linesOf more

section Lines

variable {front more rest raw unread : Bytes} {raws : List Bytes} {closed : Bool}

@[simp] theorem linesOf_nil : linesOf [] = [] := rfl

theorem linesFrom_newline (h : newline ∉ more) :
    linesFrom front (more ++ newline :: rest) = shorn (front ++ more) :: linesOf rest := by
  induction more generalizing front with
  | nil =>
    cases front <;> simp [linesFrom, linesOf]
  | cons byte more ih =>
    simp only [List.mem_cons, not_or] at h
    have hne : byte ≠ newline := fun heq => h.1 heq.symm
    cases front <;> simp [linesFrom, hne, ih h.2]

theorem linesFrom_rest (h : newline ∉ more) (hne : front ++ more ≠ []) :
    linesFrom front more = [front ++ more] := by
  induction more generalizing front with
  | nil =>
    cases front with
    | nil => exact absurd rfl hne
    | cons byte front => simp [linesFrom]
  | cons byte more ih =>
    simp only [List.mem_cons, not_or] at h
    have hbyte : byte ≠ newline := fun heq => h.1 heq.symm
    have hrest : linesFrom (front ++ [byte]) more = [front ++ [byte] ++ more] := ih h.2 (by simp)
    cases front <;> simpa [linesFrom, hbyte] using hrest

theorem notMem_takeWhile : newline ∉ unread.takeWhile (· ≠ newline) := by
  intro hmem
  simpa using List.mem_takeWhile_imp hmem

theorem nextLine_line (h : nextLine unread closed = .line raw rest) :
    (∃ front, unread = front ++ newline :: rest ∧ newline ∉ front ∧ raw = shorn front) ∨
      closed = true ∧ rest = [] ∧ raw = unread ∧ newline ∉ unread ∧ unread ≠ [] := by
  have hsplit := List.takeWhile_append_dropWhile (p := (· ≠ newline)) (l := unread)
  unfold nextLine at h
  split at h
  · next byte after hdrop =>
    cases h
    have hbyte : byte = newline := by
      have hhead := List.head?_dropWhile_not (· ≠ newline) unread
      rw [hdrop] at hhead
      simpa using hhead
    rw [hdrop, hbyte] at hsplit
    exact .inl ⟨_, hsplit.symm, notMem_takeWhile, rfl⟩
  next hdrop =>
  rw [hdrop, List.append_nil] at hsplit
  split at h
  · cases h
  next hclosed =>
  split at h
  · cases h
  next hne =>
  cases h
  refine .inr ⟨by simpa using hclosed, rfl, rfl, ?_, hne⟩
  rw [← hsplit]
  exact notMem_takeWhile

theorem nextLine_ends (h : nextLine unread closed = .ends) : closed = true ∧ unread = [] := by
  unfold nextLine at h
  split at h
  · cases h
  split at h
  · cases h
  next hclosed =>
  split at h
  · next hempty => exact ⟨by simpa using hclosed, hempty⟩
  · cases h

theorem nextLine_waits (h : nextLine unread closed = .waits) :
    closed = false ∧ newline ∉ unread := by
  have hsplit := List.takeWhile_append_dropWhile (p := (· ≠ newline)) (l := unread)
  unfold nextLine at h
  split at h
  · cases h
  next hdrop =>
  rw [hdrop, List.append_nil] at hsplit
  split at h
  · next hclosed =>
    refine ⟨by simpa using hclosed, ?_⟩
    rw [← hsplit]
    exact notMem_takeWhile
  · split at h <;> cases h

theorem Cut.line (h : Cut front raws) (hline : newline ∉ more) :
    Cut (front ++ (more ++ [newline])) (raws ++ [shorn more]) := by
  intro rest
  have hnext : linesOf (more ++ newline :: rest) = shorn ([] ++ more) :: linesOf rest :=
    linesFrom_newline hline
  have hall := h (more ++ newline :: rest)
  simpa [hnext] using hall

theorem Cut.ending (h : Cut front raws) (hline : newline ∉ more) (hne : more ≠ []) :
    linesOf (front ++ more) = raws ++ [more] := by
  have hlast : linesOf more = [[] ++ more] := linesFrom_rest hline (by simpa using hne)
  simpa [hlast] using h more

end Lines

/-- What has been taken off a pipe, as lines. -/
def Taken (pipe : Pipe) (raws : List Bytes) : Prop :=
  ∃ front, pipe.written = front ++ pipe.unread ∧
    (Cut front raws ∨ pipe.closed = true ∧ pipe.unread = [] ∧ linesOf front = raws)

/-- A reader that has stopped is at the end of the stream, or at a line that is no text. -/
def Followed (pipe : Pipe) (texts : List String) : Prop :=
  ∃ raws, Taken pipe raws ∧
    if pipe.stopped then
      (pipe.closed = true ∧ pipe.unread = [] ∧ raws.map decode = texts.map some) ∨
        ∃ good bad, raws = good ++ [bad] ∧ decode bad = none ∧ good.map decode = texts.map some
    else raws.map decode = texts.map some

section Pipes

variable {pipe : Pipe} {raws : List Bytes} {raw rest : Bytes} {texts : List String} {text : String}

theorem Taken.linesOf_eq (h : Taken pipe raws) :
    linesOf pipe.written = raws ++ linesOf pipe.unread := by
  obtain ⟨front, hwritten, hcut | ⟨-, hempty, hlines⟩⟩ := h
  · rw [hwritten]
    exact hcut _
  · rw [hwritten, hempty, List.append_nil, hlines]
    simp

theorem Taken.writes (h : Taken pipe raws) (hopen : pipe.closed = false) (bytes : Bytes) :
    Taken { pipe with written := pipe.written ++ bytes, unread := pipe.unread ++ bytes } raws := by
  obtain ⟨front, hwritten, hcut | ⟨hclosed, -⟩⟩ := h
  · exact ⟨front, by simp [hwritten], .inl hcut⟩
  · rw [hopen] at hclosed
    cases hclosed

theorem Taken.closes (h : Taken pipe raws) : Taken { pipe with closed := true } raws := by
  obtain ⟨front, hwritten, hcut | ⟨-, hempty, hlines⟩⟩ := h
  · exact ⟨front, hwritten, .inl hcut⟩
  · exact ⟨front, hwritten, .inr ⟨rfl, hempty, hlines⟩⟩

theorem Taken.line (h : Taken pipe raws) (hline : nextLine pipe.unread pipe.closed = .line raw rest)
    (stopped : Bool) : Taken { pipe with unread := rest, stopped } (raws ++ [raw]) := by
  rcases nextLine_line hline with ⟨more, hunread, hmore, rfl⟩ | ⟨hclosed, rfl, rfl, hmore, hne⟩
  · obtain ⟨front, hwritten, hcut | ⟨-, hempty, -⟩⟩ := h
    · refine ⟨front ++ (more ++ [newline]), ?_, .inl (hcut.line hmore)⟩
      simp [hwritten, hunread]
    · simp [hempty] at hunread
  · obtain ⟨front, hwritten, hcut | ⟨-, hempty, -⟩⟩ := h
    · refine ⟨front ++ pipe.unread, by simpa using hwritten, .inr ⟨hclosed, rfl, ?_⟩⟩
      exact hcut.ending hmore hne
    · exact absurd hempty hne

theorem Followed.writes (h : Followed pipe texts) (hopen : pipe.closed = false) (bytes : Bytes) :
    Followed { pipe with written := pipe.written ++ bytes, unread := pipe.unread ++ bytes }
      texts := by
  obtain ⟨raws, htaken, hread⟩ := h
  refine ⟨raws, htaken.writes hopen bytes, ?_⟩
  split at hread
  · next hstopped =>
    rw [if_pos hstopped]
    rcases hread with ⟨hclosed, -⟩ | hbad
    · rw [hopen] at hclosed
      cases hclosed
    · exact .inr hbad
  · next hstopped =>
    rw [if_neg hstopped]
    exact hread

theorem Followed.closes (h : Followed pipe texts) :
    Followed { pipe with closed := true } texts := by
  obtain ⟨raws, htaken, hread⟩ := h
  refine ⟨raws, htaken.closes, ?_⟩
  split at hread
  · next hstopped =>
    rw [if_pos hstopped]
    exact hread.imp_left fun hend => ⟨rfl, hend.2⟩
  · next hstopped =>
    rw [if_neg hstopped]
    exact hread

theorem Followed.line (h : Followed pipe texts) (hrunning : pipe.stopped = false)
    (hline : nextLine pipe.unread pipe.closed = .line raw rest) (htext : decode raw = some text) :
    Followed { pipe with unread := rest } (texts ++ [text]) := by
  obtain ⟨raws, htaken, hread⟩ := h
  rw [hrunning, if_neg Bool.false_ne_true] at hread
  refine ⟨raws ++ [raw], htaken.line hline pipe.stopped, ?_⟩
  rw [hrunning, if_neg Bool.false_ne_true]
  simp [hread, htext]

theorem Followed.breaks (h : Followed pipe texts) (hrunning : pipe.stopped = false)
    (hline : nextLine pipe.unread pipe.closed = .line raw rest) (hbad : decode raw = none) :
    Followed { pipe with unread := rest, stopped := true } texts := by
  obtain ⟨raws, htaken, hread⟩ := h
  rw [hrunning, if_neg Bool.false_ne_true] at hread
  exact ⟨raws ++ [raw], htaken.line hline true, .inr ⟨raws, raw, rfl, hbad, hread⟩⟩

theorem Followed.ends (h : Followed pipe texts) (hrunning : pipe.stopped = false)
    (hends : nextLine pipe.unread pipe.closed = .ends) :
    Followed { pipe with stopped := true } texts := by
  obtain ⟨raws, htaken, hread⟩ := h
  rw [hrunning, if_neg Bool.false_ne_true] at hread
  obtain ⟨hclosed, hempty⟩ := nextLine_ends hends
  exact ⟨raws, htaken, .inl ⟨hclosed, hempty, hread⟩⟩

theorem Followed.isPrefix (h : Followed pipe texts) :
    texts.map some <+: (linesOf pipe.written).map decode := by
  obtain ⟨raws, htaken, hread⟩ := h
  rw [htaken.linesOf_eq, List.map_append]
  split at hread
  · rcases hread with ⟨-, -, hall⟩ | ⟨good, bad, rfl, -, hgood⟩
    · rw [hall]
      exact List.prefix_append _ _
    · rw [List.map_append, hgood, List.append_assoc]
      exact List.prefix_append _ _
  · rw [hread]
    exact List.prefix_append _ _

theorem Followed.all_iff (h : Followed pipe texts) (hstopped : pipe.stopped = true) :
    (pipe.closed = true ∧ texts.map some = (linesOf pipe.written).map decode) ↔
      ∀ raw ∈ linesOf pipe.written, (decode raw).isSome = true := by
  obtain ⟨raws, htaken, hread⟩ := h
  rw [hstopped, if_pos rfl] at hread
  rw [htaken.linesOf_eq]
  constructor
  · rintro ⟨-, hall⟩ raw hraw
    have hmem : decode raw ∈ texts.map some := by
      rw [hall]
      exact List.mem_map_of_mem hraw
    obtain ⟨text, -, htext⟩ := List.mem_map.mp hmem
    rw [← htext]
    rfl
  · intro hvalid
    rcases hread with ⟨hclosed, hempty, hall⟩ | ⟨good, bad, rfl, hbad, -⟩
    · exact ⟨hclosed, by simp [hempty, hall]⟩
    · have hsome := hvalid bad (by simp)
      rw [hbad] at hsome
      cases hsome

end Pipes

structure Inv (s : System) : Prop where
  followed : ∀ stream, Followed (s.pipes stream) ((s.pushedOf stream).map (·.line))
  handed : ∀ stream, s.pushedOf stream = s.queuedOf stream ++ (s.held stream).toList
  own : ∀ stream, ∀ line ∈ s.held stream, line.stream = stream
  rest : ∀ stream, (s.pipes stream).stopped = true → s.held stream = none
  next : s.ring.nextSeq = s.pushed.length + 1
  numbers : s.pushed.map (·.seq) = List.range' 1 s.pushed.length
  ring : s.ring.lines <:+ s.pushed

section Turns

variable {s t : System} {stream : OutputStream} {e : Event} {pipe : Pipe} {text : String}

theorem inv_start : Inv {} where
  followed _ := ⟨[], ⟨[], rfl, .inl fun _ => rfl⟩, rfl⟩
  handed _ := rfl
  own := by simp
  rest := by simp
  next := rfl
  numbers := rfl
  ring := List.suffix_rfl

theorem Inv.setPipe (h : Inv s) (hpipe : Followed pipe ((s.pushedOf stream).map (·.line)))
    (hrest : pipe.stopped = true → s.held stream = none) : Inv (s.setPipe stream pipe) where
  followed other := by
    by_cases hother : other = stream
    · subst hother
      simpa [System.setPipe, System.pushedOf] using hpipe
    · simpa [System.setPipe, System.pushedOf, Function.update_of_ne hother] using h.followed other
  handed := h.handed
  own := h.own
  rest other := by
    by_cases hother : other = stream
    · subst hother
      simpa [System.setPipe] using hrest
    · simpa [System.setPipe, Function.update_of_ne hother] using h.rest other
  next := h.next
  numbers := h.numbers
  ring := h.ring

theorem pushedOf_push (stream' : OutputStream) : (s.push stream text).pushedOf stream' =
    s.pushedOf stream' ++ if stream = stream' then [⟨s.ring.nextSeq, text, stream⟩] else [] := by
  simp only [System.pushedOf, System.push, List.filter_append, Ring.push_seq]
  by_cases hsame : stream = stream' <;> simp [hsame]

theorem Inv.push (h : Inv s) (hidle : s.held stream = none) (hrunning : pipe.stopped = false)
    (hpipe : Followed pipe ((s.pushedOf stream).map (·.line) ++ [text])) :
    Inv ((s.setPipe stream pipe).push stream text) where
  followed other := by
    rw [pushedOf_push]
    by_cases hother : other = stream
    · subst hother
      simpa [System.push, System.setPipe, System.pushedOf] using hpipe
    · simpa [System.push, System.setPipe, System.pushedOf, Function.update_of_ne hother,
        Ne.symm hother] using h.followed other
  handed other := by
    rw [pushedOf_push]
    have hbefore := h.handed other
    by_cases hother : other = stream
    · subst hother
      simp only [hidle, Option.toList_none, List.append_nil] at hbefore
      simpa [System.push, System.setPipe, System.pushedOf, System.queuedOf] using hbefore
    · simpa [System.push, System.setPipe, System.pushedOf, System.queuedOf,
        Function.update_of_ne hother, Ne.symm hother] using hbefore
  own other := by
    by_cases hother : other = stream
    · subst hother
      simp [System.push, System.setPipe]
    · simpa [System.push, System.setPipe, Function.update_of_ne hother] using h.own other
  rest other := by
    by_cases hother : other = stream
    · subst hother
      simp [System.push, System.setPipe, hrunning]
    · simpa [System.push, System.setPipe, Function.update_of_ne hother] using h.rest other
  next := by simp [System.push, System.setPipe, h.next]
  numbers := by
    simp [System.push, System.setPipe, h.numbers, h.next, List.range'_1_concat, Nat.add_comm]
  ring := by
    have hline : (s.ring.push ringCapacity_pos text stream).1.lines <:+
        s.pushed ++ [⟨s.ring.nextSeq, text, stream⟩] := by
      have hkept : (if s.ring.lines.length = ringCapacity then s.ring.lines.tail
          else s.ring.lines) <:+ s.pushed := by
        split
        · exact (List.tail_suffix _).trans h.ring
        · exact h.ring
      obtain ⟨gone, hgone⟩ := hkept
      exact ⟨gone, by rw [Ring.push_lines, ← List.append_assoc, hgone]⟩
    exact hline

theorem Inv.read (h : Inv s) (hread : s.read stream = some t) : Inv t := by
  have hpipe := h.followed stream
  simp only [System.read] at hread
  split at hread
  · cases hread
  next hready =>
  have hrunning : (s.pipes stream).stopped = false := by
    cases hstopped : (s.pipes stream).stopped <;> simp_all
  have hidle : s.held stream = none := by
    cases hheld : s.held stream <;> simp_all
  split at hread
  · cases hread
  · next hends =>
    cases hread
    exact h.setPipe (hpipe.ends hrunning hends) fun _ => hidle
  next raw rest hline =>
  split at hread
  · next text htext =>
    cases hread
    exact h.push hidle hrunning (hpipe.line hrunning hline htext)
  · next hbad =>
    cases hread
    exact h.setPipe (hpipe.breaks hrunning hline hbad) fun _ => hidle

theorem Inv.sends (h : Inv s) {line : Line} (hheld : s.held stream = some line)
    (channel : List Line) :
    Inv { s with
      held := Function.update s.held stream none
      channel
      queued := s.queued ++ [line] } where
  followed := h.followed
  handed other := by
    have hbefore := h.handed other
    have hline : line.stream = stream := h.own stream line (by simp [hheld])
    by_cases hother : other = stream
    · subst hother
      simpa [System.pushedOf, System.queuedOf, hheld, hline] using hbefore
    have hne : line.stream ≠ other := by
      rw [hline]
      exact Ne.symm hother
    simpa [System.pushedOf, System.queuedOf, Function.update_of_ne hother, hne] using hbefore
  own other := by
    by_cases hother : other = stream
    · subst hother
      simp
    · simpa [Function.update_of_ne hother] using h.own other
  rest other hstopped := by
    by_cases hother : other = stream
    · subst hother
      simp
    · simpa [Function.update_of_ne hother] using h.rest other hstopped
  next := h.next
  numbers := h.numbers
  ring := h.ring

theorem Inv.step (h : Inv s) (hstep : machine.step s e = some t) : Inv t := by
  cases e with
  | writes stream bytes =>
    simp only [machine, System.step] at hstep
    split at hstep
    · cases hstep
    · next hopen =>
      cases hstep
      exact h.setPipe ((h.followed stream).writes (by simpa using hopen) bytes) (h.rest stream)
  | closes stream =>
    simp only [machine, System.step] at hstep
    split at hstep
    · cases hstep
    · cases hstep
      exact h.setPipe (h.followed stream).closes (h.rest stream)
  | reads stream => exact h.read hstep
  | sends stream =>
    simp only [machine, System.step] at hstep
    split at hstep
    · next line hheld =>
      split at hstep
      · cases hstep
        exact h.sends hheld _
      · cases hstep
    · cases hstep
  | receives =>
    simp only [machine, System.step] at hstep
    split at hstep
    · cases hstep
    · cases hstep
      exact ⟨h.followed, h.handed, h.own, h.rest, h.next, h.numbers, h.ring⟩

theorem reads_on (hrunning : (s.pipes stream).stopped = false) (hidle : s.held stream = none)
    (hmore : (s.pipes stream).closed = true ∨ newline ∈ (s.pipes stream).unread) :
    ∃ t, machine.step s (.reads stream) = some t := by
  simp only [machine, System.step, System.read, hrunning, hidle, Option.isSome_none, Bool.or_self,
    Bool.false_eq_true, if_false]
  split
  · next hwaits =>
    obtain ⟨hopen, hnone⟩ := nextLine_waits hwaits
    rcases hmore with hclosed | hmem
    · rw [hopen] at hclosed
      cases hclosed
    · exact absurd hmem hnone
  · exact ⟨_, rfl⟩
  · split <;> exact ⟨_, rfl⟩

end Turns

/-- Everything on one stream has been read to its end, and handed on. -/
def ReadToEnd (s : System) (stream : OutputStream) : Prop :=
  (s.pipes stream).closed = true ∧
    (s.queuedOf stream).map (some ·.line) = (linesOf (s.pipes stream).written).map decode

/-- What is pushed is what was written, line by line, under rising numbers, and each line is queued
once; a reader that may go on can. One that has stopped has read its stream to the end exactly if
every line of it is UTF-8. -/
theorem output_is_read_iff (events : List Event) (s : System)
    (hrun : machine.exec {} events = some s) (stream : OutputStream) :
    ((s.pushedOf stream).map (some ·.line) <+: (linesOf (s.pipes stream).written).map decode ∧
      s.pushed.map (·.seq) = List.range' 1 s.pushed.length ∧ s.ring.lines <:+ s.pushed ∧
      ((s.queuedOf stream).map (·.seq)).Pairwise (· < ·) ∧
      s.pushedOf stream = s.queuedOf stream ++ (s.held stream).toList) ∧
    ((s.pipes stream).stopped = false → s.held stream = none →
      (s.pipes stream).closed = true ∨ newline ∈ (s.pipes stream).unread →
      ∃ t, machine.step s (.reads stream) = some t) ∧
    ((s.pipes stream).stopped = true → (ReadToEnd s stream ↔
      ∀ line ∈ linesOf (s.pipes stream).written, (decode line).isSome = true)) := by
  have hinv : Inv s := machine.always (fun h hstep => h.step hstep) inv_start hrun
  have hfollowed := hinv.followed stream
  have hhanded := hinv.handed stream
  refine ⟨⟨?_, hinv.numbers, hinv.ring, ?_, hhanded⟩, reads_on, ?_⟩
  · simpa [Function.comp_def] using hfollowed.isPrefix
  · have hrising : (s.pushed.map (·.seq)).Pairwise (· < ·) := by
      rw [hinv.numbers]
      exact List.pairwise_lt_range'
    have hsub : (s.queuedOf stream).Sublist s.pushed := by
      have hfirst : (s.queuedOf stream).Sublist (s.pushedOf stream) := by
        rw [hhanded]
        exact List.sublist_append_left _ _
      exact hfirst.trans List.filter_sublist
    exact hrising.sublist (hsub.map _)
  · intro hstopped
    have hall : s.pushedOf stream = s.queuedOf stream := by
      simpa [hinv.rest stream hstopped] using hhanded
    have hiff := hfollowed.all_iff hstopped
    rw [hall, List.map_map] at hiff
    exact hiff

def twoLines : List Event :=
  [.writes .stdout [97, newline, 195], .reads .stdout, .sends .stdout, .writes .stdout [164],
    .closes .stdout, .reads .stdout, .sends .stdout, .reads .stdout]

theorem output_is_read_iff_twoLines : ∃ s, machine.exec {} twoLines = some s ∧
    (s.queuedOf .stdout).map (·.seq) = [1, 2] ∧ ReadToEnd s .stdout := by
  obtain ⟨s, hrun, hqueued, hstopped, htext⟩ : machine.Ends {} twoLines fun s =>
      (s.queuedOf .stdout).map (·.seq) = [1, 2] ∧ (s.pipes .stdout).stopped = true ∧
        ∀ line ∈ linesOf (s.pipes .stdout).written, (decode line).isSome = true := by
    decide +kernel
  exact ⟨s, hrun, hqueued, ((output_is_read_iff twoLines s hrun .stdout).2.2 hstopped).mpr htext⟩

def badByte : List Event :=
  [.writes .stdout [97, newline, 255, newline, 98, newline], .reads .stdout, .sends .stdout,
    .reads .stdout]

/-- The reader stops in front of the third line, while the stream is open. -/
theorem bad_byte_ends_reading : ¬ ∀ (events : List Event) (s : System),
    machine.exec {} events = some s → ∀ stream, (s.pipes stream).stopped = true →
      ReadToEnd s stream := by
  intro hall
  obtain ⟨s, hrun, hstopped, hopen⟩ : machine.Ends {} badByte fun s =>
      (s.pipes .stdout).stopped = true ∧ (s.pipes .stdout).closed = false := by
    decide +kernel
  have hread := hall badByte s hrun .stdout hstopped
  rw [hread.1] at hopen
  cases hopen

end CraftPanel.Supervise.Reading
