import Mathlib.Algebra.GroupWithZero.Nat
import CraftPanel.Framework.Machine
import Mathlib.Data.List.Basic

/-!
# The console in the browser

`ConsoleSequence` of `api/socket.ts` and `ConsoleBuffer` with its listeners of
`providers/console-manager.ts`. A buffer that trims has a new array from then on; whoever shows the
old one shows what is in the buffer no more. Texts come as their UTF-16 units.
-/

namespace CraftPanel.Web

open Framework

abbrev Text := List UInt16

def ascii (text : String) : Text := text.toList.map fun c => c.toNat.toUInt16

/-- What `accept` lets through of a block, with how many lines are missing before it. -/
structure Slice where
  seq : Nat
  lines : List Text
  missing : Nat
  deriving DecidableEq

/-- `ConsoleSequence.accept`. -/
def accept (expected : Option Nat) (seq : Nat) (lines : List Text) : Option Nat × Option Slice :=
  if lines = [] then (expected, none)
  else match expected with
    | none => (some (seq + lines.length), some ⟨seq, lines, 0⟩)
    | some expected =>
      if seq + lines.length ≤ expected then (some expected, none)
      else if expected ≤ seq then
        (some (seq + lines.length), some ⟨seq, lines, seq - expected⟩)
      else (some (seq + lines.length), some ⟨expected, lines.drop (expected - seq), 0⟩)

def acceptAll (blocks : List (Nat × List Text)) : Option Nat × List Slice :=
  blocks.foldl (fun (expected, slices) (seq, lines) =>
    let (expected, slice) := accept expected seq lines
    (expected, slices ++ slice.toList)) (none, [])

/-- Each line under its own number, the numbers rising, and with what is missing the slices are as
long as the way from the first number to the one expected next. -/
structure Numbered (stream : Nat → Text) (expected : Option Nat) (slices : List Slice) : Prop where
  own : ∀ slice ∈ slices, slice.lines = (List.range' slice.seq slice.lines.length).map stream
  rising : (slices.flatMap fun slice => List.range' slice.seq slice.lines.length).Pairwise (· < ·)
  counted : ∀ first ∈ slices.head?, first.missing = 0 ∧ expected =
    some (first.seq + (slices.map fun slice => slice.missing + slice.lines.length).sum)
  below : ∀ e ∈ expected, ∀ slice ∈ slices, slice.seq + slice.lines.length ≤ e
  empty : slices = [] → expected = none

section Sequence

variable {stream : Nat → Text} {expected : Option Nat} {slices : List Slice}

theorem Numbered.snoc {e : Nat} (slice : Slice) (h : Numbered stream (some e) slices)
    (hseq : slice.seq = e + slice.missing)
    (hown : slice.lines = (List.range' slice.seq slice.lines.length).map stream) :
    Numbered stream (some (slice.seq + slice.lines.length)) (slices ++ [slice]) where
  own := by
    intro s hs
    rcases List.mem_append.mp hs with hs | hs
    · exact h.own s hs
    · rwa [List.mem_singleton.mp hs]
  rising := by
    rw [List.flatMap_append, List.pairwise_append]
    refine ⟨h.rising, by simpa using List.pairwise_lt_range', fun a ha b hb => ?_⟩
    obtain ⟨s, hs, ha⟩ := List.mem_flatMap.mp ha
    have hbound := h.below e rfl s hs
    rw [List.mem_range'_1] at ha
    simp only [List.flatMap_cons, List.flatMap_nil, List.append_nil, List.mem_range'_1] at hb
    omega
  counted := by
    cases slices with
    | nil => cases h.empty rfl
    | cons first rest =>
      obtain ⟨hfirst, he⟩ := h.counted first rfl
      rintro _ ⟨⟩
      refine ⟨hfirst, ?_⟩
      have he := Option.some.inj he
      simp only [List.cons_append, List.map_cons, List.map_append, List.sum_cons, List.sum_append,
        List.map_nil, List.sum_nil] at he ⊢
      congr 1
      omega
  below := by
    rintro _ ⟨⟩ s hs
    rcases List.mem_append.mp hs with hs | hs
    · have hbound := h.below e rfl s hs
      omega
    · cases List.mem_singleton.mp hs
      exact Nat.le_refl _
  empty := by simp

theorem accept_numbered (h : Numbered stream expected slices) (seq n : Nat) :
    Numbered stream (accept expected seq ((List.range' seq n).map stream)).1
      (slices ++ (accept expected seq ((List.range' seq n).map stream)).2.toList) := by
  unfold accept
  split
  · simpa using h
  cases expected with
  | none =>
    cases slices with
    | cons first rest => cases (h.counted first rfl).2
    | nil =>
      refine ⟨by simp, by simpa using List.pairwise_lt_range', ?_, ?_, by simp⟩
      · rintro _ ⟨⟩
        simp
      · rintro _ ⟨⟩
        simp
  | some e =>
    simp only [List.length_map, List.length_range']
    split
    · simpa using h
    split
    · rename_i hle
      have hseq : seq = e + (seq - e) := by omega
      simpa using h.snoc ⟨seq, (List.range' seq n).map stream, seq - e⟩ hseq (by simp)
    rename_i hnew hle
    have hdrop : ((List.range' seq n).map stream).drop (e - seq) =
        (List.range' e (n - (e - seq))).map stream := by
      rw [← List.map_drop, List.drop_range', Nat.mul_one, show seq + (e - seq) = e by omega]
    have hend : e + (n - (e - seq)) = seq + n := by omega
    rw [hdrop]
    simpa [hend] using h.snoc ⟨e, (List.range' e (n - (e - seq))).map stream, 0⟩ rfl
      (by simp)

theorem acceptAll_numbered (stream : Nat → Text) (blocks : List (Nat × Nat)) :
    let all := acceptAll (blocks.map fun (seq, n) => (seq, (List.range' seq n).map stream))
    Numbered stream all.1 all.2 := by
  have hfold : ∀ expected slices, Numbered stream expected slices →
      let all := (blocks.map fun (seq, n) => (seq, (List.range' seq n).map stream)).foldl
        (fun (expected, slices) (seq, lines) =>
          let (expected, slice) := accept expected seq lines
          (expected, slices ++ slice.toList)) (expected, slices)
      Numbered stream all.1 all.2 := by
    induction blocks with
    | nil => exact fun _ _ h => h
    | cons block blocks ih => exact fun _ _ h => ih _ _ (accept_numbered h block.1 block.2)
  exact hfold none [] ⟨by simp, by simp, by simp, by simp, by simp⟩

end Sequence

/-- `text` with its level, which is of a type of its own. -/
structure LogLine (Level : Type) where
  text : Text
  level : Option Level

def maxLines : Nat := 25000
def maxChars : Nat := 8 * 1024 * 1024
def keepLines : Nat := 20000
def keepChars : Nat := 6710886

/-- `ENTRY_START`: a time in brackets. -/
def isEntryStart (text : Text) : Bool :=
  let isDigit (c : UInt16) := 48 ≤ c && c ≤ 57
  match text with
  | a :: h :: h' :: b :: m :: m' :: c :: s :: s' :: d :: _ =>
    a = 91 && isDigit h && isDigit h' && b = 58 && isDigit m && isDigit m' && c = 58 &&
      isDigit s && isDigit s' && d = 93
  | _ => false

variable {Level : Type}

def LogLine.chars (line : LogLine Level) : Nat := line.text.length + 1

/-- `ConsoleBuffer`, with all that was appended since it was last reset. -/
structure ConsoleBuffer (Level : Type) where
  lines : List (LogLine Level) := []
  chars : Nat := 0
  parentLevel : Option Level := none
  appended : List (LogLine Level) := []

namespace ConsoleBuffer

variable (detectLogLevel : Text → Option Level) (buffer : ConsoleBuffer Level)

def push (text : Text) : ConsoleBuffer Level :=
  let level := detectLogLevel text
  let line := if isEntryStart text then ⟨text, level⟩ else ⟨text, level <|> buffer.parentLevel⟩
  { lines := buffer.lines ++ [line]
    chars := buffer.chars + (text.length + 1)
    parentLevel := if isEntryStart text then level else buffer.parentLevel
    appended := buffer.appended ++ [line] }

def pushAll (texts : List Text) : ConsoleBuffer Level := texts.foldl (push detectLogLevel) buffer

def fits : Bool := buffer.lines.length ≤ maxLines && buffer.chars ≤ maxChars

/-- The loop of `trim`. -/
def dropping : List (LogLine Level) → Nat → List (LogLine Level) × Nat
  | [], chars => ([], chars)
  | line :: lines, chars =>
    if keepLines < (line :: lines).length ∨ keepChars < chars then
      dropping lines (chars - line.chars)
    else (line :: lines, chars)

/-- `trim`, and whether the array is another one. -/
def trim : ConsoleBuffer Level × Bool :=
  if buffer.fits then (buffer, false)
  else
    let kept := dropping buffer.lines buffer.chars
    ({ buffer with lines := kept.1, chars := kept.2 }, true)

def append (texts : List Text) : ConsoleBuffer Level × Bool :=
  (buffer.pushAll detectLogLevel texts).trim

/-- What is kept is the end of what was appended, as long as it says, and within the limits. -/
structure Sound : Prop where
  ending : buffer.lines <:+ buffer.appended
  exact : buffer.chars = (buffer.lines.map LogLine.chars).sum
  within : buffer.fits = true

end ConsoleBuffer

section Buffer

variable {detectLogLevel : Text → Option Level} {buffer : ConsoleBuffer Level}

theorem dropping_sound (lines : List (LogLine Level)) :
    let kept := ConsoleBuffer.dropping lines (lines.map LogLine.chars).sum
    kept.1 <:+ lines ∧ kept.2 = (kept.1.map LogLine.chars).sum ∧ kept.1.length ≤ keepLines ∧
      kept.2 ≤ keepChars := by
  induction lines with
  | nil => simp [ConsoleBuffer.dropping]
  | cons line lines ih =>
    simp only [ConsoleBuffer.dropping]
    split
    · have hrest : ((line :: lines).map LogLine.chars).sum - line.chars =
          (lines.map LogLine.chars).sum := by simp
      rw [hrest]
      exact ⟨ih.1.trans (List.suffix_cons _ _), ih.2⟩
    · rename_i hkeep
      rw [not_or, Nat.not_lt, Nat.not_lt] at hkeep
      exact ⟨List.suffix_refl _, rfl, hkeep⟩

theorem pushAll_sound (detectLogLevel : Text → Option Level)
    {buffer : ConsoleBuffer Level} (hending : buffer.lines <:+ buffer.appended)
    (hexact : buffer.chars = (buffer.lines.map LogLine.chars).sum) (texts : List Text) :
    (buffer.pushAll detectLogLevel texts).lines <:+ (buffer.pushAll detectLogLevel texts).appended ∧
      (buffer.pushAll detectLogLevel texts).chars =
        ((buffer.pushAll detectLogLevel texts).lines.map LogLine.chars).sum := by
  induction texts generalizing buffer with
  | nil => exact ⟨hending, hexact⟩
  | cons text texts ih =>
    refine @ih (buffer.push detectLogLevel text) ?_ ?_
    · exact List.suffix_append_self_iff.mpr hending
    · simp only [ConsoleBuffer.push, List.map_append, List.sum_append, List.map_cons, List.map_nil,
        List.sum_singleton, hexact]
      split <;> rfl

theorem append_over (h : buffer.Sound) (texts : List Text)
    (hover : (buffer.pushAll detectLogLevel texts).fits = false) :
    (buffer.append detectLogLevel texts).2 = true ∧
      (buffer.append detectLogLevel texts).1.lines <:+ (buffer.append detectLogLevel texts).1.appended ∧
      (buffer.append detectLogLevel texts).1.chars =
        ((buffer.append detectLogLevel texts).1.lines.map LogLine.chars).sum ∧
      (buffer.append detectLogLevel texts).1.lines.length ≤ keepLines ∧
        (buffer.append detectLogLevel texts).1.chars ≤ keepChars := by
  obtain ⟨hending, hexact⟩ := pushAll_sound detectLogLevel h.ending h.exact texts
  have hdrop := dropping_sound (buffer.pushAll detectLogLevel texts).lines
  rw [← hexact] at hdrop
  rw [ConsoleBuffer.append, ConsoleBuffer.trim, if_neg (by simp [hover])]
  exact ⟨rfl, hdrop.1.trans hending, hdrop.2⟩

theorem append_of_fits {texts : List Text}
    (h : (buffer.pushAll detectLogLevel texts).fits = true) :
    buffer.append detectLogLevel texts = (buffer.pushAll detectLogLevel texts, false) := by
  rw [ConsoleBuffer.append, ConsoleBuffer.trim, if_pos h]

theorem append_sound (detectLogLevel : Text → Option Level) (h : buffer.Sound) (texts : List Text) :
    (buffer.append detectLogLevel texts).1.Sound := by
  cases hfits : (buffer.pushAll detectLogLevel texts).fits with
  | true =>
    obtain ⟨hending, hexact⟩ := pushAll_sound detectLogLevel h.ending h.exact texts
    rw [append_of_fits hfits]
    exact ⟨hending, hexact, hfits⟩
  | false =>
    obtain ⟨-, hending, hexact, hlines, hchars⟩ := append_over h texts hfits
    have hlimits : keepLines ≤ maxLines ∧ keepChars ≤ maxChars := by decide
    refine ⟨hending, hexact, ?_⟩
    simp only [ConsoleBuffer.fits, Bool.and_eq_true, decide_eq_true_eq]
    omega

end Buffer

/-- What `logLines` refers to: the array of a buffer, or one that a buffer has replaced since. -/
inductive Held (Level : Type)
  | live
  | opened
  | old (lines : List (LogLine Level))

/-- `useConsoleManager` as far as it shows lines, and of its socket what becomes of a block. No
source is the live one. -/
structure Console (Level : Type) where
  live : ConsoleBuffer Level := {}
  opened : ConsoleBuffer Level := {}
  held : Held Level := .live
  /-- What was drawn at the last trigger of `logLines`. -/
  drawn : List (LogLine Level) := []
  source : Option Nat := none
  historyStreaming : Bool := true
  inHistory : Bool := false
  expected : Option Nat := none

inductive ConsoleEvent
  | status (isOpen : Bool)
  | lost
  | historyStart
  | block (seq : Nat) (lines : List Text) (timestamp : Text)
  | historyEnd
  | cleared
  | selectsLive
  | selects (file : Nat)
  | reads (file : Nat) (lines : List Text)
  | fails (file : Nat)

def gapNotice (timestamp : Text) (count : Nat) : Text :=
  let plural := if count = 1 then "" else "s"
  timestamp ++ ascii s!" [Panel/WARN]: {count} line{plural} lost before this point"

namespace Console

variable (detectLogLevel : Text → Option Level) (c : Console Level)

def lines : List (LogLine Level) := match c.held with
  | .live => c.live.lines
  | .opened => c.opened.lines
  | .old lines => lines

def trigger : Console Level := { c with drawn := c.lines }

def resetLive : Console Level :=
  { c with
    live := {}
    held := match c.held with
      | .live => .old c.live.lines
      | held => held }

def resetOpened : Console Level :=
  { c with
    opened := {}
    held := match c.held with
      | .opened => .old c.opened.lines
      | held => held }

def appendLive (texts : List Text) : Console Level × Bool :=
  let (live, replaced) := c.live.append detectLogLevel texts
  ({ c with
    live
    held := match replaced, c.held with
      | true, .live => .old (c.live.pushAll detectLogLevel texts).lines
      | _, held => held }, replaced)

/-- `showBuffer` and `publish` of the live buffer. -/
def showLiveBuffer : Console Level := { c with held := .live }.trigger

def publishLive (replaced : Bool) : Console Level :=
  if replaced then c.showLiveBuffer else c.trigger

def showLive : Console Level := { c with source := none }.resetOpened.showLiveBuffer

def tellsOfGap (count : Nat) (timestamp : Text) : Console Level :=
  if 0 < count then (c.appendLive detectLogLevel [gapNotice timestamp count]).1 else c

def takes (lines : List Text) : Console Level :=
  let appended := c.appendLive detectLogLevel lines
  if c.inHistory || c.source.isSome then appended.1 else appended.1.publishLive appended.2

def onConsole (slice : Slice) (timestamp : Text) : Console Level :=
  (c.tellsOfGap detectLogLevel slice.missing timestamp).takes detectLogLevel slice.lines

def showIfLive : Console Level := if c.source.isSome then c else c.showLiveBuffer

def next : ConsoleEvent → Console Level
  | .status isOpen => if isOpen then { c with historyStreaming := true } else c
  | .lost => { c with inHistory := false }
  | .historyStart =>
    { c with historyStreaming := true, inHistory := true, expected := none }.resetLive.showIfLive
  | .block seq lines timestamp =>
    let (expected, slice) := accept c.expected seq lines
    slice.elim { c with expected } fun slice =>
      { c with expected }.onConsole detectLogLevel slice timestamp
  | .historyEnd => { c with historyStreaming := false, inHistory := false }.showIfLive
  | .cleared => c.resetLive.showIfLive
  | .selectsLive => c.showLive
  | .selects file =>
    if c.source = some file then c
    else { { c with source := some file }.resetOpened with held := .opened }.trigger
  | .reads file lines =>
    if c.source = some file then
      let (opened, replaced) := c.opened.append detectLogLevel lines
      { c with opened, held := if replaced then .opened else c.held }.trigger
    else c
  | .fails file => if c.source = some file then c.showLive else c

end Console

def console (detectLogLevel : Text → Option Level) : Machine (Console Level) ConsoleEvent where
  step c event := some (c.next detectLogLevel event)

/-- Where a gap is to be told of on the shown console, there is room for the notice. -/
def NoticeFits (detectLogLevel : Text → Option Level) (c : Console Level) : ConsoleEvent → Prop
  | .block seq lines timestamp => ∀ slice ∈ (accept c.expected seq lines).2,
    slice.missing = 0 ∨ c.inHistory = true ∨ c.source.isSome = true ∨
      (c.live.push detectLogLevel (gapNotice timestamp slice.missing)).fits = true
  | _ => True

/-- Between two appends of one block what is held need not be drawn yet. -/
structure Console.Ready (c : Console Level) : Prop where
  live : c.live.Sound
  history : c.inHistory = true → c.historyStreaming = true
  held : c.source = none → c.historyStreaming = false → c.held = .live

structure Console.Inv (c : Console Level) : Prop extends c.Ready where
  drawn : c.source = none → c.historyStreaming = false → c.drawn = c.live.lines

section Steps

variable {detectLogLevel : Text → Option Level} {c : Console Level}

theorem sound_empty : ({} : ConsoleBuffer Level).Sound := ⟨List.suffix_refl _, rfl, rfl⟩

theorem showLiveBuffer_inv (hlive : c.live.Sound)
    (hhistory : c.inHistory = true → c.historyStreaming = true) : c.showLiveBuffer.Inv :=
  ⟨⟨hlive, hhistory, fun _ _ => rfl⟩, fun _ _ => rfl⟩

theorem showIfLive_inv (hlive : c.live.Sound)
    (hhistory : c.inHistory = true → c.historyStreaming = true) : c.showIfLive.Inv := by
  unfold Console.showIfLive
  split
  · rename_i hsource
    exact ⟨⟨hlive, hhistory, fun hnone => by simp [hnone] at hsource⟩,
      fun hnone => by simp [hnone] at hsource⟩
  · exact showLiveBuffer_inv hlive hhistory

theorem tellsOfGap_ready (h : c.Ready) {count : Nat} {timestamp : Text}
    (hfits : count = 0 ∨ c.inHistory = true ∨ c.source.isSome = true ∨
      (c.live.push detectLogLevel (gapNotice timestamp count)).fits = true) :
    (c.tellsOfGap detectLogLevel count timestamp).Ready := by
  unfold Console.tellsOfGap
  split
  · rename_i hcount
    refine ⟨append_sound detectLogLevel h.live _, h.history, fun hnone hstill => ?_⟩
    have hnone : c.source = none := hnone
    have hstill : c.historyStreaming = false := hstill
    rcases hfits with hzero | hin | haway | hfits
    · omega
    · simp [h.history hin] at hstill
    · simp [hnone] at haway
    · have happend := @append_of_fits _ _ _ [gapNotice timestamp count] hfits
      simp only [Console.appendLive, happend]
      exact h.held hnone hstill
  · exact h

theorem takes_inv (h : c.Ready) (lines : List Text) : (c.takes detectLogLevel lines).Inv := by
  have hlive := append_sound detectLogLevel h.live lines
  simp only [Console.takes, Console.appendLive]
  by_cases haway : (c.inHistory || c.source.isSome) = true
  · have hvacuous : c.source = none → c.historyStreaming ≠ false := by
      intro hnone hstill
      simp only [hnone, Option.isSome_none, Bool.or_false] at haway
      simp [h.history haway] at hstill
    rw [if_pos haway]
    exact ⟨⟨hlive, h.history, fun hnone hstill => absurd hstill (hvacuous hnone)⟩,
      fun hnone hstill => absurd hstill (hvacuous hnone)⟩
  · rw [if_neg haway]
    cases hreplaced : (c.live.append detectLogLevel lines).2 with
    | true => exact showLiveBuffer_inv hlive h.history
    | false =>
      refine ⟨⟨hlive, h.history, fun hnone hstill => h.held hnone hstill⟩, fun hnone hstill => ?_⟩
      have hheld : c.held = .live := h.held hnone hstill
      simp only [Console.publishLive, Console.trigger, Console.lines, hheld, Bool.false_eq_true,
        if_false]

theorem next_inv (h : c.Inv) {event : ConsoleEvent} (hfits : NoticeFits detectLogLevel c event) :
    (c.next detectLogLevel event).Inv := by
  have hshowLive : c.showLive.Inv := showLiveBuffer_inv h.live h.history
  cases event with
  | status isOpen =>
    cases isOpen with
    | false => exact h
    | true => exact ⟨⟨h.live, fun _ => rfl, fun _ => nofun⟩, fun _ => nofun⟩
  | lost => exact ⟨⟨h.live, nofun, h.held⟩, h.drawn⟩
  | historyStart => exact showIfLive_inv sound_empty fun _ => rfl
  | block seq lines timestamp =>
    simp only [Console.next]
    cases hslice : (accept c.expected seq lines).2 with
    | none => exact ⟨⟨h.live, h.history, h.held⟩, h.drawn⟩
    | some slice =>
      have hready : Console.Ready { c with expected := (accept c.expected seq lines).1 } :=
        ⟨h.live, h.history, h.held⟩
      exact takes_inv (tellsOfGap_ready hready (hfits slice hslice)) slice.lines
  | historyEnd => exact showIfLive_inv h.live nofun
  | cleared => exact showIfLive_inv sound_empty h.history
  | selectsLive => exact hshowLive
  | selects file =>
    simp only [Console.next]
    split
    · exact h
    · exact ⟨⟨h.live, h.history, nofun⟩, nofun⟩
  | reads file lines =>
    simp only [Console.next]
    split
    · rename_i hsource
      have haway : c.source ≠ none := by simp [hsource]
      exact ⟨⟨h.live, h.history, fun hnone => absurd hnone haway⟩, fun hnone => absurd hnone haway⟩
    · exact h
  | fails file =>
    simp only [Console.next]
    split
    · exact hshowLive
    · exact h

end Steps

/-- The lines that come through keep their numbers and are counted with those that are missing;
and as long as there is room for each notice of a gap, the live lines are shown as they are. -/
theorem console_shows_what_it_has (detectLogLevel : Text → Option Level) :
    (∀ (stream : Nat → Text) (blocks : List (Nat × Nat)),
      let all := acceptAll (blocks.map fun (seq, n) => (seq, (List.range' seq n).map stream))
      Numbered stream all.1 all.2) ∧
    ∀ (historyStreaming : Bool) (events : List ConsoleEvent) (c : Console Level),
      (console detectLogLevel).Meets (NoticeFits detectLogLevel) { historyStreaming } events →
      (console detectLogLevel).exec { historyStreaming } events = some c →
        c.live.Sound ∧
          (c.source = none → c.historyStreaming = false → c.drawn = c.live.lines) := by
  refine ⟨acceptAll_numbered, fun historyStreaming events c hmeets hrun => ?_⟩
  have hinv : c.Inv := (console detectLogLevel).invariant
    (fun h hfits hstep => Option.some.inj hstep ▸ next_inv h hfits)
    ⟨⟨sound_empty, by simp, fun _ _ => rfl⟩, fun _ _ => rfl⟩ hmeets hrun
  exact ⟨hinv.live, hinv.drawn⟩

theorem console_shows_what_it_has_two :
    let blocks : List ConsoleEvent := [.historyStart, .historyEnd, .block 7 [[104, 105]] []]
    ∃ c, (console fun _ => (none : Option Unit)).exec { historyStreaming := true } blocks = some c ∧
      c.drawn = c.live.lines := by
  intro blocks
  refine ⟨_, rfl, ((console_shows_what_it_has fun _ => none).2 true blocks _ ?_ rfl).2 rfl rfl⟩
  refine ⟨trivial, trivial, ?_, trivial⟩
  intro slice hslice
  have hslice : some (⟨7, [[104, 105]], 0⟩ : Slice) = some slice := hslice
  cases hslice
  exact .inl rfl

section Gap

variable {detectLogLevel : Text → Option Level}

theorem pushAll_size (detectLogLevel : Text → Option Level) (buffer : ConsoleBuffer Level) (texts : List Text) :
    (buffer.pushAll detectLogLevel texts).lines.length = buffer.lines.length + texts.length ∧
      (buffer.pushAll detectLogLevel texts).chars =
        buffer.chars + (texts.map fun text => text.length + 1).sum := by
  induction texts generalizing buffer with
  | nil => exact ⟨rfl, rfl⟩
  | cons text texts ih =>
    obtain ⟨hlines, hchars⟩ := ih (buffer.push detectLogLevel text)
    have hone : (buffer.push detectLogLevel text).lines.length = buffer.lines.length + 1 := by
      simp [ConsoleBuffer.push]
    have hsize : (buffer.push detectLogLevel text).chars = buffer.chars + (text.length + 1) := rfl
    rw [hone] at hlines
    rw [hsize] at hchars
    simp only [List.length_cons, List.map_cons, List.sum_cons]
    exact ⟨hlines.trans (by omega), hchars.trans (by omega)⟩

theorem onConsole_behind {c : Console Level} (slice : Slice) (timestamp : Text)
    (hheld : c.held = .live) (haway : (c.inHistory || c.source.isSome) = false)
    (hmissing : 0 < slice.missing) (hlive : c.live.Sound)
    (hover : (c.live.push detectLogLevel (gapNotice timestamp slice.missing)).fits = false)
    (hroom : keepLines + slice.lines.length ≤ maxLines ∧
      keepChars + (slice.lines.map fun text => text.length + 1).sum ≤ maxChars) :
    (c.onConsole detectLogLevel slice timestamp).drawn.length = c.live.lines.length + 1 ∧
      (c.onConsole detectLogLevel slice timestamp).live.lines.length ≤
        keepLines + slice.lines.length ∧
      (c.onConsole detectLogLevel slice timestamp).source = c.source ∧
      (c.onConsole detectLogLevel slice timestamp).historyStreaming = c.historyStreaming := by
  have hcut := append_over hlive [gapNotice timestamp slice.missing] hover
  rcases happend : c.live.append detectLogLevel [gapNotice timestamp slice.missing] with ⟨live, replaced⟩
  rw [happend] at hcut
  obtain ⟨rfl, -, -, hlines, hchars⟩ := hcut
  obtain ⟨hsize, hlength⟩ := pushAll_size detectLogLevel live slice.lines
  have hfits : (live.pushAll detectLogLevel slice.lines).fits = true := by
    simp only [ConsoleBuffer.fits, Bool.and_eq_true, decide_eq_true_eq]
    simp only at hlines hchars
    omega
  simp only [Console.onConsole, Console.tellsOfGap, if_pos hmissing, Console.takes,
    Console.appendLive, happend, haway, append_of_fits hfits, hheld, Console.publishLive,
    Console.trigger, Console.lines, Bool.false_eq_true, if_false]
  simp only at hlines
  exact ⟨by simp [ConsoleBuffer.pushAll, ConsoleBuffer.push], by omega, trivial, trivial⟩

def fullOf (texts : List Text) : List ConsoleEvent :=
  [.historyStart, .block 0 texts [], .historyEnd, .block (maxLines + 1) [[]] []]

theorem fullOf_behind {texts : List Text} (hlength : texts.length = maxLines)
    (hfits : (ConsoleBuffer.pushAll detectLogLevel {} texts).fits = true) :
    ∃ c, (console detectLogLevel).exec { historyStreaming := true } (fullOf texts) = some c ∧
      c.source = none ∧ c.historyStreaming = false ∧ c.drawn ≠ c.live.lines := by
  have happend := append_of_fits hfits
  have hsound := append_sound detectLogLevel sound_empty texts
  rw [happend] at hsound
  have hsize := (pushAll_size detectLogLevel {} texts).1
  have hne : texts ≠ [] := by
    rintro rfl
    cases hlength
  have hfirst : accept none 0 texts = (some maxLines, some ⟨0, texts, 0⟩) := by
    rw [accept, if_neg hne, hlength, Nat.zero_add]
  have hlast : accept (some maxLines) (maxLines + 1) [[]] =
      (some (maxLines + 2), some ⟨maxLines + 1, [[]], 1⟩) := by decide
  let c : Console Level :=
    { live := ConsoleBuffer.pushAll detectLogLevel {} texts
      drawn := (ConsoleBuffer.pushAll detectLogLevel {} texts).lines
      historyStreaming := false, expected := some (maxLines + 2) }
  let streamed : Console Level :=
    { live := ConsoleBuffer.pushAll detectLogLevel {} texts, inHistory := true, expected := some maxLines }
  have hstreamed : ({ inHistory := true } : Console Level).next detectLogLevel (.block 0 texts []) =
      streamed := by
    simp [Console.next, hfirst, Console.onConsole, Console.tellsOfGap, Console.takes,
      Console.appendLive, happend, streamed]
  have htold : Console.next detectLogLevel { c with expected := some maxLines }
      (.block (maxLines + 1) [[]] []) =
      c.onConsole detectLogLevel ⟨maxLines + 1, [[]], 1⟩ [] := by
    simp [Console.next, hlast, c]
  have hrun : (console detectLogLevel).exec { historyStreaming := true } (fullOf texts) =
      some (c.onConsole detectLogLevel ⟨maxLines + 1, [[]], 1⟩ []) := by
    rw [← htold]
    show some (Console.next detectLogLevel (Console.next detectLogLevel (Console.next detectLogLevel
      { inHistory := true } _) .historyEnd) _) = _
    rw [hstreamed]
    rfl
  have hfull : c.live.lines.length = maxLines := hsize.trans (by simp [hlength])
  have hover : (c.live.push detectLogLevel (gapNotice [] 1)).fits = false := by
    have hone : (c.live.push detectLogLevel (gapNotice [] 1)).lines.length = maxLines + 1 := by
      simp [ConsoleBuffer.push, hfull]
    simp [ConsoleBuffer.fits, hone]
  obtain ⟨hdrawn, hlive, hsource, hstreaming⟩ := onConsole_behind (c := c)
    ⟨maxLines + 1, [[]], 1⟩ [] rfl rfl Nat.one_pos hsound hover (by decide)
  refine ⟨_, hrun, hsource, hstreaming, fun hsame => ?_⟩
  rw [hsame] at hdrawn
  have hkeep : keepLines + 1 < maxLines := by decide
  simp only [List.length_singleton] at hlive
  omega

end Gap

theorem console_stays_behind :
    ∃ c, (console fun _ => (none : Option Unit)).exec { historyStreaming := true }
        (fullOf (List.replicate maxLines [])) = some c ∧
      c.source = none ∧ c.historyStreaming = false ∧ c.drawn ≠ c.live.lines := by
  -- For any number of lines: the kernel would otherwise push all of them.
  have hfits : ∀ n ≤ maxLines, (ConsoleBuffer.pushAll (fun _ => (none : Option Unit)) {}
      (List.replicate n [])).fits = true := by
    intro n hn
    obtain ⟨hlines, hchars⟩ := pushAll_size (fun _ => (none : Option Unit)) {} (List.replicate n [])
    simp only [ConsoleBuffer.fits, hlines, hchars, List.length_replicate, List.map_replicate,
      List.sum_replicate_nat]
    have hroom : maxLines ≤ maxChars := by decide
    simpa using ⟨hn, Nat.le_trans hn hroom⟩
  exact fullOf_behind List.length_replicate (hfits _ (Nat.le_refl _))

end CraftPanel.Web
