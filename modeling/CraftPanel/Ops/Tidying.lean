import CraftPanel.Ops.Console

/-!
# Escape sequences in a console line

`tidy` of `ops/console.rs` against the grammar of a terminal: where the sequences of a line end, and
what of the line is text.
-/

namespace CraftPanel.Ops.Tidying

open Settings (isControl)
open Ops.Numbering

def isVisible (letter : Char) : Bool := letter = '\t' || !isControl letter

def isWithin (low high : Nat) (letter : Char) : Bool := low ≤ letter.toNat && letter.toNat ≤ high

def isParameter : Char → Bool := isWithin 0x30 0x3f

def isIntermediate : Char → Bool := isWithin 0x20 0x2f

def isFinal : Char → Bool := isWithin 0x40 0x7e

def isEscapeFinal : Char → Bool := isWithin 0x30 0x7e

/-- `[`, `]`, and the four that open a string of another kind. -/
def isOpening (letter : Char) : Bool := "[]PX^_".toList.contains letter

/-- What ends an OSC sequence. -/
inductive Terminator
  | bell
  | escapeBackslash
  deriving DecidableEq

inductive Sequence
  | control (parameters intermediates : Line) (final : Char)
  | system (payload : Line) (terminator : Terminator)
  | two (final : Char)
  | three (intermediate final : Char)

def ESC : Char := '\x1b'

def BEL : Char := '\x07'

namespace Sequence

def encode : Sequence → Line
  | control parameters intermediates final =>
    ESC :: '[' :: (parameters ++ (intermediates ++ [final]))
  | system payload .bell => ESC :: ']' :: (payload ++ [BEL])
  | system payload .escapeBackslash => ESC :: ']' :: (payload ++ [ESC, '\\'])
  | two final => [ESC, final]
  | three intermediate final => [ESC, intermediate, final]

def isWellFormed : Sequence → Bool
  | control parameters intermediates final =>
    parameters.all isParameter && intermediates.all isIntermediate && isFinal final
  | system payload _ => payload.all fun letter => !isControl letter
  | two final => isEscapeFinal final && !isOpening final
  | three intermediate final => isIntermediate intermediate && isEscapeFinal final

/-- The sequences whose end `tidy` looks for where it is. -/
def endsInPlace : Sequence → Bool
  | control _ _ final => isAsciiAlphabetic final
  | system _ terminator => terminator = .bell
  | two _ => true
  | three _ _ => false

end Sequence

abbrev WellFormed := { sequence : Sequence // sequence.isWellFormed = true }

abbrev Text := { letters : Line // letters.all isVisible = true }

inductive Piece
  | text (shown : Text)
  | sequence (hidden : WellFormed)

namespace Piece

def encode : Piece → Line
  | text shown => shown.val
  | sequence hidden => hidden.val.encode

def visible : Piece → Line
  | text shown => shown.val
  | sequence _ => []

end Piece

def encode (pieces : List Piece) : Line := pieces.flatMap Piece.encode

def visible (pieces : List Piece) : Line := pieces.flatMap Piece.visible

/-- A line of a console that does not start with a byte order mark. -/
structure Written where
  pieces : List Piece
  unmarked : stripMark (encode pieces) = encode pieces

/-- All of the text where it has room, and else as many of its characters as have room before the
mark. -/
def IsClipped (text out : Line) : Prop :=
  if size text ≤ MAX_LINE_BYTES then out = text
  else ∃ kept next dropped, text = kept ++ next :: dropped ∧ out = kept ++ TRUNCATION_MARK ∧
    size out ≤ MAX_LINE_BYTES ∧ MAX_LINE_BYTES < size (kept ++ [next] ++ TRUNCATION_MARK)

theorem size_cons (letter : Char) (line : Line) :
    size (letter :: line) = letter.utf8Size + size line := by
  simp [size]

theorem cut_spec {room : Nat} {line : Line} (hroom : room < size line) :
    ∃ next dropped, line = cut room line ++ next :: dropped ∧
      room < size (cut room line ++ [next]) := by
  induction line generalizing room with
  | nil => simp [size] at hroom
  | cons letter rest ih =>
    rw [size_cons] at hroom
    by_cases hfits : letter.utf8Size ≤ room
    · have hless : room - letter.utf8Size < size rest := by omega
      obtain ⟨next, dropped, hline, hnext⟩ := ih hless
      use next, dropped
      rw [cut, if_pos hfits]
      constructor
      · rw [List.cons_append, ← hline]
      · rw [List.cons_append, size_cons]
        omega
    · use letter, rest
      rw [cut, if_neg hfits]
      constructor
      · rfl
      · simp only [List.nil_append, size_cons]
        omega

theorem isClipped_tidy {raw text : Line} (hstrip : strip .none (stripMark raw) = text) :
    IsClipped text (tidy raw) := by
  have hsize := size_tidy raw
  unfold IsClipped
  unfold tidy at hsize ⊢
  simp only [hstrip] at hsize ⊢
  by_cases hfits : size text ≤ MAX_LINE_BYTES
  · rw [if_pos hfits, if_neg (by omega)]
  rw [if_neg hfits]
  rw [if_pos (by omega)] at hsize ⊢
  have hmark : size TRUNCATION_MARK ≤ MAX_LINE_BYTES := by decide
  have hless : MAX_LINE_BYTES - size TRUNCATION_MARK < size text := by omega
  obtain ⟨next, dropped, htext, hnext⟩ := cut_spec hless
  use cut (MAX_LINE_BYTES - size TRUNCATION_MARK) text, next, dropped
  refine ⟨htext, rfl, hsize, ?_⟩
  rw [size_append]
  omega

theorem strip_text {text : Line} (htext : text.all isVisible = true) (rest : Line) :
    strip .none (text ++ rest) = text ++ strip .none rest := by
  induction text with
  | nil => rfl
  | cons letter text ih =>
    simp only [List.all_cons, Bool.and_eq_true] at htext
    obtain ⟨hletter, htext⟩ := htext
    simp only [isVisible, Bool.or_eq_true, decide_eq_true_eq, Bool.not_eq_true'] at hletter
    have hesc : letter.toNat ≠ 0x1b := by
      rcases hletter with rfl | hplain
      · decide
      · intro hesc
        simp [isControl, hesc] at hplain
    simp only [List.cons_append, strip, if_neg hesc, ih htext]
    rcases hletter with rfl | hplain
    · simp
    · simp [hplain]

theorem strip_opened (letter : Char) (rest : Line) : strip .none (ESC :: letter :: rest) =
    strip (if letter = '[' then .control else if letter = ']' then .system else .none) rest := by
  rw [strip, if_pos (by decide), strip]

theorem strip_control {letters : Line} (hletters : ∀ c ∈ letters, isAsciiAlphabetic c = false)
    (rest : Line) : strip .control (letters ++ rest) = strip .control rest := by
  induction letters with
  | nil => rfl
  | cons letter letters ih =>
    have hrest := ih fun c hc => hletters c (List.mem_cons_of_mem letter hc)
    simp [strip, hletters letter List.mem_cons_self, hrest]

theorem strip_system {payload : Line}
    (hpayload : ∀ c ∈ payload, c.toNat ≠ 7 ∧ c.toNat ≠ 0x9c)
    (rest : Line) : strip .system (payload ++ rest) = strip .system rest := by
  induction payload with
  | nil => rfl
  | cons letter payload ih =>
    have hrest := ih fun c hc => hpayload c (List.mem_cons_of_mem letter hc)
    simp [strip, hpayload letter List.mem_cons_self, hrest]

theorem not_alphabetic_of_le {letter : Char} (hletter : letter.toNat ≤ 0x3f) :
    isAsciiAlphabetic letter = false := by
  simp only [isAsciiAlphabetic, Bool.or_eq_false_iff, Bool.and_eq_false_iff,
    decide_eq_false_iff_not]
  omega

theorem plain_of_not_control {letter : Char} (hletter : isControl letter = false) :
    letter.toNat ≠ 7 ∧ letter.toNat ≠ 0x9c := by
  constructor <;>
  · intro heq
    simp [isControl, heq] at hletter

namespace Sequence

variable {parameters intermediates payload : Line} {intermediate final : Char}

theorem strip_control_encode
    (hwell : (control parameters intermediates final).isWellFormed = true) (rest : Line) :
    strip .none ((control parameters intermediates final).encode ++ rest) =
      strip .control (final :: rest) := by
  simp only [isWellFormed, Bool.and_eq_true, List.all_eq_true] at hwell
  obtain ⟨⟨hparameters, hintermediates⟩, -⟩ := hwell
  have hshape : (control parameters intermediates final).encode ++ rest =
      ESC :: '[' :: (parameters ++ (intermediates ++ (final :: rest))) := by
    simp [encode]
  rw [hshape, strip_opened, if_pos rfl, strip_control, strip_control]
  · intro c hc
    have hrange := hintermediates c hc
    simp only [isIntermediate, isWithin, Bool.and_eq_true, decide_eq_true_eq] at hrange
    exact not_alphabetic_of_le (by omega)
  · intro c hc
    have hrange := hparameters c hc
    simp only [isParameter, isWithin, Bool.and_eq_true, decide_eq_true_eq] at hrange
    exact not_alphabetic_of_le (by omega)

theorem strip_system_encode {terminator : Terminator}
    (hwell : (system payload terminator).isWellFormed = true) (rest : Line) :
    strip .none ((system payload terminator).encode ++ rest) =
      if terminator = .bell then strip .none rest else strip .system rest := by
  simp only [isWellFormed, List.all_eq_true, Bool.not_eq_true'] at hwell
  have hpayload (c : Char) (hc : c ∈ payload) := plain_of_not_control (hwell c hc)
  cases terminator with
  | bell =>
    have hshape : (system payload .bell).encode ++ rest =
        ESC :: ']' :: (payload ++ (BEL :: rest)) := by
      simp [encode]
    rw [hshape, strip_opened, if_neg (by decide), if_pos rfl, strip_system hpayload]
    simp [strip, BEL]
  | escapeBackslash =>
    have hshape : (system payload .escapeBackslash).encode ++ rest =
        ESC :: ']' :: (payload ++ ([ESC, '\\'] ++ rest)) := by
      simp [encode]
    rw [hshape, strip_opened, if_neg (by decide), if_pos rfl, strip_system hpayload, strip_system]
    · simp
    · simp [ESC]

theorem strip_two_encode (hwell : (two final).isWellFormed = true) (rest : Line) :
    strip .none ((two final).encode ++ rest) = strip .none rest := by
  simp only [isWellFormed, Bool.and_eq_true, Bool.not_eq_true'] at hwell
  have hopening : final ≠ '[' ∧ final ≠ ']' := by
    constructor <;>
    · rintro rfl
      simp [isOpening] at hwell
  simp [encode, strip_opened, hopening]

theorem strip_three_encode (hwell : (three intermediate final).isWellFormed = true) (rest : Line) :
    strip .none ((three intermediate final).encode ++ rest) = final :: strip .none rest := by
  simp only [isWellFormed, Bool.and_eq_true, isIntermediate, isEscapeFinal, isWithin,
    decide_eq_true_eq] at hwell
  have hopening : intermediate ≠ '[' ∧ intermediate ≠ ']' := by
    constructor <;>
    · rintro rfl
      simp at hwell
  have hfinal : [final].all isVisible = true := by
    simp only [List.all_cons, List.all_nil, Bool.and_true, isVisible, isControl, Bool.or_eq_true,
      Bool.not_eq_true', Bool.or_eq_false_iff, Bool.and_eq_false_iff, decide_eq_false_iff_not]
    omega
  have htext := strip_text hfinal rest
  simpa [encode, strip_opened, hopening] using htext

theorem strip_encode {s : Sequence} (hwell : s.isWellFormed = true) (hends : s.endsInPlace = true)
    (rest : Line) : strip .none (s.encode ++ rest) = strip .none rest := by
  cases s with
  | control parameters intermediates final =>
    have hfinal : isAsciiAlphabetic final = true := hends
    rw [strip_control_encode hwell, strip, if_pos hfinal]
  | system payload terminator =>
    have hbell : terminator = .bell := by simpa [endsInPlace] using hends
    rw [strip_system_encode hwell, if_pos hbell]
  | two final => exact strip_two_encode hwell rest
  | three intermediate final => cases hends

theorem strip_encode_ne {s : Sequence} (hwell : s.isWellFormed = true)
    (hends : s.endsInPlace = false) : strip .none (s.encode ++ "ab".toList) ≠ "ab".toList := by
  cases s with
  | control parameters intermediates final =>
    have hfinal : isAsciiAlphabetic final = false := hends
    -- The first of the letters ends the sequence.
    have hleft : strip .control (final :: "ab".toList) = ['b'] := by
      rw [strip, if_neg (by simp [hfinal])]
      decide
    rw [strip_control_encode hwell, hleft]
    decide
  | system payload terminator =>
    have hbell : terminator ≠ .bell := by simpa [endsInPlace] using hends
    rw [strip_system_encode hwell, if_neg hbell]
    decide
  | two final => cases hends
  | three intermediate final =>
    rw [strip_three_encode hwell]
    intro hsame
    have hlength := congrArg List.length hsame
    simp [strip, isControl] at hlength

end Sequence

theorem strip_pieces {pieces : List Piece}
    (hends : ∀ s, .sequence s ∈ pieces → s.val.endsInPlace = true) :
    strip .none (encode pieces) = visible pieces := by
  induction pieces with
  | nil => rfl
  | cons piece pieces ih =>
    have hrest := ih fun s hs => hends s (List.mem_cons_of_mem piece hs)
    have hencode : encode (piece :: pieces) = piece.encode ++ encode pieces := List.flatMap_cons
    have hvisible : visible (piece :: pieces) = piece.visible ++ visible pieces := List.flatMap_cons
    rw [hencode, hvisible, ← hrest]
    cases piece with
    | text shown => exact strip_text shown.property (encode pieces)
    | sequence s =>
      exact Sequence.strip_encode s.property (hends s List.mem_cons_self) (encode pieces)

theorem isVisible_of_mem_strip {state : Escape} {line : Line} {letter : Char}
    (hletter : letter ∈ strip state line) : isVisible letter = true := by
  induction line generalizing state with
  | nil => cases state <;> simp [strip] at hletter
  | cons next line ih =>
    cases state with
    | none =>
      rw [strip] at hletter
      split_ifs at hletter with hesc htab hcontrol
      · exact ih hletter
      · rcases List.mem_cons.mp hletter with rfl | hrest
        · simp [isVisible, htab]
        · exact ih hrest
      · exact ih hletter
      · rcases List.mem_cons.mp hletter with rfl | hrest
        · simp [isVisible, hcontrol]
        · exact ih hrest
    | opened => exact ih hletter
    | control => exact ih hletter
    | system => exact ih hletter

theorem mem_of_mem_cut {room : Nat} {line : Line} {letter : Char}
    (hletter : letter ∈ cut room line) : letter ∈ line := by
  induction line generalizing room with
  | nil => simp [cut] at hletter
  | cons next line ih =>
    rw [cut] at hletter
    split_ifs at hletter with hfits
    · rcases List.mem_cons.mp hletter with rfl | hrest
      · exact List.mem_cons_self
      · exact List.mem_cons_of_mem next (ih hrest)
    · cases hletter

theorem isVisible_of_mem_tidy {raw : Line} {letter : Char} (hletter : letter ∈ tidy raw) :
    isVisible letter = true := by
  unfold tidy at hletter
  simp only at hletter
  split_ifs at hletter with hlong
  · rcases List.mem_append.mp hletter with hcut | hmark
    · exact isVisible_of_mem_strip (mem_of_mem_cut hcut)
    · have hall : TRUNCATION_MARK.all isVisible = true := by decide
      exact List.all_eq_true.mp hall letter hmark
  · exact isVisible_of_mem_strip hletter

namespace Written

variable (line : Written)

def raw : Line := encode line.pieces

def shown : Line := visible line.pieces

/-- The sequences of the line are among those allowed. -/
def Uses (allowed : Set WellFormed) : Prop := ∀ s, .sequence s ∈ line.pieces → s ∈ allowed

end Written

def betweenLetters : Text := ⟨"ab".toList, by decide⟩

theorem encode_before_letters (s : WellFormed) :
    encode [.sequence s, .text betweenLetters] = s.val.encode ++ "ab".toList := by
  simp [encode, Piece.encode, betweenLetters]

def beforeLetters (s : WellFormed) : Written where
  pieces := [.sequence s, .text betweenLetters]
  unmarked := by
    rw [encode_before_letters]
    obtain ⟨s, hs⟩ := s
    cases s with
    | control => rfl
    | system payload terminator => cases terminator <;> rfl
    | two => rfl
    | three => rfl

theorem not_isClipped_beforeLetters {s : WellFormed} (hends : s.val.endsInPlace = false) :
    ¬ IsClipped (beforeLetters s).shown (tidy (beforeLetters s).raw) := by
  have hshown : (beforeLetters s).shown = "ab".toList := rfl
  have hraw : strip .none (stripMark (beforeLetters s).raw) =
      strip .none (s.val.encode ++ "ab".toList) := by
    rw [Written.raw, (beforeLetters s).unmarked]
    exact congrArg (strip .none) (encode_before_letters s)
  rw [hshown]
  intro hclip
  have hfits : size "ab".toList ≤ MAX_LINE_BYTES := by decide
  have hsame : tidy (beforeLetters s).raw = "ab".toList := by
    rwa [IsClipped, if_pos hfits] at hclip
  unfold tidy at hsame
  simp only [hraw] at hsame
  split_ifs at hsame with hlong
  · -- The mark alone is longer.
    have hlength := congrArg List.length hsame
    have hmark : TRUNCATION_MARK.length = 12 := by decide
    rw [List.length_append, hmark] at hlength
    have htwo : "ab".toList.length = 2 := by decide
    omega
  · exact Sequence.strip_encode_ne s.property hends hsame

/-- The lines that use some sequences all keep their text, no more and no less, exactly when each of
these sequences ends in place: a control sequence with a letter, an OSC sequence with BEL, and an
escape of two characters. Any line at all comes out short and without control characters. -/
theorem lines_are_tidied (allowed : Set WellFormed) (raw : Line) :
    ((∀ line : Written, line.Uses allowed → IsClipped line.shown (tidy line.raw)) ↔
      ∀ s ∈ allowed, s.val.endsInPlace = true) ∧
    size (tidy raw) ≤ MAX_LINE_BYTES ∧
      ∀ letter ∈ tidy raw, isControl letter = true → letter = '\t' := by
  refine ⟨⟨?_, ?_⟩, size_tidy raw, ?_⟩
  · intro hlines s hs
    have huses : (beforeLetters s).Uses allowed := by
      intro other hother
      simp only [beforeLetters, List.mem_cons, Piece.sequence.injEq, reduceCtorEq,
        List.not_mem_nil, or_false] at hother
      exact hother ▸ hs
    have hclip := hlines (beforeLetters s) huses
    by_contra hends
    exact not_isClipped_beforeLetters (by simpa using hends) hclip
  · intro hends line huses
    apply isClipped_tidy
    rw [Written.raw, line.unmarked]
    exact strip_pieces fun s hs => hends s (huses s hs)
  · intro letter hletter hcontrol
    have hvisible := isVisible_of_mem_tidy hletter
    simpa [isVisible, hcontrol] using hvisible

/-- The title of a terminal, ended by ESC and a backslash, and a line of a log. -/
def titled : Written where
  pieces := [.sequence ⟨.system "0;mc".toList .escapeBackslash, by decide⟩,
    .text ⟨"Done".toList, by decide⟩]
  unmarked := by decide

/-- The scanner finds no end of the title and drops the log. -/
theorem title_swallows_line :
    titled.shown = "Done".toList ∧ tidy titled.raw = [] ∧
      ¬ IsClipped titled.shown (tidy titled.raw) := by
  have htidy : tidy titled.raw = [] := by decide
  have hsmall : size titled.shown ≤ MAX_LINE_BYTES := by decide
  constructor
  · rfl
  · refine ⟨htidy, ?_⟩
    rw [htidy, IsClipped, if_pos hsmall]
    decide

end CraftPanel.Ops.Tidying
