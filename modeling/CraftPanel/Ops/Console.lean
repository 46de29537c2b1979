import Mathlib.Algebra.GroupWithZero.Nat
import Mathlib.Algebra.BigOperators.Group.List.Basic
import CraftPanel.Settings.Failure

/-!
# The lines of a console

`Console` and `tidy` of `ops/console.rs`: the newest lines of a server under running numbers, within
a number of lines and a number of bytes.
-/

namespace CraftPanel.Ops.Numbering

open Settings (isControl)

/-- A line as its characters; its length is that of its UTF-8 encoding. -/
abbrev Line := List Char

def size (line : Line) : Nat := (line.map Char.utf8Size).sum

def MAX_LINES : Nat := 10000

def MAX_BYTES : Nat := 4 * 1024 * 1024

def MAX_LINE_BYTES : Nat := 8 * 1024

def TRUNCATION_MARK : Line := " [truncated]".toList

/-- Where the loop of `tidy` stands in an escape sequence. -/
inductive Escape
  | none
  /-- After `\u{1b}`: the next character says which sequence it is. -/
  | opened
  /-- After `[`, up to a letter. -/
  | control
  /-- After `]`, up to `\u{7}` or `\u{9c}`. -/
  | system

def isAsciiAlphabetic (letter : Char) : Bool :=
  (65 ≤ letter.toNat && letter.toNat ≤ 90) || (97 ≤ letter.toNat && letter.toNat ≤ 122)

def strip : Escape → Line → Line
  | _, [] => []
  | .none, letter :: rest =>
    if letter.toNat = 0x1b then strip .opened rest
    else if letter = '\t' then letter :: strip .none rest
    else if isControl letter then strip .none rest
    else letter :: strip .none rest
  | .opened, letter :: rest =>
    strip (if letter = '[' then .control else if letter = ']' then .system else .none) rest
  | .control, letter :: rest => strip (if isAsciiAlphabetic letter then .none else .control) rest
  | .system, letter :: rest =>
    strip (if letter.toNat = 7 || letter.toNat = 0x9c then .none else .system) rest

def cut : Nat → Line → Line
  | _, [] => []
  | room, letter :: rest =>
    if letter.utf8Size ≤ room then letter :: cut (room - letter.utf8Size) rest else []

def stripMark : Line → Line
  | [] => []
  | letter :: rest => if letter.toNat = 0xfeff then rest else letter :: rest

def tidy (raw : Line) : Line :=
  let out := strip .none (stripMark raw)
  if MAX_LINE_BYTES < size out then
    cut (MAX_LINE_BYTES - size TRUNCATION_MARK) out ++ TRUNCATION_MARK
  else out

theorem size_append (a b : Line) : size (a ++ b) = size a + size b := by
  simp [size]

theorem size_cut (room : Nat) (line : Line) : size (cut room line) ≤ room := by
  induction line generalizing room with
  | nil => simp [cut, size]
  | cons letter rest ih =>
    unfold cut
    split
    · have htail := ih (room - letter.utf8Size)
      simp only [size, List.map_cons, List.sum_cons] at htail ⊢
      omega
    · simp [size]

theorem size_tidy (raw : Line) : size (tidy raw) ≤ MAX_LINE_BYTES := by
  unfold tidy
  simp only
  split
  · have hcut := size_cut (MAX_LINE_BYTES - size TRUNCATION_MARK) (strip .none (stripMark raw))
    have hmark : size TRUNCATION_MARK = 12 := by decide
    rw [size_append]
    unfold MAX_LINE_BYTES at *
    omega
  · omega

structure History where
  firstSeq : Nat
  lines : List Line
  dropped : Nat

structure Console where
  lines : List Line := []
  bytes : Nat := 0
  nextSeq : Nat := 0
  firstSeq : Nat := 0
  dropped : Nat := 0

namespace Console

def new (start : Nat) : Console := { nextSeq := start, firstSeq := start }

/-- The loop of `push`, over the lines that are left. -/
def shed (c : Console) : List Line → Console
  | [] => { c with lines := [] }
  | gone :: rest =>
    if MAX_LINES < (gone :: rest).length ∨ MAX_BYTES < c.bytes ∧ 1 < (gone :: rest).length then
      shed { c with
        bytes := c.bytes - size gone
        firstSeq := c.firstSeq + 1
        dropped := c.dropped + 1 } rest
    else { c with lines := gone :: rest }

def push (c : Console) (raw : Line) : Console :=
  let line := tidy raw
  shed { c with bytes := c.bytes + size line, nextSeq := c.nextSeq + 1 } (c.lines ++ [line])

def clear (c : Console) : Console := { c with lines := [], bytes := 0, firstSeq := c.nextSeq }

def history (c : Console) : History := ⟨c.firstSeq, c.lines, c.dropped⟩

def pushAll (c : Console) (raws : List Line) : Console := raws.foldl push c

/-- The ring is what is left of the lines that were said since it was started. -/
structure Holds (c : Console) (start : Nat) (said : List Line) : Prop where
  numbers : c.firstSeq + c.lines.length = c.nextSeq
  bytes : c.bytes = (c.lines.map size).sum
  few : c.lines.length ≤ MAX_LINES
  small : c.bytes ≤ MAX_BYTES
  kept : c.lines <:+ said
  counted : c.nextSeq = start + said.length
  short : ∀ line ∈ said, size line ≤ MAX_LINE_BYTES

theorem holds_new (start : Nat) : (new start).Holds start [] := by
  constructor <;> simp [new]

theorem Holds.clear {c : Console} {start : Nat} {said : List Line} (h : c.Holds start said) :
    c.clear.Holds start said := by
  constructor
  · simp [Console.clear]
  · simp [Console.clear]
  · simp [Console.clear]
  · simp [Console.clear]
  · exact List.nil_suffix
  · exact h.counted
  · exact h.short

theorem shed_spec {lines : List Line} {c : Console} (hbytes : c.bytes = (lines.map size).sum)
    (hshort : ∀ line ∈ lines, size line ≤ MAX_LINE_BYTES) :
    (c.shed lines).lines <:+ lines ∧
      (c.shed lines).bytes = ((c.shed lines).lines.map size).sum ∧
      (c.shed lines).firstSeq + (c.shed lines).lines.length = c.firstSeq + lines.length ∧
      (c.shed lines).nextSeq = c.nextSeq ∧ (c.shed lines).lines.length ≤ MAX_LINES ∧
      (c.shed lines).bytes ≤ MAX_BYTES := by
  induction lines generalizing c with
  | nil => simp_all [shed]
  | cons gone rest ih =>
    have hsum : c.bytes = size gone + (rest.map size).sum := by simpa using hbytes
    by_cases hmore : MAX_LINES < (gone :: rest).length ∨
        MAX_BYTES < c.bytes ∧ 1 < (gone :: rest).length
    · have hrest := ih (c := { c with
        bytes := c.bytes - size gone
        firstSeq := c.firstSeq + 1
        dropped := c.dropped + 1 })
        (by simp only; omega) fun line hline => hshort line (List.mem_cons_of_mem gone hline)
      rw [shed, if_pos hmore]
      obtain ⟨hsuffix, hcounted, hnumbers, hnext, hfew, hsmall⟩ := hrest
      refine ⟨hsuffix.trans (List.suffix_cons gone rest), hcounted, hnumbers.trans ?_, hnext, hfew,
        hsmall⟩
      simp only [List.length_cons]
      omega
    · rw [shed, if_neg hmore]
      have hfew : (gone :: rest).length ≤ MAX_LINES := by omega
      refine ⟨List.suffix_rfl, hbytes, rfl, rfl, hfew, ?_⟩
      by_contra hlarge
      -- One line alone has room.
      have hone : (gone :: rest).length ≤ 1 := by
        simp only at hlarge
        omega
      obtain rfl : rest = [] := List.eq_nil_of_length_eq_zero (by simpa using hone)
      have hline := hshort gone List.mem_cons_self
      simp only [List.map_nil, List.sum_nil, Nat.add_zero] at hsum
      unfold MAX_LINE_BYTES at hline
      unfold MAX_BYTES at hlarge
      simp only at hlarge
      omega

theorem Holds.push {c : Console} {start : Nat} {said : List Line} (h : c.Holds start said)
    (raw : Line) : (c.push raw).Holds start (said ++ [tidy raw]) := by
  have hshort : ∀ line ∈ said ++ [tidy raw], size line ≤ MAX_LINE_BYTES := by
    intro line hline
    rcases List.mem_append.mp hline with hold | hnew
    · exact h.short line hold
    · rw [List.mem_singleton.mp hnew]
      exact size_tidy raw
  have hsuffix : c.lines ++ [tidy raw] <:+ said ++ [tidy raw] := by
    obtain ⟨before, hbefore⟩ := h.kept
    exact ⟨before, by rw [← hbefore, List.append_assoc]⟩
  let grown : Console := { c with bytes := c.bytes + size (tidy raw), nextSeq := c.nextSeq + 1 }
  have hgrown : grown.bytes = ((c.lines ++ [tidy raw]).map size).sum := by simp [grown, h.bytes]
  obtain ⟨hkept, hbytes, hnumbers, hnext, hfew, hsmall⟩ :=
    shed_spec hgrown fun line hline => hshort line (hsuffix.subset hline)
  have hnext' : grown.nextSeq = c.nextSeq + 1 := rfl
  have hnumbers' : grown.firstSeq + c.lines.length = c.nextSeq := h.numbers
  have hcounted := h.counted
  constructor
  · apply (hnumbers.trans _).trans hnext.symm
    simp only [List.length_append, List.length_singleton]
    omega
  · exact hbytes
  · exact hfew
  · exact hsmall
  · exact hkept.trans hsuffix
  · apply hnext.trans
    simp only [List.length_append, List.length_singleton]
    omega
  · exact hshort

theorem Holds.pushAll {c : Console} {start : Nat} {said : List Line} (h : c.Holds start said)
    (raws : List Line) : (c.pushAll raws).Holds start (said ++ raws.map tidy) := by
  induction raws generalizing c said with
  | nil => simpa [Console.pushAll] using h
  | cons raw raws ih =>
    have hnext := ih (h.push raw)
    rw [List.append_assoc] at hnext
    exact hnext

end Console

end CraftPanel.Ops.Numbering
