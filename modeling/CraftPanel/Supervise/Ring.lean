import Mathlib.Data.List.Range

/-!
# The replay ring

`supervise/ring.rs`: the newest lines of a process under consecutive sequence numbers. That the
numbers are consecutive and that nothing newer than the capacity is missing is a field of the
ring.
-/

namespace CraftPanel.Supervise

inductive OutputStream
  | stdout | stderr
  deriving DecidableEq

structure Line where
  seq : Nat
  line : String
  stream : OutputStream
  deriving DecidableEq

/-- `SupervisorMessage`, without the greeting. -/
inductive Message
  | output (line : Line)
  | exited (code signal : Option Int) (oomKilled : Bool)
  deriving DecidableEq

namespace Message

def isExited : Message → Bool
  | output _ => false
  | exited .. => true

def seq? : Message → Option Nat
  | output line => some line.seq
  | exited .. => none

end Message

/-- The lines with the numbers `nextSeq - capacity` to `nextSeq - 1`, as far back as there are
any. -/
structure Ring (capacity : Nat) where
  lines : List Line
  nextSeq : Nat
  started : 0 < nextSeq
  numbers : lines.map (·.seq) =
    List.range' (nextSeq - min capacity (nextSeq - 1)) (min capacity (nextSeq - 1))

namespace Ring

variable {capacity : Nat}

def new (capacity : Nat) : Ring capacity := ⟨[], 1, Nat.one_pos, by simp⟩

theorem length_lines (r : Ring capacity) : r.lines.length = min capacity (r.nextSeq - 1) := by
  rw [← List.length_map (f := (·.seq)), r.numbers, List.length_range']

private theorem tail_range'_concat (n k : Nat) :
    (List.range' n (k + 1)).tail ++ [n + k + 1] = List.range' (n + 1) (k + 1) := by
  rw [List.range'_succ, List.tail_cons, List.range'_1_concat]
  congr 2
  omega

private theorem numbers_push {capacity n : Nat} (hpos : 0 < capacity) (hn : 0 < n) :
    (if min capacity (n - 1) = capacity
      then (List.range' (n - min capacity (n - 1)) (min capacity (n - 1))).tail
      else List.range' (n - min capacity (n - 1)) (min capacity (n - 1))) ++ [n] =
    List.range' (n + 1 - min capacity (n + 1 - 1)) (min capacity (n + 1 - 1)) := by
  split
  · rename_i hfull
    obtain ⟨k, rfl⟩ := Nat.exists_eq_add_of_lt hpos
    obtain ⟨m, rfl⟩ : ∃ m, n = m + k + 1 := ⟨n - (k + 1), by omega⟩
    have hmin : min (0 + k + 1) (m + k + 1 + 1 - 1) = k + 1 := by omega
    have hmin' : min (0 + k + 1) (m + k + 1 - 1) = k + 1 := by omega
    rw [hmin, hmin', show m + k + 1 - (k + 1) = m by omega,
      show m + k + 1 + 1 - (k + 1) = m + 1 by omega, tail_range'_concat]
  · have hmin : min capacity (n - 1) = n - 1 := by omega
    have hmin' : min capacity (n + 1 - 1) = n - 1 + 1 := by omega
    rw [hmin, hmin', List.range'_1_concat, show n + 1 - (n - 1 + 1) = n - (n - 1) by omega,
      show n - (n - 1) + (n - 1) = n by omega]

/-- Drop the oldest line of a full ring and add one under the next number. -/
def push (r : Ring capacity) (hpos : 0 < capacity) (line : String) (stream : OutputStream) :
    Ring capacity × Nat :=
  (⟨(if r.lines.length = capacity then r.lines.tail else r.lines) ++ [⟨r.nextSeq, line, stream⟩],
    r.nextSeq + 1, Nat.succ_pos _, by
      rw [← numbers_push hpos r.started, ← r.length_lines, List.map_append]
      split
      · rw [List.map_tail, r.numbers, r.length_lines]
        rfl
      · rw [r.numbers, r.length_lines]
        rfl⟩, r.nextSeq)

@[simp] theorem push_lines (r : Ring capacity) (hpos : 0 < capacity) (line : String)
    (stream : OutputStream) : (r.push hpos line stream).1.lines =
      (if r.lines.length = capacity then r.lines.tail else r.lines) ++
        [⟨r.nextSeq, line, stream⟩] := rfl

@[simp] theorem push_nextSeq (r : Ring capacity) (hpos : 0 < capacity) (line : String)
    (stream : OutputStream) : (r.push hpos line stream).1.nextSeq = r.nextSeq + 1 := rfl

@[simp] theorem push_seq (r : Ring capacity) (hpos : 0 < capacity) (line : String)
    (stream : OutputStream) : (r.push hpos line stream).2 = r.nextSeq := rfl

def replay (r : Ring capacity) : List Message := r.lines.map .output

theorem seq_mem_iff (r : Ring capacity) (n : Nat) :
    n ∈ r.lines.map (·.seq) ↔ 0 < n ∧ n < r.nextSeq ∧ r.nextSeq ≤ n + capacity := by
  have hstarted := r.started
  rw [r.numbers, List.mem_range'_1]
  omega

private theorem head_of_range' {a n k : Nat} {l : List Nat} (h : a :: l = List.range' n k) :
    a = n := by
  cases k with
  | zero => simp at h
  | succ k =>
    rw [List.range'_succ, List.cons.injEq] at h
    exact h.1

theorem mem_push (r : Ring capacity) (hpos : 0 < capacity) (text : String) (stream : OutputStream)
    {line : Line} (h : line ∈ r.lines) :
    line ∈ (r.push hpos text stream).1.lines ∨
      line.seq + capacity < (r.push hpos text stream).1.nextSeq := by
  rw [push_lines, push_nextSeq]
  by_cases hfull : r.lines.length = capacity
  · rw [if_pos hfull]
    cases hlines : r.lines with
    | nil => simp [hlines] at h
    | cons oldest rest =>
      rcases List.mem_cons.mp (hlines ▸ h) with rfl | hrest
      · right
        have hnumbers := r.numbers
        have hlength := r.length_lines
        have hmin : min capacity (r.nextSeq - 1) = capacity := hlength ▸ hfull
        rw [hlines, List.map_cons, hmin] at hnumbers
        have holdest := head_of_range' hnumbers
        omega
      · exact .inl (List.mem_append_left _ hrest)
  · rw [if_neg hfull]
    exact .inl (List.mem_append_left _ h)

end Ring

end CraftPanel.Supervise
