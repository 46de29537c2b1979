import Mathlib.Data.List.Basic

/-!
# Pieces of a sequence

Pieces are lists that were written, or read, at a position of a longer one. A sequence is *covered*
by pieces when each of its elements is one of theirs at its place, and pieces *agree* with a
sequence when they hold nothing else where both reach.
-/

namespace Framework

/-- A position, and what is there from it on. -/
abbrev Pieces (α : Type*) := List (Nat × List α)

namespace Pieces

variable {α : Type*}

/-- The piece has `a` at position `p` of the whole. -/
def Holds (piece : Nat × List α) (p : Nat) (a : α) : Prop :=
  piece.1 ≤ p ∧ piece.2[p - piece.1]? = some a

def Covers (pieces : Pieces α) (whole : List α) : Prop :=
  ∀ p a, whole[p]? = some a → ∃ piece ∈ pieces, Holds piece p a

def Agrees (pieces : Pieces α) (whole : List α) : Prop :=
  ∀ piece ∈ pieces, piece.2.take (whole.length - piece.1) =
    (whole.drop piece.1).take piece.2.length

instance [DecidableEq α] (pieces : Pieces α) (whole : List α) : Decidable (Agrees pieces whole) :=
  inferInstanceAs (Decidable (∀ piece ∈ pieces, _))

variable {pieces more : Pieces α} {whole held : List α}

@[simp] theorem covers_nil (pieces : Pieces α) : Covers pieces [] := by
  intro p a ha
  simp at ha

@[simp] theorem agrees_nil (whole : List α) : Agrees [] whole := by
  intro piece hmem
  cases hmem

theorem Covers.mono (h : Covers pieces whole) (hsub : pieces ⊆ more) : Covers more whole := by
  intro p a ha
  obtain ⟨piece, hmem, hholds⟩ := h p a ha
  exact ⟨piece, hsub hmem, hholds⟩

theorem Covers.take (h : Covers pieces whole) (n : Nat) : Covers pieces (whole.take n) := by
  intro p a ha
  apply h p a
  rw [List.getElem?_take] at ha
  split at ha
  · exact ha
  · cases ha

/-- A piece that begins within the covered part covers what is appended of its rest. -/
theorem Covers.grow (h : Covers pieces whole) {start : Nat} {piece : List α}
    (hmem : (start, piece) ∈ pieces) (hstart : start ≤ whole.length) (n : Nat) :
    Covers pieces (whole ++ (piece.drop (whole.length - start)).take n) := by
  intro p a ha
  by_cases hp : p < whole.length
  · apply h p a
    rwa [List.getElem?_append_left hp] at ha
  have hle : whole.length ≤ p := Nat.le_of_not_lt hp
  rw [List.getElem?_append_right hle, List.getElem?_take, List.getElem?_drop] at ha
  split at ha
  · have hplace : whole.length - start + (p - whole.length) = p - start := by omega
    rw [hplace] at ha
    exact ⟨_, hmem, Nat.le_trans hstart hle, ha⟩
  · cases ha

theorem Covers.append (h : Covers pieces whole) {piece : List α}
    (hmem : (whole.length, piece) ∈ pieces) (n : Nat) :
    Covers pieces (whole ++ piece.take n) := by
  simpa using h.grow hmem (Nat.le_refl _) n

theorem covers_of_mem {n : Nat} (hmem : (0, whole) ∈ pieces) :
    Covers pieces (whole.take n) := by
  intro p a ha
  rw [List.getElem?_take] at ha
  split at ha
  · exact ⟨_, hmem, Nat.zero_le p, ha⟩
  · cases ha

theorem Agrees.get (h : Agrees pieces whole) {piece : Nat × List α} (hmem : piece ∈ pieces)
    {p : Nat} {a : α} (hholds : Holds piece p a) (hp : p < whole.length) : whole[p]? = some a := by
  obtain ⟨hle, ha⟩ := hholds
  have hlength : p - piece.1 < piece.2.length := (List.getElem?_eq_some_iff.mp ha).1
  have hsame := congrArg (·[p - piece.1]?) (h piece hmem)
  have hin : p - piece.1 < whole.length - piece.1 := by omega
  simp only [List.getElem?_take, hlength, hin, if_true, List.getElem?_drop, ha] at hsame
  rw [hsame]
  congr 1
  omega

theorem agrees_append : Agrees (pieces ++ more) whole ↔ Agrees pieces whole ∧ Agrees more whole := by
  simp only [Agrees, List.mem_append, or_imp, forall_and]

/-- What is covered by pieces that agree with a sequence is that sequence, as far as both go. -/
theorem Covers.take_isPrefix (hcovers : Covers pieces held) (hagrees : Agrees pieces whole) {n : Nat}
    (hn : n ≤ whole.length) : held.take n <+: whole.take n := by
  apply List.prefix_iff_getElem?.mpr
  intro p hp
  have hlength : p < n ∧ p < held.length := by
    rw [List.length_take] at hp
    omega
  have hget : held[p]? = some held[p] := List.getElem?_eq_getElem hlength.2
  obtain ⟨piece, hmem, hholds⟩ := hcovers p _ hget
  have hwhole := hagrees.get hmem hholds (by omega)
  rw [List.getElem?_take, if_pos hlength.1, hwhole, List.getElem_take]

/-- Two sequences of one length are the same where pieces that cover one agree with the other. -/
theorem Covers.eq (hcovers : Covers pieces held) (hagrees : Agrees pieces whole)
    (hlength : held.length = whole.length) : held = whole := by
  have hinitial := hcovers.take_isPrefix hagrees (Nat.le_refl whole.length)
  rw [← hlength, List.take_length, hlength, List.take_length] at hinitial
  exact hinitial.eq_of_length hlength

end Pieces

end Framework
