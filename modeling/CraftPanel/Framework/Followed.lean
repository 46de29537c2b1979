import Mathlib.Data.List.Basic

/-!
# Lists in which something is to follow

A task is the list of what it has still to do. In a *followed* list each element that opens
something has one behind it that closes it, so whoever has done the first has the other to come.
-/

namespace Framework

variable {α : Type*} {opens closes : α → Bool} {a : α} {first rest : List α}

def Followed (opens closes : α → Bool) : List α → Prop
  | [] => True
  | a :: rest => (opens a = true → rest.any closes = true) ∧ Followed opens closes rest

theorem followed_cons : Followed opens closes (a :: rest) ↔
    (opens a = true → rest.any closes = true) ∧ Followed opens closes rest := Iff.rfl

theorem Followed.tail (h : Followed opens closes (a :: rest)) : Followed opens closes rest := h.2

theorem Followed.append (hfirst : Followed opens closes first)
    (hrest : Followed opens closes rest) : Followed opens closes (first ++ rest) := by
  induction first with
  | nil => exact hrest
  | cons a first ih =>
    refine ⟨?_, ih hfirst.tail⟩
    intro hopens
    show (first ++ rest).any closes = true
    rw [List.any_append, hfirst.1 hopens, Bool.true_or]

theorem followed_of_none (h : ∀ a ∈ rest, opens a = false) : Followed opens closes rest := by
  induction rest with
  | nil => trivial
  | cons a rest ih =>
    refine ⟨?_, ih fun b hb => h b (List.mem_cons_of_mem a hb)⟩
    intro hopens
    rw [h a List.mem_cons_self] at hopens
    cases hopens

end Framework
