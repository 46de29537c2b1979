import Mathlib.Logic.Basic

/-!
# Checked computations

`Except` computations taken apart at their binds: a result that is `ok` has passed every check in
front of it.
-/

namespace Framework

universe u

variable {ε ε' : Type*} {α β : Type u}

/-- Stop with the error where the test holds. -/
def refuse (test : Prop) [Decidable test] (error : ε) : Except ε PUnit :=
  if test then .error error else .ok ⟨⟩

theorem refuse_ok {test : Prop} [Decidable test] {error : ε} {u : PUnit} :
    refuse test error = .ok u ↔ ¬ test := by
  unfold refuse
  split
  · next h => simp [h]
  · next h => simp [h]

theorem bind_ok {x : Except ε α} {f : α → Except ε β} {b : β} :
    (x >>= f) = .ok b ↔ ∃ a, x = .ok a ∧ f a = .ok b := by
  cases x with
  | error e => simp [bind, Except.bind]
  | ok a => simp [bind, Except.bind]

theorem map_ok {x : Except ε α} {f : α → β} {b : β} :
    x.map f = .ok b ↔ ∃ a, x = .ok a ∧ f a = b := by
  cases x with
  | error e => simp [Except.map]
  | ok a => simp [Except.map]

theorem mapError_ok {x : Except ε α} {f : ε → ε'} {a : α} :
    x.mapError f = .ok a ↔ x = .ok a := by
  cases x <;> constructor <;> intro h <;> cases h <;> rfl

theorem pure_ok {a b : α} : (pure a : Except ε α) = .ok b ↔ a = b := by
  simp [pure, Except.pure]

end Framework
