import Mathlib.Tactic.ByContra

/-!
# Edits of a record

An edit reads a record, names new values for some of its fields and writes a part of the record
back: the values it names, and in the rest of that part the ones it has read. Between the two
moments others may write, and what they wrote there is lost.
-/

namespace Framework

variable {Field : Type*} {Value : Field → Type*}

/-- The record with the named values in it. -/
def overlay (names : ∀ f, Option (Value f)) (base : ∀ f, Value f) : ∀ f, Value f :=
  fun f => (names f).getD (base f)

theorem overlay_of_none {names : ∀ f, Option (Value f)} {base : ∀ f, Value f} {f : Field}
    (h : names f = none) : overlay names base f = base f := by
  rw [overlay, h, Option.getD_none]

theorem overlay_congr {names : ∀ f, Option (Value f)} {base : ∀ f, Value f} {f : Field}
    (base' : ∀ f, Value f) (h : names f ≠ none) : overlay names base f = overlay names base' f := by
  obtain ⟨value, hvalue⟩ := Option.ne_none_iff_exists'.mp h
  rw [overlay, overlay, hvalue, Option.getD_some, Option.getD_some]

structure Edit (Value : Field → Type*) where
  read : ∀ f, Value f
  names : ∀ f, Option (Value f)
  covers : Field → Bool
  within : ∀ f, names f ≠ none → covers f = true

namespace Edit

variable (e : Edit Value) {now : ∀ f, Value f}

def write (now : ∀ f, Value f) : ∀ f, Value f :=
  fun f => if e.covers f then overlay e.names e.read f else now f

/-- What the edit writes back without naming it is what it would find now. -/
def Fresh (now : ∀ f, Value f) : Prop :=
  ∀ f, e.covers f = true → e.names f = none → e.read f = now f

/-- An edit changes what it names and nothing else just where it is fresh. -/
theorem write_eq_overlay_iff : (∀ f, e.write now f = overlay e.names now f) ↔ e.Fresh now := by
  apply forall_congr'
  intro f
  unfold write
  by_cases hcovers : e.covers f = true
  · rw [if_pos hcovers]
    by_cases hnames : e.names f = none
    · rw [overlay_of_none hnames, overlay_of_none hnames]
      simp [hcovers, hnames]
    · rw [overlay_congr now hnames]
      simp [hnames]
  · have hnames : e.names f = none := by
      by_contra hsome
      exact hcovers (e.within f hsome)
    rw [if_neg hcovers, overlay_of_none hnames]
    simp [hcovers]

end Edit

end Framework
