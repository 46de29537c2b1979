import Mathlib.Data.List.Basic

/-!
# Lists of which one element moves

The parties of a machine stand in a list, and a step takes the one at a place further or away. The
others are not touched: what one of them stands for, one of the list after the step stands for.
-/

namespace Framework

variable {α : Type*} {l : List α} {i : Nat} {a b c : α} {P : α → Prop} {p : α → Bool}

theorem mem_set_of_mem (hi : l[i]? = some b) (ha : a ∈ l) : a ∈ l.set i c ∨ a = b := by
  obtain ⟨j, hj⟩ := List.mem_iff_getElem?.mp ha
  by_cases hij : i = j
  · subst hij
    exact .inr (Option.some.inj (hj.symm.trans hi))
  · exact .inl (List.mem_of_getElem? ((List.getElem?_set_ne hij).trans hj))

theorem mem_eraseIdx_of_mem (hi : l[i]? = some b) (ha : a ∈ l) : a ∈ l.eraseIdx i ∨ a = b := by
  obtain ⟨j, hj⟩ := List.mem_iff_getElem?.mp ha
  by_cases hij : i = j
  · subst hij
    exact .inr (Option.some.inj (hj.symm.trans hi))
  · exact .inl (List.mem_eraseIdx_iff_getElem?.mpr ⟨j, fun h => hij h.symm, hj⟩)

theorem mem_set_self (hi : l[i]? = some a) (b : α) : b ∈ l.set i b := by
  obtain ⟨hlt, -⟩ := List.getElem?_eq_some_iff.mp hi
  exact List.mem_set hlt b

/-- What stands in the list once the element at a place is another one: that one and the rest. -/
theorem mem_set_iff_eraseIdx (hi : l[i]? = some a) : c ∈ l.set i b ↔ c = b ∨ c ∈ l.eraseIdx i := by
  obtain ⟨hlt, -⟩ := List.getElem?_eq_some_iff.mp hi
  rw [List.set_eq_take_cons_drop _ hlt, List.eraseIdx_eq_take_drop_succ]
  simp only [List.mem_append, List.mem_cons]
  tauto

/-- The element at a place goes with all the others as they do with it. -/
theorem pairwise_eraseIdx {R : α → α → Prop} (hsymm : ∀ {x y}, R x y → R y x)
    (hi : l[i]? = some a) (h : l.Pairwise R) (hb : b ∈ l.eraseIdx i) : R a b := by
  induction l generalizing i with
  | nil => cases hi
  | cons c l ih =>
    obtain ⟨hc, hl⟩ := List.pairwise_cons.mp h
    cases i with
    | zero =>
      cases hi
      exact hc b hb
    | succ i =>
      rcases List.mem_cons.mp hb with rfl | hmem
      · exact hsymm (hc a (List.mem_of_getElem? hi))
      · exact ih hi hl hmem

/-! ### What some element stands for -/

theorem exists_mem_set (hi : l[i]? = some a) (hab : P a → P b) (h : ∃ x ∈ l, P x) :
    ∃ x ∈ l.set i b, P x := by
  obtain ⟨x, hx, hP⟩ := h
  rcases mem_set_of_mem (c := b) hi hx with hmem | rfl
  · exact ⟨x, hmem, hP⟩
  · exact ⟨b, mem_set_self hi b, hab hP⟩

theorem exists_mem_eraseIdx (hi : l[i]? = some a) (hnot : ¬ P a) (h : ∃ x ∈ l, P x) :
    ∃ x ∈ l.eraseIdx i, P x := by
  obtain ⟨x, hx, hP⟩ := h
  rcases mem_eraseIdx_of_mem hi hx with hmem | rfl
  · exact ⟨x, hmem, hP⟩
  · exact absurd hP hnot

/-- The element at a place goes on as another one, or is gone. -/
def moved (l : List α) (i : Nat) : Option α → List α
  | some next => l.set i next
  | none => l.eraseIdx i

theorem mem_of_moved {next : Option α} (h : a ∈ moved l i next) : a ∈ l ∨ next = some a := by
  cases next with
  | none => exact .inl (List.mem_of_mem_eraseIdx h)
  | some next =>
    refine (List.mem_or_eq_of_mem_set h).imp_right fun hsame => ?_
    rw [hsame]

theorem exists_moved {next : Option α} (hi : l[i]? = some a)
    (hnext : P a → ∃ b, next = some b ∧ P b) (h : ∃ x ∈ l, P x) : ∃ x ∈ moved l i next, P x := by
  cases next with
  | none =>
    apply exists_mem_eraseIdx hi _ h
    intro hP
    obtain ⟨_, hnone, -⟩ := hnext hP
    cases hnone
  | some next =>
    apply exists_mem_set hi _ h
    intro hP
    obtain ⟨_, hsome, hPb⟩ := hnext hP
    cases hsome
    exact hPb

/-! ### How many elements pass a test -/

theorem countP_set_add (h : l[i]? = some a) :
    (l.set i b).countP p + (if p a then 1 else 0) = l.countP p + (if p b then 1 else 0) := by
  induction l generalizing i with
  | nil => simp at h
  | cons c l ih =>
    cases i with
    | zero =>
      obtain rfl : c = a := by simpa using h
      simp only [List.set_cons_zero, List.countP_cons]
      omega
    | succ i =>
      have htail := ih (i := i) (by simpa using h)
      simp only [List.set_cons_succ, List.countP_cons]
      omega

theorem countP_eraseIdx_add (h : l[i]? = some a) :
    (l.eraseIdx i).countP p + (if p a then 1 else 0) = l.countP p := by
  induction l generalizing i with
  | nil => simp at h
  | cons c l ih =>
    cases i with
    | zero =>
      obtain rfl : c = a := by simpa using h
      simp only [List.eraseIdx_cons_zero, List.countP_cons]
    | succ i =>
      have htail := ih (i := i) (by simpa using h)
      simp only [List.eraseIdx_cons_succ, List.countP_cons]
      omega

end Framework
