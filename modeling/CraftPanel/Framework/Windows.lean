import Mathlib.Data.List.Basic
import Mathlib.Data.List.Count

/-!
# Times and the windows over them

The times of what has happened, the last first. A list is sparse when each time has fewer than a
limit of those before it behind it within a span, and paced when each also keeps a distance from
them. Looking back from each time is enough: no window of that span, wherever it begins, holds more
than the limit.
-/

namespace Framework

variable {gap span limit t u : Nat} {times before : List Nat}

/-- Of the times before each one fewer than `limit` are within `span`. -/
def Sparse (span limit : Nat) : List Nat → Prop
  | [] => True
  | t :: before => before.countP (fun u => t < u + span) < limit ∧ Sparse span limit before

/-- No window holds more than the limit. -/
theorem Sparse.count_le (h : Sparse span limit times) (start : Nat) :
    times.countP (fun u => start ≤ u ∧ u < start + span) ≤ limit := by
  induction times with
  | nil => exact Nat.zero_le _
  | cons t before ih =>
    by_cases hin : start ≤ t ∧ t < start + span
    · have hback : before.countP (fun u => start ≤ u ∧ u < start + span) ≤
          before.countP fun u => t < u + span := by
        apply List.countP_mono_left
        intro u _ hu
        simp only [decide_eq_true_eq] at hu ⊢
        omega
      rw [List.countP_cons_of_pos (by simpa using hin)]
      have := h.1
      omega
    · rw [List.countP_cons_of_neg (by simpa using hin)]
      exact ih h.2

/-- Nor does the window that ends now, once the last time is past. -/
theorem Sparse.recent_le (h : Sparse span limit times) {now : Nat} (hpast : ∀ t ∈ times, t ≤ now) :
    times.countP (fun u => now < u + span) ≤ limit := by
  cases times with
  | nil => simp
  | cons t before =>
    have ht : t ≤ now := hpast t (by simp)
    have hback : before.countP (fun u => now < u + span) ≤ before.countP fun u => t < u + span := by
      apply List.countP_mono_left
      intro u _ hu
      simp only [decide_eq_true_eq] at hu ⊢
      omega
    have hfew := h.1
    rw [List.countP_cons]
    split <;> omega

/-- Fewer times are as sparse. -/
theorem Sparse.sublist {fewer : List Nat} (h : Sparse span limit times)
    (hsub : fewer.Sublist times) : Sparse span limit fewer := by
  induction hsub with
  | slnil => trivial
  | cons t _ ih => exact ih h.2
  | cons_cons t hsub ih => exact ⟨Nat.lt_of_le_of_lt hsub.countP_le h.1, ih h.2⟩

/-- Off an ascending queue, what is dropped at the front is all there is to drop. -/
theorem dropWhile_eq_filter {α : Type*} {test : α → Bool} {queue : List α}
    (h : queue.Pairwise fun a b => test b = true → test a = true) :
    queue.dropWhile test = queue.filter fun a => !test a := by
  induction queue with
  | nil => rfl
  | cons a queue ih =>
    have hrest := List.pairwise_cons.mp h
    by_cases ha : test a = true
    · simp [ha, ih hrest.2]
    have hkeep : queue.filter (fun b => !test b) = queue := by
      apply List.filter_eq_self.mpr
      intro b hb
      cases hb' : test b with
      | true => exact absurd (hrest.1 b hb hb') ha
      | false => rfl
    simp [ha, hkeep]

/-- Each time is `gap` after those before, and fewer than `limit` of these are within `span`. -/
def Paced (gap span limit : Nat) : List Nat → Prop
  | [] => True
  | t :: before => (∀ u ∈ before, u + gap ≤ t) ∧
    before.countP (fun u => t < u + span) < limit ∧ Paced gap span limit before

theorem Paced.apart (h : Paced gap span limit times) :
    times.Pairwise fun later earlier => earlier + gap ≤ later := by
  induction times with
  | nil => exact .nil
  | cons t before ih => exact List.pairwise_cons.mpr ⟨h.1, ih h.2.2⟩

theorem Paced.sparse (h : Paced gap span limit times) : Sparse span limit times := by
  induction times with
  | nil => trivial
  | cons t before ih => exact ⟨h.2.1, ih h.2.2⟩

theorem Paced.count_le (h : Paced gap span limit times) (start : Nat) :
    times.countP (fun u => start ≤ u ∧ u < start + span) ≤ limit :=
  h.sparse.count_le start

end Framework
