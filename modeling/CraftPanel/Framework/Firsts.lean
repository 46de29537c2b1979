import Mathlib.Data.List.Find
import Mathlib.Data.List.Sort

/-!
# First elements

`List.find?` as the choice of a program that goes through a list: choices with a fallback, two
choices that come to the same element, and the choice that a stable sort makes; and what is left of
a sorted list behind its first elements.
-/

namespace Framework

variable {α : Type*} {l : List α} {p q : α → Bool} {a : α}

/-- A choice and its fallback are one choice. -/
theorem find?_or_find? : (l.find? p).or (l.find? q) =
    l.find? fun a => if l.any p then p a else q a := by
  cases hany : l.any p with
  | false =>
    have hnone : l.find? p = none := by simpa using hany
    simp [hnone]
  | true =>
    have hsome : (l.find? p).isSome = true := by simpa using hany
    rw [Option.or_of_isSome hsome]
    simp

/-- Two choices are the same where the first element that either takes is taken by both. -/
theorem find?_same_iff :
    (∃ a, l.find? p = some a ∧ l.find? q = some a) ↔
      (l.find? fun a => p a || q a).any (fun a => p a && q a) = true := by
  induction l with
  | nil => simp
  | cons a l ih =>
    cases hp : p a with
    | true =>
      cases hq : q a with
      | true => simp [hp, hq]
      | false =>
        refine iff_of_false ?_ (by simp [hp, hq])
        rintro ⟨b, hb, hb'⟩
        obtain rfl : a = b := by simpa [hp] using hb
        exact absurd (List.find?_some hb') (by simp [hq])
    | false =>
      cases hq : q a with
      | true =>
        refine iff_of_false ?_ (by simp [hp, hq])
        rintro ⟨b, hb, hb'⟩
        obtain rfl : a = b := by simpa [hq] using hb'
        exact absurd (List.find?_some hb) (by simp [hp])
      | false => simpa [hp, hq] using ih

/-- The head of a stable sort is the first of the least elements. -/
theorem head?_insertionSort {key : α → Nat} :
    (l.insertionSort fun a b => key a ≤ key b).head? =
      l.find? fun a => l.all fun b => key a ≤ key b := by
  induction l with
  | nil => rfl
  | cons a l ih =>
    rw [List.insertionSort_cons]
    cases hsorted : l.insertionSort fun a b => key a ≤ key b with
    | nil =>
      obtain rfl : l = [] := by
        have hlength := congrArg List.length hsorted
        rw [List.length_insertionSort] at hlength
        exact List.eq_nil_of_length_eq_zero hlength
      simp
    | cons b sorted =>
      rw [hsorted, List.head?_cons] at ih
      have hb : b ∈ l := List.mem_of_find?_eq_some ih.symm
      have hleast : ∀ c ∈ l, key b ≤ key c := by simpa using List.find?_some ih.symm
      by_cases hle : key a ≤ key b
      · have hall : ((a :: l).all fun c => key a ≤ key c) = true := by
          simpa using fun c hc => hle.trans (hleast c hc)
        rw [List.orderedInsert, if_pos hle, List.head?_cons]
        exact (List.find?_cons_of_pos (p := fun c => (a :: l).all fun d => key c ≤ key d) hall).symm
      have hnot : ¬ ((a :: l).all fun c => key a ≤ key c) = true := by
        simpa using ⟨b, hb, not_le.mp hle⟩
      rw [List.orderedInsert, if_neg hle, List.head?_cons, ih]
      refine Eq.trans ?_
        (List.find?_cons_of_neg (p := fun c => (a :: l).all fun d => key c ≤ key d) hnot).symm
      apply List.find?_congr
      intro c _
      -- Whatever is least in the rest is below `b`, and so below `a`.
      cases hc : l.all fun d => key c ≤ key d with
      | false => simp [hc]
      | true =>
        have hbelow : ∀ d ∈ l, key c ≤ key d := by simpa using hc
        have hca : key c ≤ key a := by
          have := hbelow b hb
          omega
        simp [hc, hca]

/-- The choice from a list in order comes before everything else that could have been chosen. -/
theorem find?_pairwise {r : α → α → Prop} {b : α} (h : l.Pairwise r) (ha : l.find? p = some a)
    (hb : b ∈ l) (hp : p b = true) : b = a ∨ r a b := by
  induction l with
  | nil => cases hb
  | cons c l ih =>
    obtain ⟨hc, hl⟩ := List.pairwise_cons.mp h
    by_cases hpc : p c = true
    · obtain rfl : c = a := by simpa [hpc] using ha
      rcases List.mem_cons.mp hb with hhead | hmem
      · exact .inl hhead
      · exact .inr (hc b hmem)
    · rw [List.find?_cons_of_neg hpc] at ha
      rcases List.mem_cons.mp hb with rfl | hmem
      · exact absurd hp hpc
      · exact ih hl ha hmem

/-- In a list in order, what lies behind the first elements has that many before it. -/
theorem mem_drop_iff {before : α → α → Bool} (hself : ∀ a, before a a = false)
    (hback : ∀ a b, before a b = true → before b a = false)
    (h : l.Pairwise fun a b => before a b = true) (ha : a ∈ l) (n : Nat) :
    a ∈ l.drop n ↔ n ≤ l.countP fun b => before b a := by
  induction l generalizing n with
  | nil => cases ha
  | cons b l ih =>
    obtain ⟨hb, hl⟩ := List.pairwise_cons.mp h
    cases n with
    | zero => simpa using ha
    | succ n =>
      rw [List.drop_succ_cons, List.countP_cons]
      rcases List.mem_cons.mp ha with rfl | hmem
      · have hnone : l.countP (fun b => before b a) = 0 := by
          rw [List.countP_eq_zero]
          intro c hc
          simp [hback a c (hb c hc)]
        have hnot : a ∉ l := by
          intro hmem
          have hlt := hb a hmem
          rw [hself a] at hlt
          cases hlt
        rw [hnone, hself a]
        exact iff_of_false (fun hdrop => hnot (List.mem_of_mem_drop hdrop)) (by simp)
      · rw [ih hl hmem n, hb a hmem, if_pos rfl]
        exact Nat.succ_le_succ_iff.symm

end Framework
