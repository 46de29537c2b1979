import Mathlib.Data.PEquiv

/-!
# What lies where

A file system by identity: each thing lies at one place at most, and at each place lies one thing at
most. To put a thing at a place takes it away from where it was, and takes away what was there.
-/

namespace Framework

/-- Where each thing lies, and what lies at each place. -/
abbrev Places (Thing Place : Type*) := Thing ≃. Place

namespace Places

variable {Thing Place : Type*} (places : Places Thing Place) {i j : Thing} {p q : Place}

/-- What lies at a place. -/
def lying (p : Place) : Option Thing := places.symm p

theorem lying_eq_some : places.lying p = some i ↔ places i = some p := places.mem_iff_mem

variable [DecidableEq Thing] [DecidableEq Place]

/-- The thing is taken away. -/
def take (i : Thing) : Places Thing Place where
  toFun j := if j = i then none else places j
  invFun q := if places i = some q then none else places.symm q
  inv j q := by
    have hiff : places.symm q = some j ↔ places j = some q := places.mem_iff_mem
    by_cases hj : j = i
    · subst hj
      by_cases hq : places j = some q
      · simp [hq]
      · simp [hq, hiff]
    · by_cases hq : places i = some q
      · have hother : places j ≠ some q := fun h => hj (places.inj h hq)
        simp [hj, hq, hother]
      · simp [hj, hq, hiff]

/-- The thing lies at the place from now on. -/
def put (i : Thing) (p : Place) : Places Thing Place where
  toFun j := if j = i then some p else if places j = some p then none else places j
  invFun q := if q = p then some i else if places i = some q then none else places.symm q
  inv j q := by
    have hiff : places.symm q = some j ↔ places j = some q := places.mem_iff_mem
    by_cases hq : q = p
    · subst hq
      by_cases hj : j = i
      · simp [hj]
      · by_cases hp : places j = some q
        · simp [hj, hp, Ne.symm hj]
        · simp [hj, hp, Ne.symm hj]
    by_cases hj : j = i
    · subst hj
      by_cases hold : places j = some q
      · simp [hq, hold, Ne.symm hq]
      · simp [hq, hold, hiff, Ne.symm hq]
    by_cases hold : places i = some q
    · have hother : places j ≠ some q := fun h => hj (places.inj h hold)
      by_cases hp : places j = some p
      · simp [hq, hj, hold, hp]
      · simp [hq, hj, hold, hp, hother]
    · by_cases hp : places j = some p
      · have hne : places j ≠ some q := fun h => hq (Option.some.inj (h.symm.trans hp))
        simp [hq, hj, hold, hp, hiff, Ne.symm hq]
      · simp [hq, hj, hold, hp, hiff]

theorem take_lying (h : places i = some p) : (places.take i).lying p = none := if_pos h

theorem put_self : places.put i p i = some p := if_pos rfl

theorem put_lying_self : (places.put i p).lying p = some i := if_pos rfl

/-- Nothing is left where a thing was. -/
theorem put_lying_old (h : places i = some q) (hne : q ≠ p) : (places.put i p).lying q = none :=
  (if_neg hne).trans (if_pos h)

theorem put_of_at (h : places i = some p) : places.put i p = places := by
  ext j q
  by_cases hj : j = i
  · subst hj
    simp [put_self, h]
  · have hother : places j ≠ some p := fun hp => hj (places.inj hp h)
    have hput : places.put i p j = places j := (if_neg hj).trans (if_neg hother)
    rw [hput]

/-- Elsewhere lies what lay there. -/
theorem put_lying_ne (hp : q ≠ p) (hq : places i ≠ some q) :
    (places.put i p).lying q = places.lying q := (if_neg hp).trans (if_neg hq)

theorem put_ne (hj : j ≠ i) (hp : places j ≠ some p) : places.put i p j = places j :=
  (if_neg hj).trans (if_neg hp)

/-- What lay at the place lies nowhere. -/
theorem put_displaced (hj : j ≠ i) (hp : places j = some p) : places.put i p j = none :=
  (if_neg hj).trans (if_pos hp)

theorem take_eq_none (h : places j = none) : places.take i j = none := by
  by_cases hj : j = i
  · exact if_pos hj
  · exact (if_neg hj).trans h

theorem put_eq_none (h : places j = none) (hne : j ≠ i) : places.put i p j = none := by
  refine (if_neg hne).trans ?_
  simp [h]

end Places

end Framework
