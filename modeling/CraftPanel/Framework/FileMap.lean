import Mathlib.Data.List.Infix

/-!
# Files by their paths

What files a directory holds, each under the path that leads to it, its first name first. No file
is above another. A file is put where it belongs together with all directories above it, and in
place of whatever is there; whole parts are taken out, and what of them stays is told.
-/

namespace Framework

variable {ν κ : Type}

structure FileMap (ν κ : Type) where
  file : List ν → Option κ
  apart : ∀ p q, p <+: q → p ≠ q → (file p).isSome → file q = none

namespace FileMap

variable {m n : FileMap ν κ} {p q r : List ν} {body : κ} {spared : List ν → Bool}
  {named : List (List ν × κ)}

def empty : FileMap ν κ where
  file _ := none
  apart _ _ _ _ h := nomatch h

/-- No file is above. -/
def Free (m : FileMap ν κ) (p : List ν) : Prop := ∀ r ∈ p.inits, r ≠ p → m.file r = none

instance [DecidableEq ν] (m : FileMap ν κ) (p : List ν) : Decidable (m.Free p) :=
  have _ (r : List ν) : Decidable (m.file r = none) :=
    decidable_of_iff ((m.file r).isNone = true) Option.isNone_iff_eq_none
  inferInstanceAs (Decidable (∀ r ∈ p.inits, r ≠ p → m.file r = none))

@[simp] theorem empty_file : (empty : FileMap ν κ).file p = none := rfl

theorem not_free (h : r <+: p) (hne : r ≠ p) (hfile : (m.file r).isSome) : ¬ m.Free p := by
  intro hfree
  rw [hfree r ((List.mem_inits r p).mpr h) hne] at hfile
  cases hfile

variable [DecidableEq ν]

/-- What is at the path and below it goes, as far as it is not spared. -/
def cut (m : FileMap ν κ) (p : List ν) (spared : List ν → Bool) : FileMap ν κ where
  file q := if p <+: q ∧ spared q = false then none else m.file q
  apart q r hqr hne hq := by
    split at hq
    · cases hq
    · split
      · rfl
      · exact m.apart q r hqr hne hq

def put (m : FileMap ν κ) (p : List ν) (body : κ) (h : m.Free p) : FileMap ν κ where
  file q := if q = p then some body else if p <+: q then none else m.file q
  apart q r hqr hne hq := by
    by_cases hself : q = p
    · subst q
      rw [if_neg (Ne.symm hne), if_pos hqr]
    rw [if_neg hself] at hq
    by_cases hbelow : p <+: q
    · rw [if_pos hbelow] at hq
      cases hq
    rw [if_neg hbelow] at hq
    have hr : r ≠ p := by
      rintro rfl
      rw [h q ((List.mem_inits q r).mpr hqr) hne] at hq
      cases hq
    rw [if_neg hr]
    split
    · rfl
    · exact m.apart q r hqr hne hq

theorem cut_file : (m.cut p spared).file q =
    if p <+: q ∧ spared q = false then none else m.file q := rfl

theorem put_file {h : m.Free p} : (m.put p body h).file q =
    if q = p then some body else if p <+: q then none else m.file q := rfl

/-! ### One file after the other -/

def putAll : FileMap ν κ → List (List ν × κ) → Option (FileMap ν κ)
  | m, [] => some m
  | m, (p, body) :: rest => if h : m.Free p then putAll (m.put p body h) rest else none

theorem putAll_concat (h : putAll m named = some n) (hfree : n.Free p) :
    putAll m (named ++ [(p, body)]) = some (n.put p body hfree) := by
  induction named generalizing m with
  | nil =>
    cases h
    rw [List.nil_append, putAll, dif_pos hfree, putAll]
  | cons head rest ih =>
    rw [List.cons_append, putAll]
    rw [putAll] at h
    split at h
    next hhead => rw [dif_pos hhead, ih h]
    next => cases h

/-- What comes last under a path. -/
def lastAt (p : List ν) : List (List ν × κ) → Option κ
  | [] => none
  | (q, body) :: rest => match lastAt p rest with
    | some later => some later
    | none => if q = p then some body else none

theorem lastAt_isSome : (lastAt p named).isSome ↔ p ∈ named.map Prod.fst := by
  induction named with
  | nil => simp [lastAt]
  | cons head rest ih =>
    rw [lastAt]
    cases hlast : lastAt p rest with
    | some later =>
      rw [hlast] at ih
      simp [ih.mp rfl]
    | none =>
      rw [hlast] at ih
      have hrest : p ∉ rest.map Prod.fst := fun hmem => nomatch ih.mpr hmem
      by_cases hhead : head.1 = p
      · simp [hhead]
      · simp only [if_neg hhead, List.map_cons, List.mem_cons, hrest, Ne.symm hhead]
        simp

theorem lastAt_eq_none : lastAt p named = none ↔ p ∉ named.map Prod.fst := by
  rw [← lastAt_isSome, Option.not_isSome_iff_eq_none]

/-- A path below a file does not come in any more: whatever replaces the file is a file again. -/
theorem putAll_below (hfile : (m.file r).isSome) (hr : r <+: p) (hne : r ≠ p)
    (hp : p ∈ named.map Prod.fst) : putAll m named = none := by
  induction named generalizing m r with
  | nil => cases hp
  | cons head rest ih =>
    obtain ⟨q, body⟩ := head
    rw [putAll]
    split
    next hfree =>
      have hpq : q ≠ p := by
        rintro rfl
        exact not_free hr hne hfile hfree
      have hrest : p ∈ rest.map Prod.fst := by
        have hcons := List.mem_cons.mp hp
        exact hcons.resolve_left (Ne.symm hpq)
      by_cases hqr : q <+: r
      · -- the new file is above, or in place of, the one that was in the way
        have hself : ((m.put q body hfree).file q).isSome := by simp [put_file]
        exact ih hself (hqr.trans hr) hpq hrest
      have hrq : r ≠ q := by
        rintro rfl
        exact hqr List.prefix_rfl
      have hkept : ((m.put q body hfree).file r).isSome := by
        rw [put_file, if_neg hrq, if_neg hqr]
        exact hfile
      exact ih hkept hr hne hrest
    next => rfl

/-- A path keeps what came last under it, unless a file has come above it. -/
theorem putAll_file (h : putAll m named = some n) : n.file q =
    if ∃ p ∈ named.map Prod.fst, p <+: q ∧ p ≠ q then none
    else (lastAt q named).or (m.file q) := by
  induction named generalizing m with
  | nil =>
    cases h
    simp [lastAt]
  | cons head rest ih =>
    obtain ⟨p, body⟩ := head
    rw [putAll] at h
    split at h
    next hfree =>
      have hrest := ih h
      by_cases habove : p <+: q ∧ p ≠ q
      · have hlast : lastAt q rest = none := by
          rw [lastAt_eq_none]
          intro hmem
          have hself : ((m.put p body hfree).file p).isSome := by simp [put_file]
          rw [putAll_below hself habove.1 habove.2 hmem] at h
          cases h
        have hgone : (m.put p body hfree).file q = none := by
          rw [put_file, if_neg (Ne.symm habove.2), if_pos habove.1]
        rw [hlast, hgone] at hrest
        rw [if_pos ⟨p, List.mem_cons_self, habove⟩, hrest]
        simp
      · have hiff : (∃ x ∈ ((p, body) :: rest).map Prod.fst, x <+: q ∧ x ≠ q) ↔
            ∃ x ∈ rest.map Prod.fst, x <+: q ∧ x ≠ q := by
          simp only [List.map_cons, List.mem_cons, exists_eq_or_imp, habove, false_or]
        have hlast : (lastAt q rest).or ((m.put p body hfree).file q) =
            (lastAt q ((p, body) :: rest)).or (m.file q) := by
          rw [lastAt, put_file]
          by_cases hself : q = p
          · subst q
            cases lastAt p rest <;> simp
          · have hnot : ¬ p <+: q := fun hp => habove ⟨hp, Ne.symm hself⟩
            rw [if_neg hself, if_neg hnot, if_neg (Ne.symm hself)]
            cases lastAt q rest <;> simp
        rw [hrest, hlast]
        exact if_congr hiff.symm rfl rfl
    next => cases h

/-- All that came is there if and only if none of it is above another. -/
theorem putAll_whole (h : putAll m named = some n) :
    (∀ q ∈ named.map Prod.fst, n.file q = lastAt q named) ↔
      ∀ p ∈ named.map Prod.fst, ∀ q ∈ named.map Prod.fst, p <+: q → p = q := by
  constructor
  · intro hwhole p hp q hq hpq
    by_contra hne
    have hgone := putAll_file (q := q) h
    rw [if_pos ⟨p, hp, hpq, hne⟩, hwhole q hq] at hgone
    exact lastAt_eq_none.mp hgone hq
  · intro hapart q hq
    rw [putAll_file h, if_neg]
    · obtain ⟨body, hbody⟩ := Option.isSome_iff_exists.mp (lastAt_isSome.mpr hq)
      rw [hbody, Option.some_or]
    · rintro ⟨p, hp, hpq, hne⟩
      exact hne (hapart p hp q hq hpq)

end FileMap

end Framework
