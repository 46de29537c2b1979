import CraftPanel.Framework.Edits
import CraftPanel.Framework.Feed
import CraftPanel.Settings.Runtimes

/-!
# Properties

`Properties` of `settings/properties.rs` as it is held between `parse` and `render`, and what
`settings/store.rs` does to one. To a reader of the keys a list of rows is an overlay, the last row
of a key being the one that counts.
-/

namespace CraftPanel.Settings

open Framework

inductive Line
  | verbatim (text : Text)
  | entry (key value : Text) (original : Option Text)
  deriving DecidableEq

namespace Line

def key? : Line → Option Text
  | verbatim _ => none
  | entry key _ _ => some key

def valueOf (key : Text) : Line → Option Text
  | verbatim _ => none
  | entry found value _ => if found = key then some value else none

def replaceFirst (key value : Text) : List Line → Option (List Line)
  | [] => none
  | verbatim text :: rest => (replaceFirst key value rest).map (verbatim text :: ·)
  | entry found held original :: rest =>
    if found = key then
      some ((if held = value then entry found held original else entry found value none) :: rest)
    else (replaceFirst key value rest).map (entry found held original :: ·)

variable {key value other : Text} {lines replaced : List Line}

theorem findSome?_replaceFirst (h : replaceFirst key value lines = some replaced) :
    replaced.findSome? (valueOf other) =
      if other = key then some value else lines.findSome? (valueOf other) := by
  induction lines generalizing replaced with
  | nil => cases h
  | cons line lines ih =>
    cases line with
    | verbatim text =>
      obtain ⟨rest, hrest, rfl⟩ := Option.map_eq_some_iff.mp h
      rw [List.findSome?_cons, List.findSome?_cons]
      exact ih hrest
    | entry found held original =>
      simp only [replaceFirst] at h
      split at h
      · next hfound =>
        cases h
        subst hfound
        by_cases hother : other = found
        · subst hother
          split <;> simp_all [valueOf]
        · have hnot : found ≠ other := fun hsame => hother hsame.symm
          rw [if_neg hother]
          split <;> simp [valueOf, hnot]
      · next hfound =>
        obtain ⟨rest, hrest, rfl⟩ := Option.map_eq_some_iff.mp h
        have htail := ih hrest
        by_cases hother : found = other
        · subst hother
          simp [valueOf, hfound]
        · simpa [valueOf, hother] using htail

theorem findSome?_of_replaceFirst_none (h : replaceFirst key value lines = none) :
    lines.findSome? (valueOf key) = none := by
  induction lines with
  | nil => rfl
  | cons line lines ih =>
    cases line with
    | verbatim text =>
      rw [List.findSome?_cons]
      exact ih (Option.map_eq_none_iff.mp h)
    | entry found held original =>
      simp only [replaceFirst] at h
      split at h
      · cases h
      · next hfound =>
        rw [List.findSome?_cons, valueOf, if_neg hfound]
        exact ih (Option.map_eq_none_iff.mp h)

end Line

structure Properties where
  lines : List Line := []
  deriving DecidableEq

/-- A key and what it is to be: a value, or away. -/
abbrev Override := Text × Option Text

namespace Properties

variable (p : Properties)

def get (key : Text) : Option Text := p.lines.reverse.findSome? (Line.valueOf key)

def set (key value : Text) : Properties :=
  match Line.replaceFirst key value p.lines.reverse with
  | some lines => ⟨lines.reverse⟩
  | none => ⟨p.lines ++ [.entry key value none]⟩

def remove (key : Text) : Properties := ⟨p.lines.filter fun line => line.key? ≠ some key⟩

def keys : List Text := p.lines.filterMap Line.key?

def applyOne (p : Properties) : Override → Properties
  | (key, some value) => p.set key value
  | (key, none) => p.remove key

def apply (wanted : List Override) : Properties := wanted.foldl applyOne p

end Properties

def named (wanted : List Override) (key : Text) : Option (Option Text) :=
  latest (fun row => if row.1 = key then some row.2 else none) wanted none

section Gets

variable {p : Properties} {key value other : Text} {wanted : List Override}

theorem get_set :
    (p.set key value).get other = if other = key then some value else p.get other := by
  unfold Properties.set
  split
  · next lines hlines =>
    rw [Properties.get, List.reverse_reverse, Line.findSome?_replaceFirst hlines]
    rfl
  next hnone =>
  have hgone := Line.findSome?_of_replaceFirst_none hnone
  unfold Properties.get
  rw [List.reverse_append, List.findSome?_append]
  by_cases hother : other = key
  · subst hother
    simp [Line.valueOf]
  · have hnot : key ≠ other := fun hsame => hother hsame.symm
    simp [Line.valueOf, hother, hnot]

theorem valueOf_eq_none {line : Line} (h : line.key? ≠ some key) : line.valueOf key = none := by
  cases line with
  | verbatim text => rfl
  | entry found value original =>
    apply if_neg
    intro hsame
    exact h (congrArg some hsame)

theorem get_remove : (p.remove key).get other = if other = key then none else p.get other := by
  unfold Properties.get Properties.remove
  rw [← List.filter_reverse]
  induction p.lines.reverse with
  | nil => simp
  | cons line lines ih =>
    rw [List.filter_cons]
    split
    · next hkeeps =>
      rw [List.findSome?_cons, List.findSome?_cons, ih]
      by_cases hother : other = key
      · subst hother
        rw [valueOf_eq_none (by simpa using hkeeps)]
      · simp [hother]
    · next hdrops =>
      rw [List.findSome?_cons, ih]
      by_cases hother : other = key
      · simp [hother]
      have hkey : line.key? = some key := by simpa using hdrops
      have hnot : line.key? ≠ some other := by
        rw [hkey]
        exact fun hsame => hother (Option.some.inj hsame).symm
      rw [valueOf_eq_none hnot]

theorem get_eq_none (h : key ∉ p.keys) : p.get key = none := by
  unfold Properties.get
  rw [List.findSome?_eq_none_iff]
  intro line hline
  apply valueOf_eq_none
  intro hkey
  exact h (List.mem_filterMap.mpr ⟨line, List.mem_reverse.mp hline, hkey⟩)

@[simp] theorem named_nil : named [] key = none := rfl

theorem named_cons (row : Override) :
    named (row :: wanted) key = (named wanted key).or (if row.1 = key then some row.2 else none) := by
  unfold named
  rw [latest_cons, Option.or_none, latest_eq]

theorem named_concat (row : Override) :
    named (wanted ++ [row]) key = (if row.1 = key then some row.2 else none).or (named wanted key) :=
  latest_concat

theorem named_eq_none_iff : named wanted key = none ↔ ∀ row ∈ wanted, row.1 ≠ key := by
  induction wanted with
  | nil => simp [named, latest]
  | cons row wanted ih =>
    rw [named_cons, Option.or_eq_none_iff, ih]
    simp [and_comm]

theorem mem_of_named {found : Option Text} (h : named wanted key = some found) :
    (key, found) ∈ wanted := by
  induction wanted with
  | nil => cases h
  | cons row wanted ih =>
    rw [named_cons] at h
    cases htail : named wanted key with
    | some held =>
      rw [htail] at h
      cases h
      exact List.mem_cons_of_mem row (ih htail)
    | none =>
      rw [htail, Option.none_or] at h
      split at h
      · next hkey =>
        cases h
        rw [← hkey]
        exact List.mem_cons_self
      · cases h

theorem get_applyOne {row : Override} :
    (p.applyOne row).get key = (named [row] key).getD (p.get key) := by
  obtain ⟨found, value⟩ := row
  rw [named_cons, named_nil, Option.none_or]
  cases value with
  | some value =>
    show (p.set found value).get key = _
    rw [get_set]
    by_cases hsame : key = found
    · simp [hsame]
    · have hnot : found ≠ key := fun h => hsame h.symm
      simp [hsame, hnot]
  | none =>
    show (p.remove found).get key = _
    rw [get_remove]
    by_cases hsame : key = found
    · simp [hsame]
    · have hnot : found ≠ key := fun h => hsame h.symm
      simp [hsame, hnot]

theorem get_apply :
    (p.apply wanted).get key = (named wanted key).getD (p.get key) := by
  induction wanted generalizing p with
  | nil => rfl
  | cons row wanted ih =>
    show ((p.applyOne row).apply wanted).get key = _
    rw [ih, named_cons, get_applyOne, named_cons, named_nil, Option.none_or]
    cases named wanted key with
    | some value => rfl
    | none => rfl

end Gets

end CraftPanel.Settings
