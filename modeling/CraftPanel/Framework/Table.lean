import Mathlib.Algebra.GroupWithZero.Nat
import Mathlib.Data.List.Perm.Subperm
import Mathlib.Data.List.Nodup
import Mathlib.Algebra.Order.BigOperators.Group.List
import Mathlib.Algebra.Order.Group.Nat

/-!
# Keyed tables

A database table as the list of its rows, with the primary key's uniqueness as a field. Rows
change by `modify`, which is an `UPDATE … WHERE key = ?`, and arrive by `insert`, which refuses
a key that is taken.
-/

namespace Framework

/-- Rows in insertion order, no two with the same primary key. -/
structure Table {Row Key : Type*} (key : Row → Key) where
  rows : List Row
  unique : (rows.map key).Nodup

namespace Table

variable {Row Key : Type*} {key : Row → Key}

def empty : Table key := ⟨[], List.nodup_nil⟩

def single (row : Row) : Table key := ⟨[row], List.nodup_singleton _⟩

instance : Inhabited (Table key) := ⟨empty⟩

/-- The rows that satisfy a test, in order. -/
def select (t : Table key) (test : Row → Bool) : List Row := t.rows.filter test

def count (t : Table key) (test : Row → Bool) : Nat := t.rows.countP test

variable [DecidableEq Key]

def find? (t : Table key) (k : Key) : Option Row := t.rows.find? fun r => key r = k

/-- Rewrite every row; no key changes. -/
def map (t : Table key) (f : Row → Row) (hf : ∀ r, key (f r) = key r) : Table key where
  rows := t.rows.map f
  unique := by
    have h : key ∘ f = key := funext hf
    simpa [List.map_map, h] using t.unique

/-- Rewrite the row of one key; the key itself does not change. -/
def modify (t : Table key) (k : Key) (f : Row → Row) (hf : ∀ r, key (f r) = key r) : Table key :=
  t.map (fun r => if key r = k then f r else r) fun r => by split <;> simp [hf]

/-- Add a row, unless its key is taken. -/
def insert (t : Table key) (r : Row) : Option (Table key) :=
  if h : key r ∈ t.rows.map key then none
  else some ⟨t.rows ++ [r], by
    rw [List.map_append, List.map_cons, List.map_nil]
    exact t.unique.append (List.nodup_singleton _) (by simpa using h)⟩

/-- Delete the row of one key. -/
def erase (t : Table key) (k : Key) : Table key where
  rows := t.rows.filter fun r => key r ≠ k
  unique := t.unique.sublist (List.filter_sublist.map key)

/-- Delete the rows that satisfy a test. -/
def discard (t : Table key) (test : Row → Bool) : Table key where
  rows := t.rows.filter fun r => !test r
  unique := t.unique.sublist (List.filter_sublist.map key)

variable {t : Table key} {k : Key} {r : Row}

theorem find?_key (h : t.find? k = some r) : key r = k := by
  simpa using List.find?_some h

theorem find?_mem (h : t.find? k = some r) : r ∈ t.rows :=
  List.mem_of_find?_eq_some h

theorem find?_of_mem (h : r ∈ t.rows) : t.find? (key r) = some r := by
  obtain ⟨rows, hu⟩ := t
  simp only [find?] at h ⊢
  induction rows with
  | nil => simp at h
  | cons a rows ih =>
    rw [List.map_cons, List.nodup_cons] at hu
    rcases List.mem_cons.mp h with rfl | h
    · simp
    · have ha : key a ≠ key r := fun he => hu.1 (he ▸ List.mem_map_of_mem h)
      simpa [List.find?_cons, ha] using ih hu.2 h

theorem mem_iff_find? : r ∈ t.rows ↔ t.find? (key r) = some r :=
  ⟨find?_of_mem, find?_mem⟩

theorem find?_none : t.find? k = none ↔ k ∉ t.rows.map key := by
  simp [find?]

theorem find?_map (t : Table key) (k : Key) (f : Row → Row) (hf : ∀ r, key (f r) = key r) :
    (t.map f hf).find? k = (t.find? k).map f := by
  obtain ⟨rows, hu⟩ := t
  simp only [find?, map]
  clear hu
  induction rows with
  | nil => rfl
  | cons a rows ih =>
    by_cases ha : key a = k
    · simp [ha, hf]
    · simpa [List.find?_cons, ha, hf] using ih

theorem find?_modify (t : Table key) (k j : Key) (f : Row → Row) (hf : ∀ r, key (f r) = key r) :
    (t.modify k f hf).find? j = if j = k then (t.find? j).map f else t.find? j := by
  rw [modify, find?_map]
  cases h : t.find? j with
  | none => simp
  | some r =>
    simp only [Option.map_some, find?_key h]
    split <;> rfl

theorem mem_modify {f : Row → Row} (hf : ∀ r, key (f r) = key r) (h : r ∈ (t.modify k f hf).rows) :
    ∃ old ∈ t.rows, r = old ∨ key old = k ∧ r = f old := by
  obtain ⟨old, hold, rfl⟩ := List.mem_map.mp h
  refine ⟨old, hold, ?_⟩
  split
  · rename_i hkey
    exact .inr ⟨hkey, rfl⟩
  · exact .inl rfl

theorem find?_modify_same (t : Table key) (k : Key) (f : Row → Row)
    (hf : ∀ r, key (f r) = key r) : (t.modify k f hf).find? k = (t.find? k).map f := by
  simp [find?_modify]

variable {t' : Table key}

theorem find?_insert (h : t.insert r = some t') (k : Key) :
    t'.find? k = if k = key r then some r else t.find? k := by
  unfold insert at h
  split at h
  · simp at h
  rename_i hn
  cases h
  simp only [find?, List.find?_append, List.find?_cons, List.find?_nil]
  by_cases hk : k = key r
  · subst hk
    have : t.find? (key r) = none := find?_none.mpr hn
    simp only [find?] at this
    simp [this]
  · have : ¬ key r = k := fun he => hk he.symm
    simp [hk, this]

theorem rows_of_insert (h : t.insert r = some t') :
    t'.rows = t.rows ++ [r] := by
  unfold insert at h
  split at h
  · simp at h
  · rw [← (Option.some.injEq _ _).mp h]

/-- What is inserted was not there. -/
theorem fresh_of_insert (h : t.insert r = some t') :
    key r ∉ t.rows.map key := by
  unfold insert at h
  split at h
  · cases h
  · next hnot => exact hnot

/-- An insert takes no row away. -/
theorem find?_of_insert {r a : Row} (h : t.insert r = some t')
    (ha : t.find? k = some a) : t'.find? k = some a := by
  rw [find?_insert h]
  split
  · rename_i hk
    unfold insert at h
    split at h
    · simp at h
    rename_i hn
    have hmem : key r ∈ t.rows.map key := by
      rw [← hk, ← find?_key ha]
      exact List.mem_map_of_mem (find?_mem ha)
    exact absurd hmem hn
  · exact ha

theorem find?_erase_ne (t : Table key) {k j : Key} (h : j ≠ k) :
    (t.erase k).find? j = t.find? j := by
  simp only [find?, erase, List.find?_filter]
  congr 1
  funext r
  by_cases hr : key r = j
  · simp [hr, h]
  · simp [hr]

@[simp] theorem find?_erase_same (t : Table key) (k : Key) : (t.erase k).find? k = none := by
  simp [find?, erase]

theorem find?_discard (t : Table key) (test : Row → Bool) (k : Key) :
    (t.discard test).find? k = (t.find? k).filter fun r => !test r := by
  cases h : t.find? k with
  | none =>
    have hgone : k ∉ (t.discard test).rows.map key :=
      fun hmem => (find?_none.mp h) ((List.filter_sublist.map key).subset hmem)
    rw [find?_none.mpr hgone]
    rfl
  | some r =>
    have hkey := find?_key h
    cases htest : test r with
    | false =>
      have hmem : r ∈ (t.discard test).rows := List.mem_filter.mpr ⟨find?_mem h, by simp [htest]⟩
      rw [← hkey, find?_of_mem hmem]
      rw [Option.filter_some_pos (by simp [htest])]
    | true =>
      have hgone : k ∉ (t.discard test).rows.map key := by
        intro hmem
        obtain ⟨other, hother, hk⟩ := List.mem_map.mp hmem
        obtain ⟨hin, hkept⟩ := List.mem_filter.mp hother
        have hsame : other = r := Option.some.inj ((find?_of_mem hin).symm.trans (hk ▸ h))
        simp [hsame, htest] at hkept
      rw [find?_none.mpr hgone]
      rw [Option.filter_some_neg (by simp [htest])]

variable {test : Row → Bool}

omit [DecidableEq Key] in
/-- A count of zero means that no row passes the test. -/
theorem count_eq_zero :
    t.count test = 0 ↔ ∀ r ∈ t.rows, test r = false := by
  simp [count, List.countP_eq_zero]

/-- Distinct keys whose rows all pass a test are at most as many as the rows that pass it. -/
theorem length_le_count {ks : List Key} (hn : ks.Nodup)
    (h : ∀ k ∈ ks, ∃ r, t.find? k = some r ∧ test r = true) : ks.length ≤ t.count test := by
  have hsub : ks ⊆ (t.rows.filter test).map key := by
    intro k hk
    obtain ⟨r, hr, ht⟩ := h k hk
    exact List.mem_map.mpr ⟨r, List.mem_filter.mpr ⟨find?_mem hr, ht⟩, find?_key hr⟩
  calc ks.length ≤ ((t.rows.filter test).map key).length := (List.subperm_of_subset hn hsub).length_le
    _ = t.count test := by rw [List.length_map, count, List.countP_eq_length_filter]

theorem mem_keys :
    k ∈ (t.rows.filter test).map key ↔ ∃ r, t.find? k = some r ∧ test r = true := by
  constructor
  · intro hmem
    obtain ⟨r, hr, hkey⟩ := List.mem_map.mp hmem
    obtain ⟨hrow, htest⟩ := List.mem_filter.mp hr
    exact ⟨r, hkey ▸ find?_of_mem hrow, htest⟩
  · rintro ⟨r, hr, htest⟩
    exact List.mem_map.mpr ⟨r, List.mem_filter.mpr ⟨find?_mem hr, htest⟩, find?_key hr⟩

/-- Where every row that passes the test stands for one that passed before, there are no more. -/
theorem count_le_of_find?
    (h : ∀ k r', t'.find? k = some r' → test r' = true →
      ∃ r, t.find? k = some r ∧ test r = true) : t'.count test ≤ t.count test := by
  have hnodup : ((t'.rows.filter test).map key).Nodup :=
    t'.unique.sublist (List.filter_sublist.map key)
  have hle : ((t'.rows.filter test).map key).length ≤ t.count test := by
    apply length_le_count hnodup
    intro k hk
    obtain ⟨r', hr', htest⟩ := mem_keys.mp hk
    exact h k r' hr' htest
  rwa [List.length_map, ← List.countP_eq_length_filter] at hle

/-- One of those that passed does not pass any more. -/
theorem count_lt_of_find?
    (h : ∀ k r', t'.find? k = some r' → test r' = true →
      ∃ r, t.find? k = some r ∧ test r = true)
    (hk : ∃ r, t.find? k = some r ∧ test r = true)
    (hgone : ∀ r', t'.find? k = some r' → test r' = false) : t'.count test < t.count test := by
  have hnotin : k ∉ (t'.rows.filter test).map key := by
    intro hmem
    obtain ⟨r', hr', htest⟩ := mem_keys.mp hmem
    rw [hgone r' hr'] at htest
    cases htest
  have hnodup : ((t'.rows.filter test).map key).Nodup :=
    t'.unique.sublist (List.filter_sublist.map key)
  have hle : (k :: (t'.rows.filter test).map key).length ≤ t.count test := by
    apply length_le_count (List.nodup_cons.mpr ⟨hnotin, hnodup⟩)
    intro j hj
    rcases List.mem_cons.mp hj with rfl | hj
    · exact hk
    · obtain ⟨r', hr', htest⟩ := mem_keys.mp hj
      exact h j r' hr' htest
  rwa [List.length_cons, List.length_map, ← List.countP_eq_length_filter] at hle

/-- Where only the row of one key may have stopped to pass, the count has lost one at most. -/
theorem count_le_succ
    (h : ∀ j r, j ≠ k → t.find? j = some r → test r = true →
      ∃ r', t'.find? j = some r' ∧ test r' = true) : t.count test ≤ t'.count test + 1 := by
  have hnodup : ((t.rows.filter test).map key).Nodup :=
    t.unique.sublist (List.filter_sublist.map key)
  have hle : (((t.rows.filter test).map key).erase k).length ≤ t'.count test := by
    apply length_le_count (hnodup.erase k)
    intro j hj
    obtain ⟨hne, hmem⟩ := hnodup.mem_erase_iff.mp hj
    obtain ⟨r, hr, htest⟩ := mem_keys.mp hmem
    exact h j r hne hr htest
  have hlength : t.count test = ((t.rows.filter test).map key).length := by
    rw [List.length_map, count, List.countP_eq_length_filter]
  have herase := List.length_erase (a := k) (l := (t.rows.filter test).map key)
  split at herase <;> omega

/-! ### How many rows pass a test -/

section Counting

omit [DecidableEq Key]

variable {t : Table key} {test : Row → Bool}

theorem count_discard_le (gone : Row → Bool) : (t.discard gone).count test ≤ t.count test :=
  List.filter_sublist.countP_le

theorem count_map {f : Row → Row} {hf : ∀ r, key (f r) = key r}
    (hsame : ∀ r ∈ t.rows, test (f r) = test r) : (t.map f hf).count test = t.count test := by
  show (t.rows.map f).countP test = t.rows.countP test
  rw [List.countP_map]
  apply List.countP_congr
  intro r hr
  rw [Function.comp_apply, hsame r hr]

/-- Where a test holds of no two rows, one row that passes it is the only one. -/
theorem count_eq_one_iff (hone : ∀ a ∈ t.rows, ∀ b ∈ t.rows, test a → test b → key a = key b) :
    t.count test = 1 ↔ ∃ r ∈ t.rows, test r := by
  have hkeys : ((t.rows.filter test).map key).Nodup :=
    t.unique.sublist (List.filter_sublist.map key)
  rw [count, List.countP_eq_length_filter]
  have hmem : ∀ r, r ∈ t.rows.filter test ↔ r ∈ t.rows ∧ test r := fun r => List.mem_filter
  cases hrows : t.rows.filter test with
  | nil =>
    rw [hrows] at hmem
    refine iff_of_false (by simp) ?_
    rintro ⟨r, hr, htest⟩
    exact absurd ((hmem r).mpr ⟨hr, htest⟩) List.not_mem_nil
  | cons a rest =>
    rw [hrows] at hmem hkeys
    have ha := (hmem a).mp List.mem_cons_self
    refine iff_of_true ?_ ⟨a, ha⟩
    cases rest with
    | nil => rfl
    | cons b rest =>
      have hb := (hmem b).mp (List.mem_cons_of_mem a List.mem_cons_self)
      have hsame := hone a ha.1 b hb.1 ha.2 hb.2
      simp [hsame] at hkeys

end Counting

theorem count_insert {p : Row → Bool} (h : t.insert r = some t') :
    t'.count p = t.count p + if p r then 1 else 0 := by
  rw [count, rows_of_insert h, List.countP_append, List.countP_singleton]
  rfl

/-! ### Sums over the rows -/

/-- `SELECT sum(…)`. -/
def sum (t : Table key) (w : Row → Nat) : Nat := (t.rows.map w).sum

section Summing

variable {t t' : Table key} {k : Key} {r : Row} {w w' : Row → Nat}

omit [DecidableEq Key] in
theorem sum_congr (h : ∀ r ∈ t.rows, w r = w' r) : t.sum w = t.sum w' :=
  congrArg List.sum (List.map_congr_left h)

omit [DecidableEq Key] in
theorem sum_le_sum (h : ∀ r ∈ t.rows, w r ≤ w' r) : t.sum w ≤ t.sum w' :=
  List.sum_le_sum h

omit [DecidableEq Key] in
theorem sum_map {f : Row → Row} {hf : ∀ r, key (f r) = key r} :
    (t.map f hf).sum w = t.sum fun r => w (f r) := by
  simp [sum, map, List.map_map, Function.comp_def]

theorem sum_insert (h : t.insert r = some t') : t'.sum w = t.sum w + w r := by
  rw [sum, rows_of_insert h, List.map_append, List.sum_append]
  simp [sum]

/-- The sum is that of the other rows and the row of one key. -/
theorem sum_except (h : t.find? k = some r) :
    t.sum w = t.sum (fun a => if key a = k then 0 else w a) + w r := by
  obtain ⟨rows, hu⟩ := t
  simp only [find?, sum] at h ⊢
  induction rows with
  | nil => cases h
  | cons a rows ih =>
    rw [List.map_cons, List.nodup_cons] at hu
    by_cases ha : key a = k
    · obtain rfl : a = r := by simpa [ha] using h
      have hothers : rows.map (fun b => if key b = k then 0 else w b) = rows.map w := by
        apply List.map_congr_left
        intro b hb
        rw [if_neg]
        rintro hsame
        exact hu.1 (ha.trans hsame.symm ▸ List.mem_map_of_mem hb)
      simp only [List.map_cons, List.sum_cons, if_pos ha, hothers]
      omega
    · have hrest := ih hu.2 (by simpa [List.find?_cons, ha] using h)
      simp only [List.map_cons, List.sum_cons, if_neg ha, hrest]
      omega

/-- A rewritten row counts for what it is now. -/
theorem sum_modify {f : Row → Row} {hf : ∀ r, key (f r) = key r} (h : t.find? k = some r) :
    (t.modify k f hf).sum w = t.sum (fun a => if key a = k then 0 else w a) + w (f r) := by
  have hfind : (t.modify k f hf).find? k = some (f r) := by rw [find?_modify_same, h]; rfl
  rw [sum_except hfind, modify, sum_map]
  congr 1
  apply sum_congr
  intro a _
  split
  · next hkey => simp [hf, hkey]
  · rfl

theorem sum_modify_of_none {f : Row → Row} {hf : ∀ r, key (f r) = key r} (h : t.find? k = none) :
    (t.modify k f hf).sum w = t.sum w := by
  rw [modify, sum_map]
  apply sum_congr
  intro a ha
  rw [if_neg]
  rintro rfl
  rw [find?_of_mem ha] at h
  cases h

end Summing

end Table

end Framework
