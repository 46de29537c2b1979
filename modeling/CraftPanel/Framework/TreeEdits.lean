import CraftPanel.Framework.FileTree

/-!
# Edits of a file tree

Taking a subtree away and moving one, and what a path leads to when no link is on it. A call on a
path follows the links of the directories on its way, so it acts where the path says exactly as
long as there are none.
-/

namespace Framework

/-- Strictly below the root. -/
def Below {Name : Type*} (root p : List Name) : Prop := root <:+ p ∧ p ≠ root

section Below

variable {Name : Type*} {root p q : List Name} {n : Name}

instance [DecidableEq Name] (root p : List Name) : Decidable (Below root p) :=
  inferInstanceAs (Decidable (root <:+ p ∧ p ≠ root))

theorem not_suffix_tail (p : List Name) (n : Name) : ¬ n :: p <:+ p := by
  intro h
  have hlength := h.length_le
  rw [List.length_cons] at hlength
  omega

theorem below_cons : Below root (n :: p) ↔ root <:+ p := by
  constructor
  · rintro ⟨hsuffix, hne⟩
    exact (List.suffix_cons_iff.mp hsuffix).resolve_left fun he => hne he.symm
  · intro hsuffix
    refine ⟨hsuffix.trans (List.suffix_cons n p), ?_⟩
    rintro rfl
    exact not_suffix_tail p n hsuffix

theorem Below.of_suffix (h : Below root p) (hq : p <:+ q) : Below root q := by
  refine ⟨h.1.trans hq, ?_⟩
  rintro rfl
  exact h.2 (hq.eq_of_length_le h.1.length_le)

theorem Below.ne_nil (h : Below root p) : p ≠ [] := by
  rintro rfl
  exact h.2 (List.suffix_nil.mp h.1).symm

end Below

namespace FileTree

variable {Name : Type*} (t : FileTree Name)

instance [DecidableEq Name] (p : List Name) : Decidable (t.IsDirectory p) :=
  inferInstanceAs (Decidable (t.node p = some .directory))

def isLink (p : List Name) : Bool := match t.node p with
  | some (.link _) => true
  | _ => false

/-- No link stands at the path or on its way, as far as it goes below the root. -/
def Clear (root path : List Name) : Prop := ∀ q ∈ path.tails, Below root q → t.isLink q = false

instance [DecidableEq Name] (root path : List Name) : Decidable (t.Clear root path) :=
  inferInstanceAs (Decidable (∀ q ∈ path.tails, Below root q → t.isLink q = false))

section Clear

variable {t} {root path p q : List Name} {n : Name} {links : Nat}

theorem Clear.suffix (h : t.Clear root path) (hq : q <:+ path) : t.Clear root q := fun r hr =>
  h r ((List.mem_tails _ _).mpr (((List.mem_tails _ _).mp hr).trans hq))

theorem clear_cons : t.Clear root (n :: path) ↔
    (Below root (n :: path) → t.isLink (n :: path) = false) ∧ t.Clear root path := by
  simp [Clear]

/-- Over no link a path leads nowhere else. -/
theorem walk_clear {names : List Name} (hclear : t.Clear root (names.reverse ++ p))
    (hroot : root <:+ p) (h : t.walk links p (names.map .name) = .ok q) :
    q = names.reverse ++ p := by
  induction names generalizing p with
  | nil => simpa using h.symm
  | cons n names ih =>
    rw [List.map_cons] at h
    rw [List.reverse_cons, List.append_assoc, List.singleton_append] at hclear ⊢
    have hhere := (hclear.suffix (List.suffix_append _ _))
    rcases walk_name h with ⟨-, hrest⟩ | ⟨-, hnil, rfl⟩ | ⟨target, fewer, hnode, -, -⟩
    · exact ih hclear (hroot.trans (List.suffix_cons n p)) hrest
    · rw [List.map_eq_nil_iff.mp hnil]
      rfl
    · have hlink := (clear_cons.mp hhere).1 (below_cons.mpr hroot)
      simp [isLink, hnode] at hlink

theorem resolve_clear (hroot : t.IsDirectory root) (hpath : root <:+ path)
    (hclear : t.Clear root path) (h : t.resolve path = .ok q) : q = path := by
  obtain ⟨names, rfl⟩ := hpath
  have hroute : route (names ++ root) = route root ++ names.reverse.map .name := by
    simp [route]
  unfold resolve at h
  rw [hroute, walk_route hroot] at h
  have hback : t.Clear root (names.reverse.reverse ++ root) := by simpa using hclear
  have hq := walk_clear hback List.suffix_rfl h
  simpa using hq

theorem IsDirectory.resolve (h : t.IsDirectory path) : t.resolve path = .ok path := by
  have hwalk : t.walk linkLimit [] (route path ++ []) = t.walk linkLimit path [] := walk_route h
  rw [List.append_nil, walk_nil] at hwalk
  exact hwalk

end Clear

/-! ### Taking away and moving -/

section Cutting

variable [DecidableEq Name]

/-- The tree without what is at a place and below it. -/
def cut (p : List Name) (hp : p ≠ []) : FileTree Name where
  node q := if p <:+ q then none else t.node q
  top := by
    rw [if_neg (by simpa using hp)]
    exact t.top
  closed := by
    intro n q h
    by_cases hchild : p <:+ n :: q
    · exact absurd (if_pos hchild) h
    rw [if_neg hchild] at h
    have hparent : ¬ p <:+ q := fun hsuffix => hchild (hsuffix.trans (List.suffix_cons n q))
    rw [if_neg hparent]
    exact t.closed n q h

/-- The tree in which what was at `a`, with all below it, is at `n :: p`. -/
def move (a : List Name) (n : Name) (p : List Name) (ha : a ≠ []) (hp : t.IsDirectory p)
    (hout : ¬ a <:+ n :: p) : FileTree Name where
  node q :=
    if n :: p <:+ q then t.node (q.take (q.length - (n :: p).length) ++ a)
    else if a <:+ q then none
    else t.node q
  top := by
    rw [if_neg (by simp), if_neg (by simpa using ha)]
    exact t.top
  closed := by
    intro m q h
    by_cases hchild : n :: p <:+ m :: q
    · rw [if_pos hchild] at h
      rcases List.suffix_cons_iff.mp hchild with heq | hq
      · cases heq
        have ha' : ¬ a <:+ p := fun hsuffix => hout (hsuffix.trans (List.suffix_cons n p))
        rw [if_neg (not_suffix_tail p n), if_neg ha']
        exact hp
      rw [if_pos hq]
      have hlength := hq.length_le
      have htake : (m :: q).take ((m :: q).length - (n :: p).length) =
          m :: q.take (q.length - (n :: p).length) := by
        rw [List.length_cons, Nat.succ_sub hlength, List.take_succ_cons]
      rw [htake, List.cons_append] at h
      exact t.closed _ _ h
    · rw [if_neg hchild] at h
      have hq : ¬ n :: p <:+ q := fun hsuffix => hchild (hsuffix.trans (List.suffix_cons m q))
      by_cases hgone : a <:+ m :: q
      · exact absurd (if_pos hgone) h
      rw [if_neg hgone] at h
      have hstays : ¬ a <:+ q := fun hsuffix => hgone (hsuffix.trans (List.suffix_cons m q))
      rw [if_neg hq, if_neg hstays]
      exact t.closed m q h

variable {t} {a p q : List Name} {n : Name}

theorem cut_of_not_suffix {hp : p ≠ []} (h : ¬ p <:+ q) : (t.cut p hp).node q = t.node q :=
  if_neg h

theorem move_of_not_suffix {ha : a ≠ []} {hp : t.IsDirectory p} {hout : ¬ a <:+ n :: p}
    (hto : ¬ n :: p <:+ q) (hfrom : ¬ a <:+ q) : (t.move a n p ha hp hout).node q = t.node q :=
  (if_neg hto).trans (if_neg hfrom)

end Cutting

/-! ### What a path names -/

section Locating

variable [DecidableEq Name]

/-- The place that a path names, the links on the way being followed and one at its end not. -/
def locate : List Name → Except Errno (List Name)
  | [] => .ok []
  | n :: path => match t.resolve path with
    | .error e => .error e
    | .ok p => if t.node p = some .directory then .ok (n :: p) else .error .notDirectory

variable {t} {root path p q : List Name} {n : Name}

theorem locate_cons (h : t.locate (n :: path) = .ok q) :
    ∃ p, t.resolve path = .ok p ∧ t.IsDirectory p ∧ q = n :: p := by
  rw [locate] at h
  split at h
  · cases h
  rename_i p hpath
  split at h
  · rename_i hp
    exact ⟨p, hpath, hp, (Except.ok.inj h).symm⟩
  · cases h

/-- Over no link a path names its own place. -/
theorem locate_clear (hroot : t.IsDirectory root) (hpath : root <:+ path)
    (hclear : t.Clear root path) (h : t.locate (n :: path) = .ok q) :
    q = n :: path ∧ t.IsDirectory path := by
  obtain ⟨p, hresolve, hp, rfl⟩ := locate_cons h
  obtain rfl := resolve_clear hroot hpath hclear hresolve
  exact ⟨rfl, hp⟩

end Locating

/-! ### Opening to write -/

section Opening

variable [DecidableEq Name]

/-- Where `open` with `O_CREAT` ends up: at the end of the links that the name leads over. -/
def opened : Nat → List Name → Name → Except Errno (List Name)
  | links, p, n => match t.node (n :: p) with
    | none | some .file => if t.node p = some .directory then .ok (n :: p) else .error .notDirectory
    | some .directory => .error .isDirectory
    | some (.link target) => match links, target.parts.reverse with
      | fewer + 1, .name m :: before => match t.walk fewer (target.start p) before.reverse with
        | .error e => .error e
        | .ok q => opened fewer q m
      | 0, _ => .error .tooManyLinks
      | _ + 1, _ => .error .isDirectory

theorem opened_of_not_link {t : FileTree Name} {links : Nat} {p q : List Name} {n : Name}
    (hlink : t.isLink (n :: p) = false) (h : t.opened links p n = .ok q) :
    q = n :: p ∧ t.IsDirectory p ∧ ¬ t.IsDirectory (n :: p) := by
  have hfound : ∀ node, t.node (n :: p) = node → node ≠ some .directory →
      (if t.node p = some .directory then Except.ok (n :: p) else .error .notDirectory) =
        (.ok q : Except Errno (List Name)) → q = n :: p ∧ t.IsDirectory p ∧
          ¬ t.IsDirectory (n :: p) := by
    intro node hnode hne hok
    split at hok
    · rename_i hp
      refine ⟨(Except.ok.inj hok).symm, hp, ?_⟩
      rw [IsDirectory, hnode]
      exact hne
    · cases hok
  unfold isLink at hlink
  unfold opened at h
  cases hnode : t.node (n :: p) with
  | none =>
    rw [hnode] at h
    exact hfound none hnode (by simp) h
  | some node =>
    rw [hnode] at h hlink
    cases node with
    | directory => cases h
    | file => exact hfound (some .file) hnode (by simp) h
    | link target => cases hlink

end Opening

end FileTree

end Framework
