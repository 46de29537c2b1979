import CraftPanel.Backups.Archive

/-!
# Where an archive is unpacked

`confine_link` judges a link when its entry comes, by what its names lead to then; nothing judges
the directory that a later entry goes to. An archive stays inside exactly when, for each of its
entries that comes to be written, `land` puts this directory inside.
-/

namespace CraftPanel.Backups

open Framework

/-- Strictly below the root. -/
def Inside (root p : List String) : Prop := ∃ n q, p = n :: q ∧ root <:+ q

/-- Nothing outside is written, and what is outside stays as it was. -/
structure Confined (into : Opened) (after : Unpacked) : Prop where
  touched : ∀ p ∈ after.touched, Inside into.root p
  outside : ∀ p, ¬ Inside into.root p → after.tree.node p = into.tree.node p

/-- The directory of an entry that passes the checks, where it is there or can be made, is inside
as `land` follows it now. -/
def LandsInside (t : FileTree String) (root : List String) (entry : Entry) : Prop :=
  ∀ inside, check t root entry = .ok inside → ∀ n parent, inside ++ root = n :: parent →
    (t.createDirAll parent).result = .ok () → root <:+ land t [] (route parent)

/-- Each entry that is come to lands inside, in the tree it is unpacked into. -/
def AllLandInside (tar : Tar) (root : List String) : FileTree String → List Read → Prop
  | _, [] | _, .unreadable :: _ | _, .cancelled :: _ => True
  | t, .entry entry :: rest => LandsInside t root entry ∧
    ((unpackEntry tar root t entry).result = .ok () →
      AllLandInside tar root (unpackEntry tar root t entry).tree rest)

section Landing

variable {t : FileTree String} {p q path : List String}

theorem land_append (real : List String) (parts more : List (Component String)) :
    land t real (parts ++ more) = land t (land t real parts) more := by
  induction parts generalizing real with
  | nil => rfl
  | cons part parts ih =>
    cases part with
    | here => exact ih real
    | up => exact ih real.tail
    | name n =>
      simp only [List.cons_append, land]
      split
      · exact ih _
      · exact ih _

theorem land_of_resolve (h : t.resolve path = .ok p) : land t [] (route path) = p := by
  induction path generalizing p with
  | nil =>
    unfold FileTree.resolve at h
    rw [route_nil, FileTree.walk_nil] at h
    exact Except.ok.inj h
  | cons n path ih =>
    have hpath : ∃ m, t.resolve path = .ok m := by
      unfold FileTree.resolve at h ⊢
      rw [route_cons] at h
      obtain ⟨m, hm, -⟩ := FileTree.walk_append h
      exact ⟨m, hm⟩
    obtain ⟨m, hm⟩ := hpath
    have hname := FileTree.resolve_cons hm h
    have hexists : t.node (n :: m) ≠ none := by
      intro hnone
      rw [FileTree.walk_none hnone] at hname
      simp at hname
    have hfollowed : t.resolve (n :: m) = .ok p := by
      unfold FileTree.resolve
      rw [route_cons, FileTree.walk_route (t.closed n m hexists)]
      exact hname
    rw [route_cons, land_append, ih hm]
    simp only [land, hfollowed]

theorem land_of_reaches (h : t.Reaches path p) : land t [] (route path) = p := by
  induction h with
  | found h => exact land_of_resolve h
  | @missing n path p _ hmissing ih =>
    rw [route_cons, land_append, ih]
    simp only [land]
    split
    · rename_i followed hfollowed
      exact absurd hfollowed (hmissing followed)
    · rfl

end Landing

section Steps

variable (tar : Tar) {t : FileTree String} {root : List String}

theorem unpackEntry_cases (t : FileTree String) (root : List String) (entry : Entry) :
    (∃ e, unpackEntry tar root t entry = ⟨t, [], .error e⟩ ∧ LandsInside t root entry) ∨
    (unpackEntry tar root t entry = ⟨t, [], .ok ()⟩ ∧ LandsInside t root entry) ∨
    ∃ inside n parent p, check t root entry = .ok inside ∧ inside ++ root = n :: parent ∧
      (t.createDirAll parent).result = .ok () ∧ t.Ready parent p (t.createDirAll parent) ∧
      (unpackEntry tar root t entry).tree =
        (tar.unpack (t.createDirAll parent).tree (n :: parent) entry.kind).1 ∧
      (unpackEntry tar root t entry).touched = (t.createDirAll parent).made ++ [n :: p] := by
  cases hcheck : check t root entry with
  | error e =>
    refine .inl ⟨e, by simp only [unpackEntry, hcheck], fun inside hinside => ?_⟩
    simp [hcheck] at hinside
  | ok inside =>
    cases htarget : inside ++ root with
    | nil =>
      refine .inr (.inl ⟨by simp only [unpackEntry, hcheck, htarget], ?_⟩)
      intro inside' hinside n parent hparent
      obtain rfl := Except.ok.inj (hcheck.symm.trans hinside)
      simp [htarget] at hparent
    | cons n parent =>
      rcases t.createDirAll_cases parent with ⟨e, he⟩ | ⟨p, hok, hready⟩
      · refine .inl ⟨.system e, by simp only [unpackEntry, hcheck, htarget, he], ?_⟩
        intro inside' hinside n' parent' hparent hresult
        obtain rfl := Except.ok.inj (hcheck.symm.trans hinside)
        obtain ⟨rfl, rfl⟩ := List.cons.inj (htarget.symm.trans hparent)
        simp [he] at hresult
      · refine .inr (.inr ⟨inside, n, parent, p, rfl, htarget, hok, hready, ?_, ?_⟩)
        · simp only [unpackEntry, hcheck, htarget, hok, hready.resolved]
        · simp only [unpackEntry, hcheck, htarget, hok, hready.resolved]

theorem unpackEntry_untouched (entry : Entry) {q : List String}
    (hq : q ∉ (unpackEntry tar root t entry).touched) :
    (unpackEntry tar root t entry).tree.node q = t.node q := by
  rcases unpackEntry_cases tar t root entry with ⟨e, he, -⟩ | ⟨he, -⟩ |
    ⟨inside, n, parent, p, -, -, -, hready, htree, htouched⟩
  · rw [he]
  · rw [he]
  · rw [htouched, List.mem_append, List.mem_singleton, not_or] at hq
    rw [htree, tar.writes _ _ _ _ p hready.resolved q hq.2]
    exact hready.only q hq.1

theorem unpackEntry_keeps (root : List String) (entry : Entry) {q : List String} (hq : t.IsDirectory q) :
    (unpackEntry tar root t entry).tree.IsDirectory q := by
  rcases unpackEntry_cases tar t root entry with ⟨e, he, -⟩ | ⟨he, -⟩ |
    ⟨inside, n, parent, p, -, -, -, hready, htree, -⟩
  · rwa [he]
  · rwa [he]
  · rw [htree]
    exact tar.keeps _ _ _ _ (hready.keeps hq)

theorem unpackEntry_inside (hroot : t.IsDirectory root) (entry : Entry) :
    (∀ p ∈ (unpackEntry tar root t entry).touched, Inside root p) ↔ LandsInside t root entry := by
  rcases unpackEntry_cases tar t root entry with ⟨e, he, hlands⟩ | ⟨he, hlands⟩ |
    ⟨inside, n, parent, p, hcheck, htarget, hok, hready, -, htouched⟩
  · simp [he, hlands]
  · simp [he, hlands]
  have hlands : LandsInside t root entry ↔ root <:+ p := by
    rw [← land_of_reaches hready.reached]
    constructor
    · intro h
      exact h inside hcheck n parent htarget hok
    · intro h inside' hinside n' parent' hparent _
      obtain rfl := Except.ok.inj (hcheck.symm.trans hinside)
      obtain ⟨rfl, rfl⟩ := List.cons.inj (htarget.symm.trans hparent)
      exact h
  rw [htouched, hlands]
  constructor
  · intro h
    obtain ⟨n', p', hp, hsuffix⟩ := h (n :: p) (List.mem_append_right _ (List.mem_singleton_self _))
    cases hp
    exact hsuffix
  · intro hp q hq
    rcases List.mem_append.mp hq with hq | hq
    · obtain ⟨hnone, hsuffix⟩ := hready.made q hq
      -- a directory that was not there is not above the root
      have hbelow : root <:+ q := by
        rcases List.suffix_or_suffix_of_suffix hp hsuffix with h | h
        · exact h
        · have hdir : t.node q = some .directory := hroot.suffix h
          simp [hnone] at hdir
      cases q with
      | nil => simp [t.top] at hnone
      | cons m q =>
        rcases List.suffix_cons_iff.mp hbelow with rfl | hbelow
        · unfold FileTree.IsDirectory at hroot
          simp [hnone] at hroot
        · exact ⟨m, q, rfl, hbelow⟩
    · obtain rfl := List.mem_singleton.mp hq
      exact ⟨n, p, rfl, hp⟩

theorem unpackFrom_untouched (reads : List Read) {q : List String}
    (hq : q ∉ (unpackFrom tar root t reads).touched) :
    (unpackFrom tar root t reads).tree.node q = t.node q := by
  induction reads generalizing t with
  | nil => rfl
  | cons read rest ih =>
    cases read with
    | unreadable => rfl
    | cancelled => rfl
    | entry entry =>
      simp only [unpackFrom] at hq ⊢
      split at hq
      · exact unpackEntry_untouched tar entry hq
      · rw [List.mem_append, not_or] at hq
        exact (ih hq.2).trans (unpackEntry_untouched tar entry hq.1)

theorem unpackFrom_inside (hroot : t.IsDirectory root) (reads : List Read) :
    (∀ p ∈ (unpackFrom tar root t reads).touched, Inside root p) ↔
      AllLandInside tar root t reads := by
  induction reads generalizing t with
  | nil => simp [unpackFrom, AllLandInside]
  | cons read rest ih =>
    cases read with
    | unreadable => simp [unpackFrom, AllLandInside]
    | cancelled => simp [unpackFrom, AllLandInside]
    | entry entry =>
      have hfirst := unpackEntry_inside tar hroot entry
      have hrest := ih (unpackEntry_keeps tar root entry hroot)
      simp only [unpackFrom, AllLandInside]
      cases hresult : (unpackEntry tar root t entry).result with
      | error e => simp [hfirst]
      | ok u => simp only [List.mem_append, or_imp, forall_and, hfirst, hrest, forall_const]

end Steps

section Overwriting

variable (t : FileTree String)

theorem replacing_cases (n : String) (p : List String) (node : Node String) :
    (replacing t n p node).1 = t ∨ ∃ (hp : t.IsDirectory p) (hn : ¬ t.IsDirectory (n :: p)),
      (replacing t n p node).1 = t.put n p node hp hn := by
  unfold replacing
  split
  · rename_i hp
    split
    · exact .inl rfl
    · rename_i hn
      exact .inr ⟨hp, hn, rfl⟩
  · exact .inl rfl

theorem overwriting_cases (path : List String) (kind : EntryType) :
    (overwriting t path kind).1 = t ∨ ∃ n up p node, path = n :: up ∧ t.resolve up = .ok p ∧
      (overwriting t path kind).1 = (replacing t n p node).1 ∧
        ∀ target, node = .link target → kind = .symlink (some target) := by
  cases path with
  | nil => exact .inl rfl
  | cons n up =>
    simp only [overwriting]
    cases hup : t.resolve up with
    | error e => exact .inl rfl
    | ok p =>
      cases kind with
      | directory =>
        simp only
        split
        · exact .inr ⟨n, up, p, .directory, rfl, hup, rfl, by simp⟩
        · exact .inl rfl
      | file => exact .inr ⟨n, up, p, .file, rfl, hup, rfl, by simp⟩
      | special => exact .inr ⟨n, up, p, .file, rfl, hup, rfl, by simp⟩
      | hardLink => exact .inl rfl
      | symlink target =>
        cases target with
        | none => exact .inl rfl
        | some target =>
          simp only
          split
          · exact .inl rfl
          · exact .inr ⟨n, up, p, .link target, rfl, hup, rfl, by simp⟩

def gnuTar : Tar where
  unpack := overwriting
  writes := by
    intro t n path kind p hpath q hq
    rcases overwriting_cases t (n :: path) kind with h | ⟨n', up, p', node, hcons, hup, h, -⟩
    · rw [h]
    cases hcons
    obtain rfl := Except.ok.inj (hpath.symm.trans hup)
    rw [h]
    rcases replacing_cases t n p node with hr | ⟨hp, hn, hr⟩
    · rw [hr]
    · rw [hr, FileTree.put_ne hq]
  keeps := by
    intro t path kind q hq
    rcases overwriting_cases t path kind with h | ⟨n, up, p, node, -, -, h, -⟩
    · rwa [h]
    rw [h]
    rcases replacing_cases t n p node with hr | ⟨hp, hn, hr⟩
    · rwa [hr]
    · have hne : q ≠ n :: p := fun he => hn (he ▸ hq)
      rw [hr]
      exact (FileTree.put_ne hne).trans hq
  links := by
    intro t path kind q target hq
    rcases overwriting_cases t path kind with h | ⟨n, up, p, node, -, -, h, hkind⟩
    · exact .inl (h ▸ hq)
    rw [h] at hq
    rcases replacing_cases t n p node with hr | ⟨hp, hn, hr⟩
    · exact .inl (hr ▸ hq)
    rw [hr] at hq
    by_cases hqp : q = n :: p
    · subst hqp
      rw [FileTree.put_self] at hq
      exact .inr (hkind target (Option.some.inj hq))
    · exact .inl ((FileTree.put_ne hqp).symm.trans hq)

end Overwriting

/-- A fresh directory `work` at the top of an otherwise empty tree. -/
def work : Opened where
  tree :=
    { node := fun p => if p = [] ∨ p = ["work"] then some .directory else none
      top := rfl
      closed := by
        intro n p h
        have hp : n :: p = ["work"] := by simpa using h
        obtain ⟨-, rfl⟩ := List.cons.inj hp
        rfl }
  root := ["work"]
  directory := rfl

/-- The link `a` steps back over `x`, which is made a link after `a` was judged. -/
def steppingBack : List Read :=
  [.entry ⟨⟨false, [.name "a"]⟩, .symlink (some ⟨false, [.name "x", .up]⟩)⟩,
    .entry ⟨⟨false, [.name "x"]⟩, .symlink (some ⟨false, [.here]⟩)⟩,
    .entry ⟨⟨false, [.name "a", .name "evil"]⟩, .file⟩]

end CraftPanel.Backups
