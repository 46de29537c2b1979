import Mathlib.Data.List.Infix

/-!
# File trees

A file system as paths are resolved in it. A place is the list of its names, the last one first,
so the parent of a place is its tail. Symbolic links are followed where they are met, and only so
many in one resolution.
-/

namespace Framework

/-- A component of a path. -/
inductive Component (Name : Type*)
  | here
  | up
  | name (n : Name)
  deriving DecidableEq

/-- A path as it is written. -/
structure Route (Name : Type*) where
  isAbsolute : Bool := false
  parts : List (Component Name)
  deriving DecidableEq

inductive Node (Name : Type*)
  | directory
  | file
  | link (target : Route Name)
  deriving DecidableEq

inductive Errno
  | notFound | notDirectory | exists | isDirectory | tooManyLinks | other
  deriving DecidableEq

/-- What is at each place; everything but the top lies in a directory. -/
structure FileTree (Name : Type*) where
  node : List Name → Option (Node Name)
  top : node [] = some .directory
  closed : ∀ n p, node (n :: p) ≠ none → node p = some .directory

/-- Where a link leads from. -/
def Route.start {Name : Type*} (target : Route Name) (p : List Name) : List Name :=
  if target.isAbsolute then [] else p

/-- The path of a place from the top, over names only. -/
def route {Name : Type*} (p : List Name) : List (Component Name) := p.reverse.map .name

@[simp] theorem route_nil {Name : Type*} : route ([] : List Name) = [] := rfl

@[simp] theorem route_cons {Name : Type*} (n : Name) (p : List Name) :
    route (n :: p) = route p ++ [.name n] := by
  simp [route]

/-- The links one resolution follows before it is given up. -/
def linkLimit : Nat := 40

namespace FileTree

variable {Name : Type*} (t : FileTree Name)

def IsDirectory (p : List Name) : Prop := t.node p = some .directory

/-- Resolve a path from a place, leaving what comes after a link to `follow`. -/
def walkWith (follow : List Name → List (Component Name) → Except Errno (List Name)) :
    List Name → List (Component Name) → Except Errno (List Name)
  | p, [] => .ok p
  | p, .here :: rest => walkWith follow p rest
  | p, .up :: rest => walkWith follow p.tail rest
  | p, .name n :: rest => match t.node (n :: p) with
    | none => .error .notFound
    | some .directory => walkWith follow (n :: p) rest
    | some .file => if rest.isEmpty then .ok (n :: p) else .error .notDirectory
    | some (.link target) => follow (target.start p) (target.parts ++ rest)

def walk : Nat → List Name → List (Component Name) → Except Errno (List Name)
  | 0 => t.walkWith fun _ _ => .error .tooManyLinks
  | links + 1 => t.walkWith (walk links)

/-- `realpath` of an absolute path over names. -/
def resolve (path : List Name) : Except Errno (List Name) := t.walk linkLimit [] (route path)

/-- The way of a successful resolution. -/
inductive Leads : Nat → List Name → List (Component Name) → List Name → Prop
  | nil {links p} : Leads links p [] p
  | here {links p rest q} : Leads links p rest q → Leads links p (.here :: rest) q
  | up {links p rest q} : Leads links p.tail rest q → Leads links p (.up :: rest) q
  | directory {links p n rest q} : t.IsDirectory (n :: p) → Leads links (n :: p) rest q →
      Leads links p (.name n :: rest) q
  | file {links p n} : t.node (n :: p) = some .file → Leads links p [.name n] (n :: p)
  | link {links p n rest q target} : t.node (n :: p) = some (.link target) →
      Leads links (target.start p) (target.parts ++ rest) q →
        Leads (links + 1) p (.name n :: rest) q

section Walking

variable {t} {links : Nat} {p q : List Name} {n : Name} {parts rest : List (Component Name)}

attribute [local grind =] walk walkWith

@[simp] theorem walk_nil : t.walk links p [] = .ok p := by
  cases links <;> rfl

@[simp] theorem walk_here : t.walk links p (.here :: rest) = t.walk links p rest := by
  cases links <;> rfl

@[simp] theorem walk_up : t.walk links p (.up :: rest) = t.walk links p.tail rest := by
  cases links <;> rfl

theorem walk_none (h : t.node (n :: p) = none) :
    t.walk links p (.name n :: rest) = .error .notFound := by
  cases links <;> simp only [walk, walkWith, h]

theorem walk_directory (h : t.IsDirectory (n :: p)) :
    t.walk links p (.name n :: rest) = t.walk links (n :: p) rest := by
  unfold IsDirectory at h
  cases links <;> simp only [walk, walkWith, h]

theorem walk_file (h : t.node (n :: p) = some .file) :
    t.walk links p [.name n] = .ok (n :: p) := by
  cases links <;> simp [walk, walkWith, h]

theorem walk_link {target : Route Name} (h : t.node (n :: p) = some (.link target)) :
    t.walk (links + 1) p (.name n :: rest) =
      t.walk links (target.start p) (target.parts ++ rest) := by
  simp only [walk, walkWith, h]

/-- How a name is resolved. -/
theorem walk_name (h : t.walk links p (.name n :: rest) = .ok q) :
    (t.IsDirectory (n :: p) ∧ t.walk links (n :: p) rest = .ok q) ∨
    (t.node (n :: p) = some .file ∧ rest = [] ∧ q = n :: p) ∨
    ∃ target fewer, t.node (n :: p) = some (.link target) ∧ links = fewer + 1 ∧
      t.walk fewer (target.start p) (target.parts ++ rest) = .ok q := by
  cases hnode : t.node (n :: p) with
  | none => simp [walk_none hnode] at h
  | some node =>
    cases node with
    | directory =>
      rw [walk_directory hnode] at h
      exact .inl ⟨hnode, h⟩
    | file =>
      have hrest : rest = [] := by
        by_contra hne
        cases links <;> simp [walk, walkWith, hnode, hne] at h
      subst hrest
      rw [walk_file hnode] at h
      exact .inr (.inl ⟨rfl, rfl, (Except.ok.inj h).symm⟩)
    | link target =>
      cases links with
      | zero => simp [walk, walkWith, hnode] at h
      | succ fewer =>
        rw [walk_link hnode] at h
        exact .inr (.inr ⟨target, fewer, rfl, rfl, h⟩)

theorem walk_of_leads (h : t.Leads links p parts q) : t.walk links p parts = .ok q := by
  induction h with
  | nil => exact walk_nil
  | here _ ih => rwa [walk_here]
  | up _ ih => rwa [walk_up]
  | directory hnode _ ih => rwa [walk_directory hnode]
  | file hnode => exact walk_file hnode
  | link hnode _ ih => rwa [walk_link hnode]

theorem leads_of_walk (h : t.walk links p parts = .ok q) : t.Leads links p parts q := by
  induction links using Nat.strong_induction_on generalizing p parts with
  | _ links ih =>
    induction parts generalizing p with
    | nil =>
      obtain rfl : p = q := by simpa using h
      exact .nil
    | cons part rest ihrest =>
      cases part with
      | here => exact .here (ihrest (by simpa using h))
      | up => exact .up (ihrest (by simpa using h))
      | name n =>
        rcases walk_name h with ⟨hnode, hrest⟩ | ⟨hnode, rfl, rfl⟩ | ⟨target, fewer, hnode, rfl, hrest⟩
        · exact .directory hnode (ihrest hrest)
        · exact .file hnode
        · exact .link hnode (ih fewer (Nat.lt_succ_self _) hrest)

theorem walk_succ (h : t.walk links p parts = .ok q) : t.walk (links + 1) p parts = .ok q := by
  induction leads_of_walk h with
  | nil => exact walk_nil
  | here hrest ih => rw [walk_here, ih (walk_of_leads hrest)]
  | up hrest ih => rw [walk_up, ih (walk_of_leads hrest)]
  | directory hnode hrest ih => rw [walk_directory hnode, ih (walk_of_leads hrest)]
  | file hnode => exact walk_file hnode
  | link hnode hrest ih => rw [walk_link hnode, ih (walk_of_leads hrest)]

/-- A path is resolved piece by piece. -/
theorem walk_append {more : List (Component Name)} (h : t.walk links p (parts ++ more) = .ok q) :
    ∃ m, t.walk links p parts = .ok m ∧ t.walk links m more = .ok q := by
  induction links using Nat.strong_induction_on generalizing p parts with
  | _ links ih =>
    induction parts generalizing p with
    | nil => exact ⟨p, walk_nil, h⟩
    | cons part parts ihparts =>
      rw [List.cons_append] at h
      cases part with
      | here => simpa using ihparts (by simpa using h)
      | up => simpa using ihparts (by simpa using h)
      | name n =>
        rcases walk_name h with ⟨hnode, hrest⟩ | ⟨hnode, hnil, rfl⟩ | ⟨target, fewer, hnode, rfl, hrest⟩
        · simpa only [walk_directory hnode] using ihparts hrest
        · obtain ⟨rfl, rfl⟩ := List.append_eq_nil_iff.mp hnil
          exact ⟨_, walk_file hnode, walk_nil⟩
        · rw [← List.append_assoc] at hrest
          obtain ⟨m, hm, hq⟩ := ih fewer (Nat.lt_succ_self _) hrest
          exact ⟨m, by rwa [walk_link hnode], walk_succ hq⟩

/-- What leads to a directory is made of directories. -/
theorem IsDirectory.suffix (hp : t.IsDirectory p) (hq : q <:+ p) : t.IsDirectory q := by
  induction p with
  | nil =>
    obtain rfl := List.suffix_nil.mp hq
    exact hp
  | cons n p ih =>
    rcases List.suffix_cons_iff.mp hq with rfl | hq
    · exact hp
    · exact ih (t.closed n p (by rw [hp]; simp)) hq

/-- The path of a directory resolves to the directory, over no link. -/
theorem walk_route (hp : t.IsDirectory p) :
    t.walk links [] (route p ++ rest) = t.walk links p rest := by
  induction p generalizing rest with
  | nil => rfl
  | cons n p ih =>
    have hparent : t.IsDirectory p := t.closed n p (by rw [hp]; simp)
    rw [route_cons, List.append_assoc, ih hparent]
    exact walk_directory hp

/-- A tree that has every node of another resolves every path the other does. -/
theorem walk_extends {t' : FileTree Name} (hext : ∀ p, t.node p ≠ none → t'.node p = t.node p)
    (h : t.walk links p parts = .ok q) : t'.walk links p parts = .ok q := by
  induction leads_of_walk h with
  | nil => exact walk_nil
  | here hrest ih => rw [walk_here, ih (walk_of_leads hrest)]
  | up hrest ih => rw [walk_up, ih (walk_of_leads hrest)]
  | directory hnode hrest ih =>
    have hnode' := (hext _ (by rw [hnode]; simp)).trans hnode
    rw [walk_directory hnode', ih (walk_of_leads hrest)]
  | file hnode =>
    have hnode' := (hext _ (by rw [hnode]; simp)).trans hnode
    exact walk_file hnode'
  | link hnode hrest ih =>
    have hnode' := (hext _ (by rw [hnode]; simp)).trans hnode
    rw [walk_link hnode', ih (walk_of_leads hrest)]

theorem resolve_new (hp : t.IsDirectory p) (hn : t.node (n :: p) = none) :
    t.resolve (n :: p) = .error .notFound := by
  unfold resolve
  rw [route_cons, walk_route hp]
  exact walk_none hn

theorem resolve_cons (h : t.resolve path = .ok p) :
    t.resolve (n :: path) = .ok q → t.walk linkLimit p [.name n] = .ok q := by
  intro hq
  unfold resolve at h hq
  rw [route_cons] at hq
  obtain ⟨m, hm, hq⟩ := walk_append hq
  obtain rfl : p = m := Except.ok.inj (h.symm.trans hm)
  exact hq

theorem resolve_missing (h : ∀ q, t.resolve p ≠ .ok q) (q : List Name) :
    t.resolve (n :: p) ≠ .ok q := by
  intro hq
  unfold resolve at hq
  rw [route_cons] at hq
  obtain ⟨m, hm, -⟩ := walk_append hq
  exact h m hm

/-- A directory in the directory that a path leads to is led to by one name more. -/
theorem walk_snoc (h : t.walk links p parts = .ok q) (hq : t.IsDirectory q)
    (hn : t.IsDirectory (n :: q)) : t.walk links p (parts ++ [.name n]) = .ok (n :: q) := by
  induction leads_of_walk h with
  | nil =>
    rw [List.nil_append, walk_directory hn]
    exact walk_nil
  | here hrest ih =>
    rw [List.cons_append, walk_here]
    exact ih (walk_of_leads hrest) hq hn
  | up hrest ih =>
    rw [List.cons_append, walk_up]
    exact ih (walk_of_leads hrest) hq hn
  | directory hnode hrest ih =>
    rw [List.cons_append, walk_directory hnode]
    exact ih (walk_of_leads hrest) hq hn
  | file hnode =>
    unfold IsDirectory at hq
    simp [hnode] at hq
  | link hnode hrest ih =>
    rw [List.cons_append, walk_link hnode, ← List.append_assoc]
    exact ih (walk_of_leads hrest) hq hn

/-- No link stands on the way to a place. -/
def Plain (t : FileTree Name) (p : List Name) : Prop :=
  ∀ q, q <:+ p → ∀ target, t.node q ≠ some (.link target)

theorem Plain.suffix (hp : t.Plain p) (hq : q <:+ p) : t.Plain q :=
  fun s hs => hp s (hs.trans hq)

theorem IsDirectory.plain (hp : t.IsDirectory p) : t.Plain p := by
  intro q hq target
  simp [show t.node q = _ from hp.suffix hq]

/-- What a path leads to is no link, and lies behind none. -/
theorem plain_of_walk (hp : t.IsDirectory p) (h : t.walk links p parts = .ok q) : t.Plain q := by
  have hplain : ∀ {s n}, t.IsDirectory s → (∀ target, t.node (n :: s) ≠ some (.link target)) →
      t.Plain (n :: s) := by
    intro s n hs hn r hr target
    rcases List.suffix_cons_iff.mp hr with rfl | hr
    · exact hn target
    · exact hs.plain r hr target
  induction leads_of_walk h with
  | nil => exact hp.plain
  | here hrest ih => exact ih hp (walk_of_leads hrest)
  | up hrest ih => exact ih (hp.suffix (List.tail_suffix _)) (walk_of_leads hrest)
  | directory hnode hrest ih => exact ih hnode (walk_of_leads hrest)
  | @file _ p n hnode =>
    exact hplain (t.closed n p (by simp [hnode])) (by simp [hnode])
  | @link _ p n _ _ target hnode hrest ih =>
    refine ih ?_ (walk_of_leads hrest)
    unfold Route.start
    split
    · exact t.top
    · exact hp

/-- A path that meets no link leads where it says. -/
theorem resolve_of_plain (hp : t.Plain p) (h : t.resolve p = .ok q) : q = p := by
  induction p generalizing q with
  | nil => exact (Except.ok.inj (walk_nil.symm.trans h)).symm
  | cons n p ih =>
    have h' := h
    unfold resolve at h'
    rw [route_cons] at h'
    obtain ⟨m, hm, hq⟩ := walk_append h'
    cases ih (hp.suffix (List.suffix_cons n p)) hm
    rcases walk_name hq with ⟨-, hq⟩ | ⟨-, -, hq⟩ | ⟨target, fewer, hnode, -⟩
    · exact (Except.ok.inj (walk_nil.symm.trans hq)).symm
    · exact hq
    · exact absurd hnode (hp _ (List.suffix_refl _) target)

/-- Directories behind one that a path leads to are led to by their names. -/
theorem resolve_append (h : t.resolve path = .ok p) (hq : t.IsDirectory (q ++ p)) :
    t.resolve (q ++ path) = .ok (q ++ p) := by
  induction q with
  | nil => exact h
  | cons n q ih =>
    have hdirectory := hq.suffix (List.suffix_cons n (q ++ p))
    have hparent := ih hdirectory
    unfold resolve at hparent ⊢
    rw [List.cons_append, route_cons]
    exact walk_snoc hparent hdirectory hq

end Walking

variable [DecidableEq Name]

/-- A new entry of a directory, in place of one that is no directory. -/
def put (n : Name) (p : List Name) (node : Node Name) (hp : t.IsDirectory p)
    (hn : ¬ t.IsDirectory (n :: p)) : FileTree Name where
  node := Function.update t.node (n :: p) (some node)
  top := by simp [t.top]
  closed := by
    intro m q h
    have hq : q ≠ n :: p := by
      rintro rfl
      have hchild : t.node (m :: n :: p) ≠ none := by simpa using h
      exact hn (t.closed _ _ hchild)
    rw [Function.update_of_ne hq]
    by_cases hm : m :: q = n :: p
    · cases hm
      exact hp
    · exact t.closed m q (by simpa [hm] using h)

/-- `mkdir`: the place of the new directory, and the tree with it. -/
def mkdir : List Name → Except Errno (List Name × FileTree Name)
  | [] => .error .exists
  | n :: path => match t.resolve path with
    | .error e => .error e
    | .ok p =>
      if hp : t.node p = some .directory then
        if hn : t.node (n :: p) = none then
          .ok (n :: p, t.put n p .directory hp (by simp [IsDirectory, hn]))
        else .error .exists
      else .error .notDirectory

/-- `Path::is_dir`, which follows links. -/
def isDir (path : List Name) : Bool := match t.resolve path with
  | .ok p => t.node p = some .directory
  | .error _ => false

/-- What is left of an attempt to make directories. -/
structure Made (Name : Type*) where
  tree : FileTree Name
  made : List (List Name) := []
  result : Except Errno Unit := .ok ()

/-- `std::fs::create_dir_all`. -/
def createDirAll : List Name → Made Name
  | [] => ⟨t, [], .ok ()⟩
  | n :: path => match t.mkdir (n :: path) with
    | .ok (p, t') => ⟨t', [p], .ok ()⟩
    | .error .notFound =>
      let parent := createDirAll path
      match parent.result with
      | .error e => { parent with result := .error e }
      | .ok _ => match parent.tree.mkdir (n :: path) with
        | .ok (p, t') => ⟨t', parent.made ++ [p], .ok ()⟩
        | .error e =>
          if parent.tree.isDir (n :: path) then parent else { parent with result := .error e }
    | .error e => if t.isDir (n :: path) then ⟨t, [], .ok ()⟩ else ⟨t, [], .error e⟩

/-- A path leads to a place as far as it exists, and over its own names from there. -/
inductive Reaches : List Name → List Name → Prop
  | found {path p} : t.resolve path = .ok p → Reaches path p
  | missing {n path p} : Reaches path p → (∀ q, t.resolve (n :: p) ≠ .ok q) →
      Reaches (n :: path) (n :: p)

section Making

variable {t} {t' : FileTree Name} {n : Name} {p q path : List Name}

theorem put_self {node : Node Name} {hp : t.IsDirectory p} {hn : ¬ t.IsDirectory (n :: p)} :
    (t.put n p node hp hn).node (n :: p) = some node := by
  simp [put]

theorem put_ne {node : Node Name} {hp : t.IsDirectory p} {hn : ¬ t.IsDirectory (n :: p)}
    (hq : q ≠ n :: p) : (t.put n p node hp hn).node q = t.node q := by
  simp [put, hq]

/-- A directory is made in the directory its parent resolves to, where nothing was. -/
theorem mkdir_ok (h : t.mkdir (n :: path) = .ok (q, t')) :
    ∃ p, t.resolve path = .ok p ∧ t.IsDirectory p ∧ t.node (n :: p) = none ∧ q = n :: p ∧
      t'.node = Function.update t.node (n :: p) (some .directory) := by
  simp only [mkdir] at h
  split at h
  · simp at h
  rename_i p hpath
  split at h
  · rename_i hp
    split at h
    · rename_i hn
      cases h
      exact ⟨p, hpath, hp, hn, rfl, rfl⟩
    · simp at h
  · simp at h

theorem mkdir_eq {h : t.IsDirectory p} (hpath : t.resolve path = .ok p)
    (hn : t.node (n :: p) = none) :
    t.mkdir (n :: path) =
      .ok (n :: p, t.put n p .directory h (by simp [IsDirectory, hn])) := by
  have hp' : t.node p = some .directory := h
  simp only [mkdir, hpath]
  rw [dif_pos hp', dif_pos hn]

theorem mkdir_notFound (h : t.mkdir (n :: path) = .error .notFound) :
    t.resolve path = .error .notFound := by
  simp only [mkdir] at h
  split at h
  · rename_i e hpath
    cases h
    exact hpath
  · split at h
    · split at h <;> simp at h
    · simp at h

theorem isDir_iff : t.isDir path = true ↔ ∃ p, t.resolve path = .ok p ∧ t.IsDirectory p := by
  simp only [isDir, IsDirectory]
  cases t.resolve path with
  | error e => simp
  | ok p => simp

/-- What is known of the directory that `create_dir_all` answers for. -/
structure Ready (t : FileTree Name) (path p : List Name) (m : Made Name) : Prop where
  resolved : m.tree.resolve path = .ok p
  directory : m.tree.IsDirectory p
  reached : t.Reaches path p
  extends_ : ∀ q, t.node q ≠ none → m.tree.node q = t.node q
  only : ∀ q, q ∉ m.made → m.tree.node q = t.node q
  made : ∀ q ∈ m.made, t.node q = none ∧ q <:+ p
  fresh : m.made ≠ [] → (∀ q, t.resolve p ≠ .ok q) ∧ ∀ n, m.tree.node (n :: p) = none

omit [DecidableEq Name] in
theorem Ready.keeps {m : Made Name} (h : Ready t path p m) (hq : t.IsDirectory q) :
    m.tree.IsDirectory q := by
  unfold IsDirectory at hq ⊢
  rw [h.extends_ q (by rw [hq]; simp), hq]

/-- One more directory, made where nothing was. -/
theorem Ready.snoc {m : Made Name} (h : Ready t path p m) (hnew : m.tree.node (n :: p) = none)
    (hmissing : ∀ q, t.resolve (n :: p) ≠ .ok q)
    (htree : t'.node = Function.update m.tree.node (n :: p) (some .directory)) :
    Ready t (n :: path) (n :: p) ⟨t', m.made ++ [n :: p], .ok ()⟩ := by
  have hself : t'.node (n :: p) = some .directory := by simp [htree]
  have hne : ∀ q, q ≠ n :: p → t'.node q = m.tree.node q := by
    intro q hq
    simp [htree, hq]
  have hold : t.node (n :: p) = none := by
    by_contra hold
    exact hold ((h.extends_ _ hold).symm.trans hnew)
  have hext : ∀ q, m.tree.node q ≠ none → t'.node q = m.tree.node q :=
    fun q hq => hne q fun he => hq (he ▸ hnew)
  refine
    { resolved := ?_, directory := hself, reached := .missing h.reached hmissing
      extends_ := fun q hq => ?_, only := fun q hq => ?_, made := fun q hq => ?_
      fresh := fun _ => ⟨hmissing, fun x => ?_⟩ }
  · have hpath : t'.resolve path = .ok p := walk_extends hext h.resolved
    have hp : t'.IsDirectory p := by
      unfold IsDirectory
      rw [hext p (by rw [h.directory]; simp)]
      exact h.directory
    unfold resolve at hpath ⊢
    rw [route_cons]
    exact walk_snoc hpath hp hself
  · have hq' := h.extends_ q hq
    rw [hne q (fun he => hq (he ▸ hold)), hq']
  · have hnot : q ∉ m.made ∧ q ≠ n :: p := by simpa using hq
    rw [hne q hnot.2, h.only q hnot.1]
  · rcases List.mem_append.mp hq with hq | hq
    · obtain ⟨hnone, hsuffix⟩ := h.made q hq
      exact ⟨hnone, hsuffix.trans (List.suffix_cons n p)⟩
    · obtain rfl := List.mem_singleton.mp hq
      exact ⟨hold, List.suffix_refl _⟩
  have hx : x :: n :: p ≠ n :: p := List.cons_ne_self _ _
  show t'.node (x :: n :: p) = none
  rw [hne _ hx]
  by_contra hchild
  have hdir := m.tree.closed _ _ hchild
  rw [hnew] at hdir
  simp at hdir

omit [DecidableEq Name] in
theorem ready_found (hpath : t.resolve path = .ok p) (hp : t.IsDirectory p) :
    Ready t path p ⟨t, [], .ok ()⟩ :=
  ⟨hpath, hp, .found hpath, fun _ _ => rfl, fun _ _ => rfl, nofun, nofun⟩

omit [DecidableEq Name] in
/-- Where the parent had to be made, its new entry is made at the first attempt. -/
theorem Ready.mkdir {m : Made Name} (h : Ready t path p m)
    (hpath : t.resolve path = .error .notFound) :
    m.tree.node (n :: p) = none ∧ ∀ q, t.resolve (n :: p) ≠ .ok q := by
  have hmade : m.made ≠ [] := by
    intro hnil
    have hsame : ∀ q, m.tree.node q ≠ none → t.node q = m.tree.node q :=
      fun q _ => (h.only q (by simp [hnil])).symm
    have hfound : t.resolve path = .ok p := walk_extends hsame h.resolved
    rw [hpath] at hfound
    simp at hfound
  obtain ⟨hmissing, hchildren⟩ := h.fresh hmade
  exact ⟨hchildren n, fun q => resolve_missing hmissing q⟩

/-- `create_dir_all` either makes no directory and fails, or answers for one. -/
theorem createDirAll_cases (path : List Name) :
    (∃ e, t.createDirAll path = ⟨t, [], .error e⟩) ∨
      ∃ p, (t.createDirAll path).result = .ok () ∧ Ready t path p (t.createDirAll path) := by
  induction path with
  | nil => exact .inr ⟨[], rfl, ready_found walk_nil t.top⟩
  | cons n path ih =>
    simp only [createDirAll]
    split
    · rename_i q t' hmkdir
      obtain ⟨p, hpath, hp, hn, rfl, htree⟩ := mkdir_ok hmkdir
      have hmissing : ∀ q, t.resolve (n :: p) ≠ .ok q := by
        intro q
        rw [resolve_new hp hn]
        simp
      exact .inr ⟨n :: p, rfl, (ready_found hpath hp).snoc hn hmissing htree⟩
    · rename_i hmkdir
      have hpath := mkdir_notFound hmkdir
      rcases ih with ⟨e, he⟩ | ⟨p, hok, hready⟩
      · rw [he]
        exact .inl ⟨e, rfl⟩
      obtain ⟨hnew, hmissing⟩ := hready.mkdir (n := n) hpath
      have hdirectory := hready.directory
      rw [hok, mkdir_eq (h := hdirectory) hready.resolved hnew]
      exact .inr ⟨n :: p, rfl, hready.snoc hnew hmissing rfl⟩
    · rename_i e _ hmkdir
      split
      · rename_i hdir
        obtain ⟨p, hpath, hp⟩ := isDir_iff.mp hdir
        exact .inr ⟨p, rfl, ready_found hpath hp⟩
      · exact .inl ⟨e, rfl⟩

end Making

end FileTree

end Framework
