import CraftPanel.Framework.FileTree

/-!
# Unpacking a backup

`unpack` of `backups/archive.rs` with its checks, entry by entry, on a file tree. Paths come as
their components, as `Path::components` gives them. The tar crate is a parameter: it writes one
entry at the path it is given, links in the parent being followed, and takes no directory away.
-/

namespace CraftPanel.Backups

open Framework

/-- The type of a tar entry; a link entry with the target it holds. -/
inductive EntryType
  | directory
  | file
  | symlink (target : Option (Route String))
  | hardLink
  | special
  deriving DecidableEq

structure Entry where
  path : Route String
  kind : EntryType
  deriving DecidableEq

/-- What the loop over `entries` comes to next. -/
inductive Read
  | entry (entry : Entry)
  | unreadable
  | cancelled

inductive Failure
  | leaves | nameless | hardLink | noTarget | pointsOut
  | system (e : Errno)
  | unreadable
  | cancelled

/-- `Entry::unpack` of the tar crate, with `set_overwrite(true)`. -/
structure Tar where
  unpack : FileTree String → List String → EntryType → FileTree String × Except Errno Unit
  /-- Only the place that the path names is written. -/
  writes : ∀ t n path kind p, t.resolve path = .ok p → ∀ q, q ≠ n :: p →
    (unpack t (n :: path) kind).1.node q = t.node q
  keeps : ∀ t path kind p, t.IsDirectory p → (unpack t path kind).1.IsDirectory p
  /-- A link has the target of its entry. -/
  links : ∀ t path kind p target, (unpack t path kind).1.node p = some (.link target) →
    t.node p = some (.link target) ∨ kind = .symlink (some target)

/-- A directory as `create_dir_all` and `canonicalize` leave it. -/
structure Opened where
  tree : FileTree String
  root : List String
  directory : tree.IsDirectory root

/-- `confine`, the names kept last first. -/
def confineParts : List String → List (Component String) → Except Failure (List String)
  | safe, [] => if safe.isEmpty then .error .nameless else .ok safe
  | safe, .name n :: rest => confineParts (n :: safe) rest
  | safe, .here :: rest => confineParts safe rest
  | _, .up :: _ => .error .leaves

def confine (path : Route String) : Except Failure (List String) :=
  if path.isAbsolute then .error .leaves else confineParts [] path.parts

/-- `land`: each name is followed where it can be, and taken as it is written where it cannot. -/
def land (t : FileTree String) : List String → List (Component String) → List String
  | real, [] => real
  | real, .here :: rest => land t real rest
  | real, .up :: rest => land t real.tail rest
  | real, .name n :: rest => match t.resolve (n :: real) with
    | .ok followed => land t followed rest
    | .error _ => land t (n :: real) rest

def confineLink (t : FileTree String) (root link : List String) (target : Route String) : Bool :=
  !target.isAbsolute && root.isSuffixOf (land t [] (route (link.tail ++ root) ++ target.parts))

def check (t : FileTree String) (root : List String) (entry : Entry) :
    Except Failure (List String) :=
  match confine entry.path with
  | .error e => .error e
  | .ok inside => match entry.kind with
    | .hardLink => .error .hardLink
    | .symlink none => .error .noTarget
    | .symlink (some target) =>
      if confineLink t root inside target then .ok inside else .error .pointsOut
    | .directory | .file | .special => .ok inside

/-- What is left when an entry, or the archive up to its end or a failure, is unpacked, and the
places that were written on the way. -/
structure Unpacked where
  tree : FileTree String
  touched : List (List String) := []
  result : Except Failure Unit := .ok ()

section

variable (tar : Tar) (root : List String)

def unpackEntry (t : FileTree String) (entry : Entry) : Unpacked :=
  match check t root entry with
  | .error e => ⟨t, [], .error e⟩
  | .ok inside => match inside ++ root with
    | [] => ⟨t, [], .ok ()⟩
    | n :: parent =>
      let made := t.createDirAll parent
      match made.result, made.tree.resolve parent with
      | .ok _, .ok p =>
        let (tree, result) := tar.unpack made.tree (n :: parent) entry.kind
        ⟨tree, made.made ++ [n :: p], result.mapError .system⟩
      | .ok _, .error e | .error e, _ => ⟨made.tree, made.made, .error (.system e)⟩

/-- The loop of `unpack`. -/
def unpackFrom (t : FileTree String) : List Read → Unpacked
  | [] => ⟨t, [], .ok ()⟩
  | .unreadable :: _ => ⟨t, [], .error .unreadable⟩
  | .cancelled :: _ => ⟨t, [], .error .cancelled⟩
  | .entry entry :: rest =>
    let first := unpackEntry tar root t entry
    match first.result with
    | .error e => { first with result := .error e }
    | .ok _ =>
      let others := unpackFrom first.tree rest
      { others with touched := first.touched ++ others.touched }

end

def unpack (tar : Tar) (into : Opened) (reads : List Read) : Unpacked :=
  unpackFrom tar into.root into.tree reads

def replacing (t : FileTree String) (n : String) (p : List String) (node : Node String) :
    FileTree String × Except Errno Unit :=
  if hp : t.node p = some .directory then
    if hn : t.node (n :: p) = some .directory then (t, .error .isDirectory)
    else (t.put n p node hp hn, .ok ())
  else (t, .error .notDirectory)

/-- `Entry::unpack` as the crate has it, on a tree in which nothing else can fail. -/
def overwriting (t : FileTree String) :
    List String → EntryType → FileTree String × Except Errno Unit
  | [], _ => (t, .error .exists)
  | n :: path, kind => match t.resolve path with
    | .error e => (t, .error e)
    | .ok p => match kind with
      | .directory =>
        if t.node (n :: p) = none then replacing t n p .directory
        else (t, if t.isDir (n :: path) then .ok () else .error .exists)
      | .file | .special => replacing t n p .file
      | .symlink (some target) =>
        if target.parts.isEmpty && !target.isAbsolute then (t, .error .other)
        else replacing t n p (.link target)
      | .symlink none | .hardLink => (t, .error .other)

end CraftPanel.Backups
