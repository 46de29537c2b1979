import Mathlib.Algebra.GroupWithZero.Nat
import CraftPanel.Content.Items
import CraftPanel.Framework.Requests
import CraftPanel.Framework.TreeEdits
import CraftPanel.Settings.Failure

/-!
# Content paths

`content/paths.rs`: a path is checked as text, then looked at component by component, and what is
done at it is done by further calls on the path that came out. Each call of `std::fs` is one
statement; between two of them anything can happen to the tree. Where the server's directory is,
is the panel's own doing, so its canonical path does not change.
-/

namespace CraftPanel.Content.Paths

open Framework

inductive PathFault
  | invalid | tooLong | escapes
  deriving DecidableEq

inductive Fault
  | path (fault : PathFault)
  | io (e : Errno)

def maxSegment : Nat := 255

def maxPath : Nat := 4096

def maxDepth : Nat := 64

/-- `str::len`. -/
def byteLength (text : Text) : Nat := (text.map Char.utf8Size).sum

def segmentsOf : List Text → Except PathFault (List Text)
  | [] => .ok []
  | segment :: rest =>
    if segment = [] ∨ segment = ".".toList then segmentsOf rest
    else if segment = "..".toList then .error .invalid
    else if byteLength segment > maxSegment then .error .tooLong
    else (segmentsOf rest).map fun segments => segment :: segments

def normalise (raw : Text) : Except PathFault (List Text) :=
  if byteLength raw > maxPath then .error .tooLong
  else if Char.ofNat 0 ∈ raw then .error .invalid
  else match segmentsOf (raw.splitOn '/') with
    | .error fault => .error fault
    | .ok segments => if segments.length > maxDepth then .error .tooLong else .ok segments

/-- A path, its last name first. -/
abbrev Path := List Text

inductive Kind
  | directory | file | link
  deriving DecidableEq

/-- The calls; `moveIn` and `copyIn` bring the staged file, which lies in the panel's own work
directory, to a path: `std::fs::rename` and `std::fs::copy`. -/
inductive Statement
  | canonicalizeRoot
  | canonicalize (path : Path)
  | symlinkMetadata (path : Path)
  | isDir (path : Path)
  | createDir (path : Path)
  | removeFile (path : Path)
  | removeDirAll (path : Path)
  | moveIn (path : Path)
  | copyIn (path : Path)
  | rename (source destination : Path)

abbrev Answer : Statement → Type
  | .canonicalize _ => Path
  | .symlinkMetadata _ => Kind
  | .isDir _ => Bool
  | _ => Unit

abbrev Asking (α : Type) := Request Answer Fault α

abbrev ask (statement : Statement) : Asking (Answer statement) := Request.run statement

/-- A call whose failure is looked at. -/
abbrev tried (statement : Statement) : Asking (Except Fault (Answer statement)) :=
  (ask statement).attempt

def discard (x : Asking Unit) : Asking Unit := x.attempt >>= fun _ => pure ()

def walk (root : Path) : Path → List Text → Asking Path
  | here, [] => pure here
  | here, segment :: rest => tried (.symlinkMetadata (segment :: here)) >>= fun found =>
    match found with
    | .ok .link => tried (.canonicalize (segment :: here)) >>= fun target =>
      match target with
      | .ok target => if root <:+ target then walk root target rest else .fail (.path .escapes)
      | .error _ => .fail (.path .escapes)
    | _ => walk root (segment :: here) rest

def resolveLeaf (root : Path) (raw : Text) : Asking Path :=
  match normalise raw with
  | .error fault => .fail (.path fault)
  | .ok segments => match segments.reverse with
    | [] => .fail (.path .invalid)
    | last :: before => tried .canonicalizeRoot >>= fun found =>
      match found with
      | .error _ => .fail (.path .escapes)
      | .ok _ => walk root root before.reverse >>= fun here => pure (last :: here)

def remove (path : Path) : Asking Unit :=
  tried (.symlinkMetadata path) >>= fun found =>
    match found with
    | .ok .directory => ask (.removeDirAll path)
    | .ok _ => ask (.removeFile path)
    | .error (.io .notFound) => pure ()
    | .error fault => .fail fault

def clearDestination (path : Path) : Asking Unit :=
  tried (.symlinkMetadata path) >>= fun found =>
    match found with
    | .ok _ => remove path
    | .error (.io .notFound) => pure ()
    | .error fault => .fail fault

def unlessDirectory (path : Path) (fault : Fault) : Asking Unit :=
  tried (.isDir path) >>= fun found =>
    match found with
    | .ok true => pure ()
    | _ => .fail fault

def createDirAll : Path → Asking Unit
  | [] => unlessDirectory [] (.io .other)
  | n :: parent => tried (.createDir (n :: parent)) >>= fun made =>
    match made with
    | .ok _ => pure ()
    | .error (.io .notFound) => createDirAll parent >>= fun _ =>
      tried (.createDir (n :: parent)) >>= fun again =>
        match again with
        | .ok _ => pure ()
        | .error fault => unlessDirectory (n :: parent) fault
    | .error fault => unlessDirectory (n :: parent) fault

def place (root : Path) (relative : Text) : Asking Unit :=
  resolveLeaf root relative >>= fun target =>
    createDirAll target.tail >>= fun _ =>
      clearDestination target >>= fun _ =>
        tried (.moveIn target) >>= fun moved =>
          match moved with
          | .ok _ => pure ()
          | .error _ => ask (.copyIn target)

def renameWithin (root : Path) (source destination : Text) : Asking Unit :=
  resolveLeaf root source >>= fun source =>
    resolveLeaf root destination >>= fun destination =>
      ask (.rename source destination)

/-- `let_the_panel_in`; the helper hands files over and moves none. -/
def letThePanelIn (path : Path) : Asking Unit :=
  tried (.symlinkMetadata path) >>= fun _ => pure ()

def takeAway (root : Path) (path : Text) : Asking Unit :=
  resolveLeaf root path >>= fun full => letThePanelIn full >>= fun _ => remove full

end CraftPanel.Content.Paths
