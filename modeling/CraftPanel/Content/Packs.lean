import Mathlib.Algebra.Group.Nat.Defs
import CraftPanel.Content.Modrinth
import CraftPanel.Framework.Effects
import CraftPanel.Framework.FileMap

/-!
# Modpacks

`content/mrpack.rs`: what the ZIP crate finds in a pack, and the overrides among it. The server's
directory is what files it holds; there are no links in it. What is asked of Modrinth is answered
by the surroundings, whatever the answer.
-/

namespace CraftPanel.Content.Packs

open Framework
open Paths (normalise PathFault)

abbrev Bytes := List UInt8

/-- The names on the way to a file, the first one first. -/
abbrev Place := List Text

def MAX_UNPACKED : Nat := 2 * 1024 * 1024 * 1024
def MAX_RATIO : Nat := 200
def U64_MAX : Nat := 2 ^ 64 - 1

inductive PackFault
  | notAnArchive
  | noIndex (why : String)
  | escapes (path : Text)
  | tooLarge
  | io (error : IoError)
  deriving DecidableEq

structure PackEnv where
  server : Option Text := none

structure PackFile where
  path : Text
  hashes : MrHashes := {}
  env : Option PackEnv := none
  downloads : List Text := []
  fileSize : Nat := 0

structure Index where
  game : String := "minecraft"
  versionId : String := ""
  name : String := ""
  files : List PackFile := []

/-- An entry of the archive. `enclosed` is its `enclosed_name`, where it has one, and in there the
text of it, where it is one; the body has not yet been read. -/
structure Entry where
  name : Text
  enclosed : Option (Option Text) := some (some name)
  isDir : Bool := false
  size : Nat := 0
  body : Bytes := []

/-- What the ZIP crate finds; an entry that it cannot give is `none`. The document is what becomes
of `modrinth.index.json`. -/
structure Archive where
  entries : List (Option Entry) := []
  packedBytes : Nat := 0
  document : Except PackFault Index := .ok {}

structure Pack where
  entries : List (Option Entry)
  packedBytes : Nat
  index : Index

def relative (raw : Text) : Except PathFault Text := (normalise raw).map ['/'].intercalate

/-- `paths::resolve_leaf`, below the directory that it begins at. -/
def resolveLeaf (raw : Text) : Except PathFault Place :=
  match normalise raw with
  | .error fault => .error fault
  | .ok [] => .error .invalid
  | .ok place => .ok place

def OVERRIDES : List Text := ["overrides/".toList, "server-overrides/".toList]

structure Unpacked where
  folder : FileMap Text Bytes := .empty
  written : List Text := []
  unpacked : Nat := 0

/-- The path of an entry below the directory of overrides that is being gone through. -/
def overrideName (top : Text) (entry : Entry) : Except PackFault (Option Text) :=
  match entry.enclosed with
  | none => .error (.escapes entry.name)
  | some none => .ok none
  | some (some name) =>
    if top.isPrefixOf name then
      let rest := name.drop top.length
      if rest = [] ∨ entry.isDir then .ok none
      else match relative rest with
        | .error _ => .error (.escapes name)
        | .ok [] => .ok none
        | .ok path => match resolveLeaf path with
          | .error .tooLong => .error .tooLarge
          | .error _ => .error (.escapes name)
          | .ok _ => .ok (some path)
    else .ok none

/-- `resolve_leaf` of what was resolved before. -/
def placeOf (path : Text) : Place := (resolveLeaf path).toOption.getD []

def ceiling (pack : Pack) : Nat := max (min (pack.packedBytes * MAX_RATIO) U64_MAX) MAX_RATIO

def notADirectory : IoError := { text := "Not a directory (os error 20)" }

/-- The entries in the order they are gone through in, once for each directory of overrides. -/
def rounds (pack : Pack) : List (Text × Option Entry) :=
  OVERRIDES.flatMap fun top => pack.entries.map fun entry => (top, entry)

/-- `content_dependencies`. -/
structure Dependency where
  contentId : Id
  projectId : String
  kind : String

/-- What everything else answers; `sends` is what an address sends at the n-th download of the
run. -/
structure Surroundings where
  sends : Nat → Text → Except Upstream Bytes := fun _ _ => .ok []
  sha1 : Bytes → Text := fun _ => []
  sha512 : Bytes → Text := fun _ => []

def asExpected (expected : Option Text) (actual : Text) : Bool :=
  match expected with
  | none => true
  | some value => (Settings.trim value).map Char.toLower = actual.map Char.toLower

/-- `Modrinth::download`, at the n-th download of the run. -/
def downloaded (env : Surroundings) (n : Nat) (url : Text) (hashes : MrHashes) :
    Except Upstream Bytes :=
  (env.sends n url).bind fun body =>
    if asExpected hashes.sha512 (env.sha512 body) && asExpected hashes.sha1 (env.sha1 body) then
      .ok body
    else .error .damaged

/-- `INSERT OR IGNORE`: a project is named once for a row. -/
def enterDependency (content : Id) (known : List Dependency) (named : String × String) :
    List Dependency :=
  if known.any fun old => old.contentId = content ∧ old.projectId = named.1 then known
  else known ++ [⟨content, named.1, named.2⟩]

end CraftPanel.Content.Packs
