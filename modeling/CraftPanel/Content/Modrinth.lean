import CraftPanel.Content.Paths
import CraftPanel.Settings.Startup

/-!
# Modrinth

`content/modrinth.rs`: what is known of a version, and the faults of asking and of downloading. The
instant that a version's date is read as is part of it, and so are the texts of errors that other
crates give.
-/

namespace CraftPanel.Content

open Settings (LoaderId)

/-- `std::io::Error`: whether the disk or the quota is full, and its text. -/
structure IoError where
  full : Bool := false
  text : String := ""
  deriving DecidableEq

inductive Upstream
  | rateLimited
  | unavailable (why : String)
  | unreadable (why : String)
  | notFound (what : String)
  | damaged
  | io (error : IoError)
  | database (text : String)
  deriving DecidableEq

def Upstream.message : Upstream → String
  | rateLimited => "Modrinth is rate limiting us"
  | unavailable why => "Modrinth did not answer: " ++ why
  | unreadable why => "Modrinth answered something we cannot read: " ++ why
  | notFound what => what ++ " is not on Modrinth"
  | damaged => "the file does not match the checksum Modrinth published for it"
  | io error => error.text
  | database text => text

structure MrHashes where
  sha1 : Option Text := none
  sha512 : Option Text := none
  deriving DecidableEq

structure MrFile where
  hashes : MrHashes := {}
  url : Text := []
  filename : Text := []
  primary : Bool := false
  size : Nat := 0
  deriving DecidableEq

structure MrDependency where
  projectId : Option String := none
  versionId : Option String := none
  dependencyType : String
  deriving DecidableEq

structure MrVersion where
  id : String
  projectId : String := ""
  versionNumber : String := ""
  versionType : String := "release"
  gameVersions : List String := []
  loaders : List String := []
  published : Option Timestamp := none
  dependencies : List MrDependency := []
  files : List MrFile := []
  deriving DecidableEq

namespace MrVersion

def primaryFile (version : MrVersion) : Option MrFile :=
  (version.files.find? MrFile.primary).or version.files.head?

def requires (version : MrVersion) : List String :=
  (version.dependencies.filter fun dependency => dependency.dependencyType = "required").filterMap
    MrDependency.projectId

def named (version : MrVersion) : List (String × String) :=
  version.dependencies.filterMap fun dependency =>
    dependency.projectId.map fun project => (project, dependency.dependencyType)

/-- It is as new as the other one; a version without a date is the oldest. -/
def later (left right : MrVersion) : Bool :=
  match right.published, left.published with
  | none, _ => true
  | some _, none => false
  | some right, some left => decide (right ≤ left)

/-- `sort_by(|left, right| right.published().cmp(&left.published()))`. -/
def newestFirst (versions : List MrVersion) : List MrVersion :=
  versions.insertionSort fun left right => later left right

@[simp] theorem mem_newestFirst {versions : List MrVersion} {version : MrVersion} :
    version ∈ newestFirst versions ↔ version ∈ versions :=
  List.mem_insertionSort _

theorem pairwise_newestFirst (versions : List MrVersion) :
    (newestFirst versions).Pairwise fun left right => later left right = true := by
  have htotal : Std.Total fun left right => later left right = true := by
    constructor
    intro left right
    unfold later
    cases left.published <;> cases right.published <;> simp
    exact Nat.le_total _ _
  have htrans : IsTrans MrVersion fun left right => later left right = true := by
    constructor
    intro a b c
    unfold later
    cases a.published <;> cases b.published <;> cases c.published <;> simp
    intro hba hcb
    exact Nat.le_trans hcb hba
  exact List.pairwise_insertionSort _ versions

/-- It was published before the other one. -/
def Before (left right : MrVersion) : Prop :=
  ∃ earlier later, left.published = some earlier ∧ right.published = some later ∧ earlier < later

end MrVersion

def contentType : LoaderId → ContentProjectType
  | .vanilla => .datapack
  | .paper | .folia | .purpur | .leaf | .velocity => .plugin
  | .fabric | .quilt | .neoForge | .forge => .mod

def download (error : Upstream) : OperationError where
  code := match error with
    | .damaged => "checksum_mismatch"
    | .io _ => "no_space"
    | _ => "upstream_unavailable"
  message := error.message
  step := .download

def filesystem (error : IoError) : OperationError where
  code := if error.full then "no_space" else "invalid_path"
  message := error.text
  step := .filesystem

def internal (text : String) : OperationError where
  code := "internal"
  message := text
  step := .internal

def Paths.PathFault.message : Paths.PathFault → String
  | invalid => "that path cannot be used"
  | tooLong => "that path is too long"
  | escapes => "that path leads out of the server directory"

end CraftPanel.Content
