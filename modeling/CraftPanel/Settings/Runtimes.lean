import Mathlib.Algebra.Group.Nat.Defs
import Mathlib.Data.List.Sort
import CraftPanel.Model

/-!
# Installed runtimes

`settings/runtimes.rs`: which Java runtimes a machine has, in the order they are listed in, and
which of them the panel shows for a server. A text is the list of its characters.
-/

namespace CraftPanel.Settings

abbrev Text := List Char

inductive JreVendor
  | temurin | corretto | graal
  deriving DecidableEq

/-- The order of the names `corretto`, `graal`, `temurin`. -/
def JreVendor.rank : JreVendor → Nat
  | .corretto => 0
  | .graal => 1
  | .temurin => 2

inductive Source
  | system | managed
  deriving DecidableEq

structure JavaRuntime where
  major : Nat
  vendor : JreVendor
  version : Text
  path : Option Text
  source : Source
  installed : Bool

/-- What the release file of a home says. -/
structure Release where
  major : Nat
  vendor : JreVendor
  version : Text

/-- The homes in the order of `candidates`, and what `read_home` finds in each. `systemJava` is
`/usr/bin/java` where there is one. -/
structure Machine where
  dataDir : Text
  candidates : List (Text × Source)
  release : Text → Option Release
  systemJava : Text

namespace JavaRuntime

/-- The key of the map in `discover`. -/
def key (runtime : JavaRuntime) : Nat × JreVendor := (runtime.major, runtime.vendor)

/-- The order of the list: newest first, then by the vendor's name. -/
def before (left right : JavaRuntime) : Prop :=
  right.major < left.major ∨
    left.major = right.major ∧ left.vendor.rank ≤ right.vendor.rank

instance : DecidableRel before := fun left right =>
  inferInstanceAs (Decidable (right.major < left.major ∨
    left.major = right.major ∧ left.vendor.rank ≤ right.vendor.rank))

end JavaRuntime

/-- `home.join("bin").join("java")`. -/
def binary (home : Text) : Text := home ++ "/bin/java".toList

def readHome (m : Machine) (home : Text × Source) : Option JavaRuntime :=
  (m.release home.1).map fun release =>
    { major := release.major
      vendor := release.vendor
      version := release.version
      path := some (binary home.1)
      source := home.2
      installed := true }

/-- `entry(…).or_insert(…)` for each: the first runtime of each key. -/
def firstOfKey : List JavaRuntime → List JavaRuntime
  | [] => []
  | runtime :: rest => runtime :: (firstOfKey rest).filter fun other => other.key ≠ runtime.key

def discover (m : Machine) : List JavaRuntime :=
  (firstOfKey (m.candidates.filterMap (readHome m))).insertionSort JavaRuntime.before

/-- `str::parse::<u32>`. -/
def parseU32 (text : Text) : Option Nat :=
  let digits := if text.head? = some '+' then text.tail else text
  let number := digits.foldl (fun n digit => 10 * n + (digit.toNat - 48)) 0
  if digits.isEmpty || digits.any (fun digit => !digit.isDigit) || 2 ^ 32 ≤ number then none
  else some number

def defaultMajor (gameVersion : Text) : Option Nat :=
  match gameVersion.splitOn '.' with
  | [] => none
  | first :: rest => do
    let major ← parseU32 first
    if 1 < major then
      return if 26 ≤ major then 25 else 21
    else
      let second ← rest.head?
      let minor ← parseU32 (second.takeWhile fun letter => letter ≠ '-' && letter ≠ ' ')
      return if 20 ≤ minor then 21 else if 17 ≤ minor then 17 else 8

/-- `major.or_else(|| default_major(game_version?))`. -/
def wantedMajor (major : Option Nat) (gameVersion : Option Text) : Option Nat :=
  major.orElse fun _ => gameVersion.bind defaultMajor

def ofVendor (vendor : Option JreVendor) (runtime : JavaRuntime) : Bool :=
  vendor.all (runtime.vendor = ·)

def ofMajor (wanted : Option Nat) (runtime : JavaRuntime) : Bool :=
  wanted.all (runtime.major = ·)

def pick (runtimes : List JavaRuntime) (major : Option Nat) (vendor : Option JreVendor)
    (gameVersion : Option Text) : Option JavaRuntime :=
  let wanted := wantedMajor major gameVersion
  ((runtimes.find? fun runtime => ofMajor wanted runtime && ofVendor vendor runtime).or
    (runtimes.find? (ofVendor vendor))).or runtimes.head?

def LONG_TERM : List Nat := [8, 11, 17, 21, 25]

def atMost (wanted : Nat) : Nat := (LONG_TERM.find? (wanted < ·)).getD (2 ^ 32 - 1)

def standsInFor (found wanted : Nat) : Bool := wanted ≤ found && found ≤ atMost wanted

section Listed

variable {m : Machine} {runtime : JavaRuntime}

theorem mem_firstOfKey {runtimes : List JavaRuntime} (h : runtime ∈ firstOfKey runtimes) :
    runtime ∈ runtimes := by
  induction runtimes with
  | nil => cases h
  | cons first rest ih =>
    rcases List.mem_cons.mp h with rfl | hrest
    · exact List.mem_cons_self
    · exact List.mem_cons_of_mem _ (ih (List.mem_of_mem_filter hrest))

theorem firstOfKey_distinct (runtimes : List JavaRuntime) :
    ((firstOfKey runtimes).map JavaRuntime.key).Nodup := by
  induction runtimes with
  | nil => exact List.nodup_nil
  | cons first rest ih =>
    apply List.nodup_cons.mpr ⟨_, ih.sublist (List.filter_sublist.map _)⟩
    intro hmem
    obtain ⟨other, hother, hkey⟩ := List.mem_map.mp hmem
    have hne : other.key ≠ first.key := by simpa using (List.mem_filter.mp hother).2
    exact hne hkey

theorem mem_discover (h : runtime ∈ discover m) : ∃ home, readHome m home = some runtime := by
  have hmem := mem_firstOfKey ((List.mem_insertionSort _).mp h)
  obtain ⟨home, -, hhome⟩ := List.mem_filterMap.mp hmem
  exact ⟨home, hhome⟩

theorem discover_path (h : runtime ∈ discover m) : runtime.path.isSome := by
  obtain ⟨home, hhome⟩ := mem_discover h
  obtain ⟨release, -, rfl⟩ := Option.map_eq_some_iff.mp hhome
  rfl

theorem discover_apart {a b : JavaRuntime} (ha : a ∈ discover m) (hb : b ∈ discover m)
    (hpath : a.path = b.path) : a = b := by
  obtain ⟨home, hhome⟩ := mem_discover ha
  obtain ⟨home', hhome'⟩ := mem_discover hb
  obtain ⟨release, hrelease, rfl⟩ := Option.map_eq_some_iff.mp hhome
  obtain ⟨release', hrelease', rfl⟩ := Option.map_eq_some_iff.mp hhome'
  have hsame : home.1 = home'.1 := List.append_cancel_right (Option.some.inj hpath)
  rw [hsame, hrelease'] at hrelease
  cases hrelease
  have hkeys := ((List.perm_insertionSort JavaRuntime.before _).map JavaRuntime.key).nodup_iff.mpr
    (firstOfKey_distinct (m.candidates.filterMap (readHome m)))
  exact List.inj_on_of_nodup_map hkeys ha hb rfl

end Listed

end CraftPanel.Settings
