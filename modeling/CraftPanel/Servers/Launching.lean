import CraftPanel.Framework.Firsts
import CraftPanel.Settings.Startup

/-!
# The command that is launched

`java` and `argv` of `servers/manager.rs` beside the startup view: which Java a start takes, and
with which arguments. The two follow rules of their own; `shown_command_is_launched_iff` says for
which servers and machines they come to the same.
-/

namespace CraftPanel.Servers.Launching

open Framework Settings
open Settings.Startup (view launchOf managedFlags heapFlag isPanelMemoryFlag tokenise
  tokenise_render)

def JAR : Text := "server.jar".toList

/-- The flags that `argv` leaves out. -/
def owned : List Text :=
  ["-Xmx".toList, "-Xms".toList, "-XX:MaxRAM".toList, "-XX:MaxHeapSize".toList]

def argv (loader : Option LoaderId) (memoryMib : Nat) (extra : List Text) : List Text :=
  heapFlag memoryMib :: (extra.filter fun flag => !owned.any (·.isPrefixOf flag)) ++
    ["-jar".toList, JAR] ++ if loader ≠ some .velocity then ["nogui".toList] else []

def home (m : Machine) (major : Nat) : Text :=
  m.dataDir ++ "/runtimes/java-".toList ++ Nat.toDigits 10 major

/-- `Runtimes::present`: the runtime that the panel has laid out itself. -/
def present (m : Machine) (major : Nat) : Option JavaRuntime :=
  let managed := { m with candidates := m.candidates.filter fun found => found.2 = .managed }
  (discover managed).find? fun runtime =>
    runtime.source = .managed && runtime.major = major &&
      runtime.path.any fun path => (home m major ++ ['/']).isPrefixOf path

def binaryOf (here : List JavaRuntime) (wanted : Nat → Bool) : Option Text :=
  ((here.filter fun runtime => wanted runtime.major).insertionSort
    (fun a b => a.major ≤ b.major)).findSome? JavaRuntime.path

def dedup : List Text → List Text
  | first :: second :: rest =>
    if first = second then dedup (second :: rest) else first :: dedup (second :: rest)
  | majors => majors

def noJavaHere (here : List JavaRuntime) (major : Nat) : String :=
  let majors := dedup (here.map fun found => Nat.toDigits 10 found.major)
  let machine :=
    if majors.isEmpty then "this machine has no Java at all"
    else "this machine has Java " ++ String.ofList (", ".toList.intercalate majors) ++
      s!", and a server that asks for Java {major} does not run on that"
  machine ++ ". Turn \"Fetch Java by itself\" back on in the panel settings, or put one " ++
    s!"there yourself (apt install openjdk-{major}-jre-headless)"

/-- `java`. `fetches` is the setting `java_auto_install`. -/
def java (m : Machine) (fetches : Bool) (row : Startup.ServerRow) : Except Failure Text :=
  match wantedMajor row.javaMajor row.gameVersion with
  | none => .ok m.systemJava
  | some major =>
    match (present m major).bind JavaRuntime.path with
    | some managed => .ok managed
    | none =>
      match binaryOf (discover m) (· = major) with
      | some exact => .ok exact
      | none =>
        if fetches then
          .error (.conflict "java_runtime_fetching"
            (s!"this server needs Java {major}, which is not on this machine. " ++
              "The panel is fetching it now; start again once that run is done."))
        else
          match binaryOf (discover m) (standsInFor · major) with
          | some near => .ok near
          | none => .error (.conflict "java_runtime_missing" (noJavaHere (discover m) major))

/-- The start takes the first of these: the runtime the panel has laid out for the major, or those
of the major, or the lowest of those that stand in for it. -/
def mayStartOn (m : Machine) (row : Startup.ServerRow) (runtime : JavaRuntime) : Bool :=
  match wantedMajor row.javaMajor row.gameVersion with
  | none => runtime.path = some m.systemJava
  | some major => match (present m major).bind JavaRuntime.path with
    | some managed => runtime.path = some managed
    | none =>
      if (discover m).any (·.major = major) then runtime.major = major
      else standsInFor runtime.major major && (discover m).all fun other =>
        !standsInFor other.major major || runtime.major ≤ other.major

/-- The view shows the first of these: those of the major and the vendor, or of the vendor, or
all. -/
def mayShow (m : Machine) (row : Startup.ServerRow) (runtime : JavaRuntime) : Bool :=
  let fits := fun runtime =>
    ofMajor (wantedMajor row.javaMajor row.gameVersion) runtime && ofVendor row.jreVendor runtime
  if (discover m).any fits then fits runtime
  else if (discover m).any (ofVendor row.jreVendor) then ofVendor row.jreVendor runtime
  else true

/-- The jar is the one of `argv`, no flag is left out, and the first runtime that the start may take
or the view may show is both. -/
def heeds (m : Machine) (row : Startup.ServerRow) : Bool :=
  row.loader ≠ some .quilt && row.extraFlags.all (!isPanelMemoryFlag ·) &&
    ((discover m).find? fun runtime => mayStartOn m row runtime || mayShow m row runtime).any
      fun runtime => mayStartOn m row runtime && mayShow m row runtime

section Choices

variable {m : Machine} {row : Startup.ServerRow} {fetches : Bool} {program : Text}

theorem pick_eq : pick (discover m) row.javaMajor row.jreVendor row.gameVersion =
    (discover m).find? (mayShow m row) := by
  have hhead : (discover m).head? = (discover m).find? fun _ => true := by
    cases discover m <;> rfl
  unfold pick
  simp only
  rw [Option.or_assoc, hhead, find?_or_find?, find?_or_find?]
  rfl

theorem findSome?_path {runtimes : List JavaRuntime} (h : ∀ r ∈ runtimes, r.path.isSome) :
    runtimes.findSome? JavaRuntime.path = runtimes.head?.bind JavaRuntime.path := by
  cases runtimes with
  | nil => rfl
  | cons first rest =>
    obtain ⟨path, hpath⟩ := Option.isSome_iff_exists.mp (h first List.mem_cons_self)
    simp [hpath]

theorem binaryOf_eq {wanted : Nat → Bool} : binaryOf (discover m) wanted =
    ((discover m).find? fun runtime => wanted runtime.major && (discover m).all fun other =>
      !wanted other.major || runtime.major ≤ other.major).bind JavaRuntime.path := by
  unfold binaryOf
  rw [findSome?_path, head?_insertionSort, List.find?_filter]
  · simp only [List.all_filter, Bool.decide_and, Bool.decide_eq_true]
  · intro runtime hmem
    exact discover_path (List.mem_of_mem_filter ((List.mem_insertionSort _).mp hmem))

theorem any_of_binaryOf {wanted : Nat → Bool} {path : Text}
    (h : binaryOf (discover m) wanted = some path) : (discover m).any (wanted ·.major) = true := by
  obtain ⟨runtime, hmem, -⟩ := List.exists_of_findSome?_eq_some h
  have hfilter := (List.mem_insertionSort _).mp hmem
  exact List.any_eq_true.mpr ⟨runtime, (List.mem_filter.mp hfilter)⟩

theorem any_of_binaryOf_none {wanted : Nat → Bool} (h : binaryOf (discover m) wanted = none) :
    (discover m).any (wanted ·.major) = false := by
  apply List.any_eq_false.mpr
  intro runtime hmem hwanted
  have hsorted := (List.mem_insertionSort (fun a b : JavaRuntime => a.major ≤ b.major)).mpr
    (List.mem_filter (p := fun r => wanted r.major) |>.mpr ⟨hmem, hwanted⟩)
  have hnone := List.findSome?_eq_none_iff.mp h runtime hsorted
  have hsome := discover_path hmem
  rw [hnone] at hsome
  cases hsome

theorem find?_path_iff {shown : JavaRuntime} (hshown : shown ∈ discover m) (path : Text) :
    shown.path = some path ↔
      (discover m).find? (fun runtime => runtime.path = some path) = some shown := by
  constructor
  · intro hpath
    obtain ⟨found, hfound⟩ := Option.isSome_iff_exists.mp
      (List.find?_isSome.mpr ⟨shown, hshown, by simpa using hpath⟩ :
        ((discover m).find? fun runtime => decide (runtime.path = some path)).isSome)
    have hsame : found.path = some path := by simpa using List.find?_some hfound
    rw [hfound, discover_apart (List.mem_of_find?_eq_some hfound) hshown (hsame.trans hpath.symm)]
  · intro hfound
    simpa using List.find?_some hfound

theorem bind_path_iff {chosen : Option JavaRuntime} {shown : JavaRuntime}
    (hchosen : ∀ r, chosen = some r → r ∈ discover m) (hshown : shown ∈ discover m)
    (hprogram : chosen.bind JavaRuntime.path = some program) :
    shown.path = some program ↔ chosen = some shown := by
  obtain ⟨runtime, rfl, hpath⟩ := Option.bind_eq_some_iff.mp hprogram
  constructor
  · intro hsame
    rw [discover_apart (hchosen runtime rfl) hshown (hpath.trans hsame.symm)]
  · rintro hsame
    rw [← Option.some.inj hsame, hpath]

theorem starts_iff (hstart : java m fetches row = .ok program) {shown : JavaRuntime}
    (hshown : shown ∈ discover m) :
    shown.path = some program ↔ (discover m).find? (mayStartOn m row) = some shown := by
  unfold java at hstart
  cases hwanted : wantedMajor row.javaMajor row.gameVersion with
  | none =>
    rw [hwanted] at hstart
    cases hstart
    have hstarts : mayStartOn m row = fun r : JavaRuntime => decide (r.path = some m.systemJava) := by
      funext runtime
      simp [mayStartOn, hwanted]
    rw [hstarts]
    exact find?_path_iff hshown m.systemJava
  | some major =>
    rw [hwanted] at hstart
    simp only at hstart
    cases hmanaged : (present m major).bind JavaRuntime.path with
    | some managed =>
      rw [hmanaged] at hstart
      obtain rfl := Except.ok.inj hstart
      have hstarts : mayStartOn m row = fun r : JavaRuntime => decide (r.path = some managed) := by
        funext runtime
        simp [mayStartOn, hwanted, hmanaged]
      rw [hstarts]
      exact find?_path_iff hshown managed
    | none =>
      rw [hmanaged] at hstart
      simp only at hstart
      cases hexact : binaryOf (discover m) (· = major) with
      | some path =>
        have hany := any_of_binaryOf hexact
        rw [hexact] at hstart
        cases hstart
        rw [binaryOf_eq] at hexact
        have hstarts : (discover m).find? (mayStartOn m row) = (discover m).find? fun runtime =>
            decide (runtime.major = major) && (discover m).all fun other =>
              !decide (other.major = major) || decide (runtime.major ≤ other.major) := by
          apply List.find?_congr
          intro runtime _
          by_cases hmajor : runtime.major = major
          · have hleast : ((discover m).all fun other =>
                !decide (other.major = major) || decide (runtime.major ≤ other.major)) = true := by
              apply List.all_eq_true.mpr
              intro other _
              by_cases hother : other.major = major
              · simp [hother, hmajor]
              · simp [hother]
            rw [hleast]
            simp [mayStartOn, hwanted, hmanaged, hany, hmajor]
          · simp [mayStartOn, hwanted, hmanaged, hany, hmajor]
        rw [hstarts]
        exact bind_path_iff (fun _ h => List.mem_of_find?_eq_some h) hshown hexact
      | none =>
        have hnone := any_of_binaryOf_none hexact
        rw [hexact] at hstart
        simp only at hstart
        split at hstart
        · cases hstart
        split at hstart
        · next path hnear =>
          cases hstart
          rw [binaryOf_eq] at hnear
          have hstarts : mayStartOn m row = fun runtime : JavaRuntime =>
              standsInFor runtime.major major && (discover m).all fun other =>
                !standsInFor other.major major || decide (runtime.major ≤ other.major) := by
            funext runtime
            unfold mayStartOn
            simp only [hwanted, hmanaged, hnone]
            simp
          rw [hstarts]
          exact bind_path_iff (fun _ h => List.mem_of_find?_eq_some h) hshown hnear
        · cases hstart

theorem javaPath_iff (hstart : java m fetches row = .ok program) (ceiling : Nat)
    (restart : Bool) :
    (view row (discover m) ceiling restart).javaPath = some program ↔
      (((discover m).find? fun runtime => mayStartOn m row runtime || mayShow m row runtime).any
        fun runtime => mayStartOn m row runtime && mayShow m row runtime) = true := by
  rw [← find?_same_iff]
  show (pick (discover m) row.javaMajor row.jreVendor row.gameVersion).bind JavaRuntime.path =
    some program ↔ _
  rw [pick_eq]
  constructor
  · intro hshown
    obtain ⟨shown, hfind, hpath⟩ := Option.bind_eq_some_iff.mp hshown
    exact ⟨shown, (starts_iff hstart (List.mem_of_find?_eq_some hfind)).mp hpath, hfind⟩
  · rintro ⟨shown, hstarts, hshown⟩
    rw [hshown, Option.bind_some]
    exact (starts_iff hstart (List.mem_of_find?_eq_some hshown)).mpr hstarts

end Choices

section Arguments

variable {loader : Option LoaderId} {extra : List Text}

theorem owned_eq (flag : Text) : owned.any (·.isPrefixOf flag) = isPanelMemoryFlag flag := rfl

def shownArgs (loader : Option LoaderId) (extra : List Text) : List Text :=
  extra ++ ["-jar".toList, (launchOf loader).jar] ++ (launchOf loader).trailing

theorem jar_iff : (launchOf loader).jar = JAR ↔ loader ≠ some .quilt := by
  cases loader with
  | none => exact iff_of_true rfl (by decide)
  | some loader =>
    cases loader with
    | quilt => exact iff_of_false (by decide) (by simp)
    | _ => exact iff_of_true rfl (by decide)

theorem trailing_eq :
    (launchOf loader).trailing = if loader ≠ some .velocity then ["nogui".toList] else [] := by
  cases loader with
  | none => rfl
  | some loader => cases loader <;> rfl

theorem argv_shown_iff (memoryMib : Nat) :
    argv loader memoryMib extra = managedFlags memoryMib ++ shownArgs loader extra ↔
      loader ≠ some .quilt ∧ ∀ flag ∈ extra, isPanelMemoryFlag flag = false := by
  have hkept : (extra.filter fun flag => !owned.any (·.isPrefixOf flag)) = extra ↔
      ∀ flag ∈ extra, isPanelMemoryFlag flag = false := by
    simp only [owned_eq, List.filter_eq_self, Bool.not_eq_true']
  rw [← hkept, ← jar_iff]
  unfold argv managedFlags shownArgs
  rw [← trailing_eq]
  constructor
  · intro hsame
    rw [← List.append_assoc] at hsame
    have htail := List.append_cancel_right hsame
    have hinner : (extra.filter fun flag => !owned.any (·.isPrefixOf flag)) ++
        ["-jar".toList, JAR] = extra ++ ["-jar".toList, (launchOf loader).jar] :=
      (List.cons.inj htail).2
    obtain ⟨hflags, hjar⟩ := List.append_inj' hinner rfl
    exact ⟨(List.cons.inj (List.cons.inj hjar).2).1.symm, hflags⟩
  · rintro ⟨hjar, hflags⟩
    rw [hjar, hflags]
    rfl

end Arguments

/-- The start takes the shown Java, and its arguments are those of the shown command behind the
managed flags. -/
structure Agree (m : Machine) (row : Startup.ServerRow) (ceiling : Nat) (restart : Bool)
    (program : Text) : Prop where
  java : (view row (discover m) ceiling restart).javaPath = some program
  arguments : ∃ shown arguments,
    tokenise (view row (discover m) ceiling restart).startupCommand = .ok (shown :: arguments) ∧
    argv row.loader row.memoryMib row.extraFlags =
      (view row (discover m) ceiling restart).managedFlags ++ arguments

/-- For every server and every set of installed runtimes that a start succeeds with: what is shown
is what is launched just where `heeds` holds. -/
theorem shown_command_is_launched_iff {m : Machine} {row : Startup.ServerRow} {fetches : Bool}
    {program : Text} (hstart : java m fetches row = .ok program) (ceiling : Nat)
    (restart : Bool) : Agree m row ceiling restart program ↔ heeds m row = true := by
  have hcommand : tokenise (view row (discover m) ceiling restart).startupCommand =
      .ok ((view row (discover m) ceiling restart).javaPath.getD "java".toList ::
        shownArgs row.loader row.extraFlags) := tokenise_render _
  have hheeds : heeds m row = true ↔ (row.loader ≠ some .quilt ∧
      ∀ flag ∈ row.extraFlags, isPanelMemoryFlag flag = false) ∧
      (((discover m).find? fun runtime => mayStartOn m row runtime || mayShow m row runtime).any
        fun runtime => mayStartOn m row runtime && mayShow m row runtime) = true := by
    simp only [heeds, Bool.and_eq_true, decide_eq_true_eq, List.all_eq_true, Bool.not_eq_true',
      ne_eq]
  rw [hheeds, ← javaPath_iff hstart ceiling restart, ← argv_shown_iff row.memoryMib]
  constructor
  · rintro ⟨hjava, shown, arguments, htokens, hargv⟩
    rw [hcommand] at htokens
    obtain ⟨-, rfl⟩ := List.cons.inj (Except.ok.inj htokens)
    exact ⟨hargv, hjava⟩
  · rintro ⟨hargv, hjava⟩
    exact ⟨hjava, _, _, hcommand, hargv⟩

/-- A Temurin 21 under `/usr/lib/jvm`, and perhaps a Corretto of the same major. -/
def twoJavas (corretto : Bool) : Machine where
  dataDir := "/srv".toList
  candidates := ("/usr/lib/jvm/temurin".toList, .system) ::
    if corretto then [("/usr/lib/jvm/corretto".toList, .system)] else []
  release home :=
    if home = "/usr/lib/jvm/temurin".toList then some ⟨21, .temurin, "21.0.4".toList⟩
    else if home = "/usr/lib/jvm/corretto".toList then some ⟨21, .corretto, "21.0.4".toList⟩
    else none
  systemJava := "/usr/bin/java".toList

def paperServer : Startup.ServerRow where
  loader := some .paper
  gameVersion := some "1.21.8".toList
  memoryMib := 4096
  jreVendor := some .temurin
  extraFlags := ["-XX:+UseG1GC".toList]

theorem shown_command_is_launched_temurin :
    Agree (twoJavas false) paperServer 8192 false "/usr/lib/jvm/temurin/bin/java".toList :=
  (shown_command_is_launched_iff
    (show java (twoJavas false) true paperServer = .ok _ by decide +kernel) 8192 false).mpr (by decide +kernel)

/-- The start passes the vendor over: it takes the Corretto where the Temurin is shown. -/
theorem chosen_vendor_is_not_launched :
    ¬ ∀ (m : Machine) (row : Startup.ServerRow) (fetches : Bool) (program : Text) (ceiling : Nat)
      (restart : Bool), java m fetches row = .ok program → Agree m row ceiling restart program := by
  intro hall
  have hjava := (hall (twoJavas true) paperServer true "/usr/lib/jvm/corretto/bin/java".toList 8192
    false (by decide +kernel)).java
  have hshown : (view paperServer (discover (twoJavas true)) 8192 false).javaPath =
      some "/usr/lib/jvm/temurin/bin/java".toList := by decide +kernel
  rw [hshown] at hjava
  exact absurd hjava (by decide +kernel)

end CraftPanel.Servers.Launching
