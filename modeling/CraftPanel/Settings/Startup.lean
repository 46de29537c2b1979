import CraftPanel.Framework.Checked
import CraftPanel.Settings.Failure
import CraftPanel.Settings.Runtimes

/-!
# Startup options

`settings/startup.rs`: the startup command as it is shown, and what a patch of it asks for. The
command is shown as one line; that it reads back as the tokens it was made of is `tokenise_render`.
-/

namespace CraftPanel.Settings

inductive LoaderId
  | vanilla | paper | folia | purpur | leaf | fabric | velocity | neoForge | quilt | forge
  deriving DecidableEq

def LoaderId.supportsProperties (loader : LoaderId) : Bool := loader ≠ .velocity

end CraftPanel.Settings

namespace CraftPanel.Settings.Startup

open Framework

/-- The columns of a server's row that its startup is about. -/
structure ServerRow where
  loader : Option LoaderId := none
  gameVersion : Option Text := none
  memoryMib : Nat := 512
  javaMajor : Option Nat := none
  jreVendor : Option JreVendor := none
  extraFlags : List Text := []
  restartRequired : Bool := false

def PANEL_MEMORY_FLAGS : List Text :=
  ["-Xmx".toList, "-Xms".toList, "-XX:MaxRAM".toList, "-XX:MaxHeapSize".toList]

def isPanelMemoryFlag (token : Text) : Bool := PANEL_MEMORY_FLAGS.any (·.isPrefixOf token)

structure Launch where
  jar : Text
  trailing : List Text

def NOGUI : List Text := ["nogui".toList]

def launchOf : Option LoaderId → Launch
  | some .velocity => ⟨"server.jar".toList, []⟩
  | some .quilt => ⟨"quilt-server-launch.jar".toList, NOGUI⟩
  | _ => ⟨"server.jar".toList, NOGUI⟩

def argv (javaPath : Option Text) (extra : List Text) (launch : Launch) : List Text :=
  (javaPath.getD "java".toList :: extra) ++ ["-jar".toList, launch.jar] ++ launch.trailing

/-- `-Xmx{memory_mib}M`. -/
def heapFlag (memoryMib : Nat) : Text := "-Xmx".toList ++ Nat.toDigits 10 memoryMib ++ ['M']

def managedFlags (memoryMib : Nat) : List Text := [heapFlag memoryMib]

/-- What `render` puts in quotes. -/
def isSpecial (letter : Char) : Bool :=
  letter = ' ' || letter = '\t' || letter = '\'' || letter = '"' || letter = '\\'

def escape (letter : Char) : Text :=
  if letter = '\\' ∨ letter = '"' then ['\\', letter] else [letter]

def renderToken (token : Text) : Text :=
  if token.isEmpty || token.any isSpecial then '"' :: token.flatMap escape ++ ['"'] else token

def render (tokens : List Text) : Text := [' '].intercalate (tokens.map renderToken)

/-- Where the loop of `tokenise` stands. `escaped` says that a backslash was the last letter. -/
structure Reading where
  tokens : List Text := []
  current : Text := []
  started : Bool := false
  quote : Option Char := none
  escaped : Bool := false

namespace Reading

variable (r : Reading)

def push (letter : Char) : Reading := { r with current := r.current ++ [letter] }

def flush : Reading :=
  if r.started then { r with tokens := r.tokens ++ [r.current], current := [], started := false }
  else r

def next (letter : Char) : Reading :=
  if r.escaped then { r.push letter with escaped := false }
  else match r.quote with
    | none =>
      if letter = ' ' ∨ letter = '\t' then r.flush
      else if letter = '\'' ∨ letter = '"' then { r with quote := some letter, started := true }
      else if letter = '\\' then { r with started := true, escaped := true }
      else { r.push letter with started := true }
    | some opening =>
      if letter = opening then { r with quote := none }
      else if opening = '\'' then r.push letter
      else if letter = '\\' then { r with started := true, escaped := true }
      else { r.push letter with started := true }

end Reading

def refuseCommand (message : String) : Failure := .badRequest "invalid_startup_command" message

def tokenise (command : Text) : Except Failure (List Text) :=
  let read : Reading := command.foldl Reading.next {}
  let read := if read.escaped then read.push '\\' else read
  if read.quote.isSome then
    .error (refuseCommand "a quote in the startup command is never closed")
  else .ok read.flush.tokens

structure StartupOptions where
  javaVersion : Option Nat
  jreVendor : Option JreVendor
  javaPath : Option Text
  memoryMib : Nat
  memoryMaxMib : Nat
  extraFlags : List Text
  startupCommand : Text
  originalInvocation : Text
  managedFlags : List Text
  strippedFlags : List Text
  restartRequired : Bool

def view (server : ServerRow) (runtimes : List JavaRuntime) (memoryMaxMib : Nat)
    (restartRequired : Bool) : StartupOptions :=
  let launch := launchOf server.loader
  let chosen := pick runtimes server.javaMajor server.jreVendor server.gameVersion
  let java := chosen.bind JavaRuntime.path
  { javaVersion := server.javaMajor
    jreVendor := server.jreVendor
    javaPath := java
    memoryMib := server.memoryMib
    memoryMaxMib
    extraFlags := server.extraFlags
    startupCommand := render (argv java server.extraFlags launch)
    originalInvocation := render (argv java [] launch)
    managedFlags := managedFlags server.memoryMib
    strippedFlags := []
    restartRequired }

/-- A field that is there says what it is set to, `null` included. -/
structure StartupOptionsPatch where
  javaVersion : Option (Option Nat) := none
  jreVendor : Option (Option JreVendor) := none
  memoryMib : Option Nat := none
  startupCommand : Option (Option Text) := none

structure Change where
  javaMajor : Option Nat
  jreVendor : Option JreVendor
  memoryMib : Nat
  extraFlags : List Text
  strippedFlags : List Text
  deriving DecidableEq

def startsWithDash (token : Text) : Bool := token.head? = some '-'

/-- The loop of `read_command` over the tokens between the program and the trailing arguments:
what is kept, and what is stripped. -/
def sortFlags (launch : Launch) : List Text → List Text × List Text
  | [] => ([], [])
  | token :: rest =>
    if token = "-jar".toList then
      match rest with
      | [] => ([], [])
      | jar :: after =>
        if jar = launch.jar then sortFlags launch after else sortFlags launch (jar :: after)
    else
      let (kept, stripped) := sortFlags launch rest
      if isPanelMemoryFlag token || !startsWithDash token then (kept, token :: stripped)
      else (token :: kept, stripped)

def dropTrailing (launch : Launch) (tokens : List Text) : List Text :=
  let head := tokens.take (tokens.length - launch.trailing.length)
  if launch.trailing.length ≤ tokens.length ∧ head ++ launch.trailing = tokens then head
  else tokens

def readCommand (command : Option Text) (launch : Launch) :
    Except Failure (List Text × List Text) :=
  match command with
  | none => .ok ([], [])
  | some command => do
    refuse (command.any fun letter => letter = '\n' || letter = '\r' || letter.toNat = 0)
      (refuseCommand "a startup command is one line")
    let tokens ← tokenise command
    refuse tokens.isEmpty (refuseCommand "a startup command cannot be empty")
    let rest := if tokens.head?.any (!startsWithDash ·) then tokens.tail else tokens
    return sortFlags launch (dropTrailing launch rest)

def plan (patch : StartupOptionsPatch) (server : ServerRow) (memoryMib : Nat) :
    Except Failure Change :=
  let javaMajor := patch.javaVersion.getD server.javaMajor
  let jreVendor := patch.jreVendor.getD server.jreVendor
  match patch.startupCommand with
  | none => .ok ⟨javaMajor, jreVendor, memoryMib, server.extraFlags, []⟩
  | some command => do
    let (extraFlags, strippedFlags) ← readCommand command (launchOf server.loader)
    return ⟨javaMajor, jreVendor, memoryMib, extraFlags, strippedFlags⟩

section RoundTrip

variable {tokens : List Text} {token : Text} {r : Reading}

theorem foldl_escape (hquote : r.quote = some '"') (hplain : r.escaped = false)
    (hstarted : r.started = true) (text : Text) :
    (text.flatMap escape).foldl Reading.next r = { r with current := r.current ++ text } := by
  induction text generalizing r with
  | nil => simp
  | cons letter text ih =>
    rw [List.flatMap_cons, List.foldl_append]
    have hletter : (escape letter).foldl Reading.next r = r.push letter := by
      obtain ⟨_, _, started, quote, escaped⟩ := r
      simp only at hquote hplain hstarted
      subst hquote hplain hstarted
      unfold escape
      split
      · simp [Reading.next, Reading.push]
      · next hnot =>
        obtain ⟨hback, hmark⟩ := not_or.mp hnot
        simp [Reading.next, Reading.push, hback, hmark]
    rw [hletter, ih (r := r.push letter) hquote hplain hstarted]
    simp [Reading.push]

theorem foldl_plain (hquote : r.quote = none) (hplain : r.escaped = false) {text : Text}
    (htext : text.any isSpecial = false) (hsome : text ≠ []) :
    text.foldl Reading.next r = { r with current := r.current ++ text, started := true } := by
  induction text generalizing r with
  | nil => exact absurd rfl hsome
  | cons letter text ih =>
    obtain ⟨hletter, hrest⟩ : isSpecial letter = false ∧ text.any isSpecial = false := by
      simpa using htext
    have hnext : r.next letter = { r.push letter with started := true } := by
      unfold isSpecial at hletter
      simp only [Bool.or_eq_false_iff, decide_eq_false_iff_not] at hletter
      simp [Reading.next, hplain, hquote, hletter]
    rw [List.foldl_cons, hnext]
    cases text with
    | nil => rfl
    | cons other text =>
      rw [ih (r := { r.push letter with started := true }) hquote hplain hrest
        (List.cons_ne_nil _ _)]
      simp [Reading.push]

theorem foldl_renderToken (tokens : List Text) (token : Text) :
    (renderToken token).foldl Reading.next { tokens } =
      { tokens, current := token, started := true } := by
  unfold renderToken
  split
  · have hopen : Reading.next { tokens } '"' =
        { tokens, started := true, quote := some '"' } := by simp [Reading.next]
    rw [List.cons_append, List.foldl_cons, hopen, List.foldl_append, foldl_escape rfl rfl rfl]
    simp [Reading.next]
  · next hplain =>
    obtain ⟨hsome, hletters⟩ : token ≠ [] ∧ token.any isSpecial = false := by simpa using hplain
    rw [foldl_plain rfl rfl hletters hsome, List.nil_append]

theorem foldl_render (before : List Text) (token : Text) (rest : List Text) :
    (render (token :: rest)).foldl Reading.next { tokens := before } =
      { tokens := before ++ (token :: rest).dropLast,
        current := (token :: rest).getLast (List.cons_ne_nil _ _), started := true } := by
  induction rest generalizing before token with
  | nil =>
    have hone : render [token] = renderToken token := by simp [render]
    rw [hone, foldl_renderToken]
    simp
  | cons other rest ih =>
    have hmore : render (token :: other :: rest) =
        renderToken token ++ ' ' :: render (other :: rest) := by
      simp [render, List.intercalate_cons_cons]
    have hspace : Reading.next { tokens := before, current := token, started := true } ' ' =
        { tokens := before ++ [token] } := by simp [Reading.next, Reading.flush]
    rw [hmore, List.foldl_append, foldl_renderToken, List.foldl_cons, hspace, ih]
    simp

theorem tokenise_render (tokens : List Text) : tokenise (render tokens) = .ok tokens := by
  cases tokens with
  | nil => rfl
  | cons token rest =>
    unfold tokenise
    rw [foldl_render]
    simp [Reading.flush, List.dropLast_concat_getLast]

end RoundTrip

end CraftPanel.Settings.Startup
