import CraftPanel.Settings.Editing

/-!
# Startup commands that come back

The command that `view` shows is planned to the flags that it was made of, as long as those came
from a command and the path of the Java is absolute and of one line: `plan` refuses any other
command, its own included.
-/

namespace CraftPanel.Settings.Startup

open Framework

/-- `command.contains(['\n', '\r', '\0'])`. -/
def breaks (letter : Char) : Bool := letter = '\n' || letter = '\r' || letter.toNat = 0

section Commands

variable {launch : Launch} {command : Text} {tokens kept stripped : List Text} {token : Text}

/-- Every letter that has been read keeps this. -/
def Reading.Holds (p : Char → Prop) (r : Reading) : Prop :=
  (∀ token ∈ r.tokens, ∀ letter ∈ token, p letter) ∧ ∀ letter ∈ r.current, p letter

theorem Reading.Holds.push {p : Char → Prop} {r : Reading} {letter : Char} (h : r.Holds p)
    (hletter : p letter) : (r.push letter).Holds p := by
  refine ⟨h.1, ?_⟩
  intro other hother
  rcases List.mem_append.mp hother with hbefore | hlast
  · exact h.2 other hbefore
  · rw [List.mem_singleton.mp hlast]
    exact hletter

theorem Reading.Holds.flush {p : Char → Prop} {r : Reading} (h : r.Holds p) : r.flush.Holds p := by
  unfold Reading.flush
  split
  · refine ⟨?_, by simp⟩
    intro token htoken
    rcases List.mem_append.mp htoken with hbefore | hlast
    · exact h.1 token hbefore
    · rw [List.mem_singleton.mp hlast]
      exact h.2
  · exact h

theorem Reading.Holds.next {p : Char → Prop} {r : Reading} {letter : Char} (h : r.Holds p)
    (hletter : p letter) : (r.next letter).Holds p := by
  cases hescaped : r.escaped with
  | true =>
    simp only [Reading.next, hescaped, if_true]
    exact h.push hletter
  | false =>
    cases hquote : r.quote with
    | none =>
      simp only [Reading.next, hescaped, hquote, Bool.false_eq_true, if_false]
      split_ifs
      · exact h.flush
      · exact h
      · exact h
      · exact h.push hletter
    | some opening =>
      simp only [Reading.next, hescaped, hquote, Bool.false_eq_true, if_false]
      split_ifs
      · exact h
      · exact h.push hletter
      · exact h
      · exact h.push hletter

theorem mem_of_tokenise (h : tokenise command = .ok tokens) (htoken : token ∈ tokens)
    {letter : Char} (hletter : letter ∈ token) : letter ∈ command ∨ letter = '\\' := by
  have hread : ∀ (text : Text) (r : Reading), r.Holds (fun letter => letter ∈ command ∨ letter = '\\') →
      text ⊆ command →
      (text.foldl Reading.next r).Holds fun letter => letter ∈ command ∨ letter = '\\' := by
    intro text
    induction text with
    | nil => exact fun r hr _ => hr
    | cons first text ih =>
      intro r hr hsub
      obtain ⟨hfirst, hrest⟩ := List.cons_subset.mp hsub
      exact ih _ (hr.next (.inl hfirst)) hrest
  have hread := hread command {} ⟨by simp, by simp⟩ (List.Subset.refl _)
  unfold tokenise at h
  dsimp only at h
  generalize hfinal : (if (command.foldl Reading.next {}).escaped then
    (command.foldl Reading.next {}).push '\\' else command.foldl Reading.next {}) = read at h
  have hholds : read.Holds fun letter => letter ∈ command ∨ letter = '\\' := by
    rw [← hfinal]
    split
    · exact hread.push (.inr rfl)
    · exact hread
  split at h
  · cases h
  · cases h
    exact hholds.flush.1 token htoken letter hletter

/-- What is kept begins with a dash, and is neither `-jar` nor about the memory. -/
structure Flag (token : Text) : Prop where
  dash : startsWithDash token = true
  jar : token ≠ "-jar".toList
  memory : isPanelMemoryFlag token = false

theorem sortFlags_flag (h : token ∈ (sortFlags launch tokens).1) : token ∈ tokens ∧ Flag token := by
  fun_induction sortFlags launch tokens with
  | case1 => cases h
  | case2 => cases h
  | case3 after ih =>
    obtain ⟨hmem, hflag⟩ := ih h
    exact ⟨List.mem_cons_of_mem _ (List.mem_cons_of_mem _ hmem), hflag⟩
  | case4 jar after hjar ih =>
    obtain ⟨hmem, hflag⟩ := ih h
    exact ⟨List.mem_cons_of_mem _ hmem, hflag⟩
  | case5 first rest hjar kept stripped hsorted hdrops ih =>
    rw [hsorted] at ih
    obtain ⟨hmem, hflag⟩ := ih h
    exact ⟨List.mem_cons_of_mem _ hmem, hflag⟩
  | case6 first rest hjar kept stripped hsorted hkeeps ih =>
    rw [hsorted] at ih
    rcases List.mem_cons.mp h with rfl | hlater
    · simp only [Bool.or_eq_true, Bool.not_eq_true', not_or, Bool.not_eq_true,
        Bool.not_eq_false] at hkeeps
      exact ⟨List.mem_cons_self, hkeeps.2, hjar, hkeeps.1⟩
    · obtain ⟨hmem, hflag⟩ := ih hlater
      exact ⟨List.mem_cons_of_mem _ hmem, hflag⟩

theorem mem_of_mem_dropTrailing (h : token ∈ dropTrailing launch tokens) : token ∈ tokens := by
  unfold dropTrailing at h
  dsimp only at h
  split at h
  · exact List.mem_of_mem_take h
  · exact h

theorem readCommand_flag {command : Option Text}
    (h : readCommand command launch = .ok (kept, stripped)) (htoken : token ∈ kept) :
    Flag token ∧ ∀ letter ∈ token, breaks letter = false := by
  cases command with
  | none =>
    cases h
    cases htoken
  | some command =>
    obtain ⟨_, hline, h⟩ := bind_ok.mp h
    obtain ⟨tokens, htokens, h⟩ := bind_ok.mp h
    obtain ⟨_, -, h⟩ := bind_ok.mp h
    obtain ⟨rfl, -⟩ := Prod.mk.inj (Except.ok.inj h)
    obtain ⟨hmem, hflag⟩ := sortFlags_flag htoken
    refine ⟨hflag, fun letter hletter => ?_⟩
    have hread : token ∈ tokens := by
      have hrest := mem_of_mem_dropTrailing hmem
      split at hrest
      · exact List.mem_of_mem_tail hrest
      · exact hrest
    rcases mem_of_tokenise htokens hread hletter with hcommand | rfl
    · have hnone : command.any breaks = false := Bool.eq_false_iff.mpr (refuse_ok.mp hline)
      exact Bool.eq_false_iff.mpr (List.any_eq_false.mp hnone letter hcommand)
    · decide

theorem mem_render {letter : Char} (h : letter ∈ render tokens) :
    letter = ' ' ∨ letter = '"' ∨ letter = '\\' ∨ ∃ token ∈ tokens, letter ∈ token := by
  have htoken : ∀ token : Text, letter ∈ renderToken token →
      letter = '"' ∨ letter = '\\' ∨ letter ∈ token := by
    intro token hmem
    unfold renderToken at hmem
    split at hmem
    · simp only [List.cons_append, List.mem_cons, List.mem_append, List.mem_flatMap,
        List.not_mem_nil, or_false] at hmem
      rcases hmem with rfl | ⟨other, hother, hletter⟩ | rfl
      · exact .inl rfl
      · unfold escape at hletter
        split at hletter
        · rcases List.mem_cons.mp hletter with rfl | hlast
          · exact .inr (.inl rfl)
          · exact .inr (.inr (List.mem_singleton.mp hlast ▸ hother))
        · exact .inr (.inr (List.mem_singleton.mp hletter ▸ hother))
      · exact .inl rfl
    · exact .inr (.inr hmem)
  have hall : ∀ tokens : List Text, letter ∈ [' '].intercalate tokens →
      letter = ' ' ∨ ∃ token ∈ tokens, letter ∈ token := by
    intro tokens
    induction tokens with
    | nil => exact fun hmem => absurd hmem List.not_mem_nil
    | cons token tokens ih =>
      cases tokens with
      | nil =>
        intro hmem
        rw [List.intercalate_singleton] at hmem
        exact .inr ⟨token, List.mem_cons_self, hmem⟩
      | cons next tokens =>
        intro hmem
        rw [List.intercalate_cons_cons, List.append_assoc, List.mem_append,
          List.singleton_append, List.mem_cons] at hmem
        rcases hmem with hhead | rfl | hrest
        · exact .inr ⟨token, List.mem_cons_self, hhead⟩
        · exact .inl rfl
        · rcases ih hrest with hspace | ⟨other, hother, hletter⟩
          · exact .inl hspace
          · exact .inr ⟨other, List.mem_cons_of_mem _ hother, hletter⟩
  rcases hall _ h with hspace | ⟨shown, hshown, hletter⟩
  · exact .inl hspace
  obtain ⟨token, hmem, rfl⟩ := List.mem_map.mp hshown
  rcases htoken token hletter with hmark | hslash | hin
  · exact .inr (.inl hmark)
  · exact .inr (.inr (.inl hslash))
  · exact .inr (.inr (.inr ⟨token, hmem, hin⟩))

theorem sortFlags_shown (h : ∀ token ∈ tokens, Flag token) :
    sortFlags launch (tokens ++ ["-jar".toList, launch.jar]) = (tokens, []) := by
  induction tokens with
  | nil => simp [sortFlags]
  | cons token tokens ih =>
    obtain ⟨hdash, hjar, hmemory⟩ := h token List.mem_cons_self
    have hrest := ih fun other hother => h other (List.mem_cons_of_mem _ hother)
    rw [List.cons_append, sortFlags.eq_def]
    simp only [if_neg hjar, hrest, hmemory, hdash, Bool.not_true, Bool.or_false, Bool.false_eq_true,
      if_false]

theorem dropTrailing_shown : dropTrailing launch (tokens ++ launch.trailing) = tokens := by
  simp [dropTrailing]

theorem unbroken {text : Text} (h : text.any breaks = false) :
    ∀ letter ∈ text, breaks letter = false := by
  simpa using h

theorem launchOf_plain (loader : Option LoaderId) :
    ∀ token ∈ ["-jar".toList, (launchOf loader).jar] ++ (launchOf loader).trailing,
      ∀ letter ∈ token, breaks letter = false := by
  have hnone : ∀ token ∈ ["-jar".toList, (launchOf loader).jar] ++ (launchOf loader).trailing,
      token.any breaks = false := by
    rcases loader with _ | loader
    · decide
    · cases loader <;> decide
  intro token htoken
  exact unbroken (hnone token htoken)

/-- An absolute path without line breaks and null characters. -/
structure PlainPath (path : Text) : Prop where
  absolute : path.head? = some '/'
  line : ∀ letter ∈ path, breaks letter = false

theorem readCommand_shown (loader : Option LoaderId) {java : Option Text}
    (hjava : ∀ path, java = some path → PlainPath path)
    (hflags : ∀ token ∈ tokens, Flag token ∧ ∀ letter ∈ token, breaks letter = false) :
    readCommand (some (render (argv java tokens (launchOf loader)))) (launchOf loader) =
      .ok (tokens, []) := by
  have hprogram : startsWithDash (java.getD "java".toList) = false ∧
      ∀ letter ∈ java.getD "java".toList, breaks letter = false := by
    cases java with
    | none => exact ⟨rfl, unbroken (by decide)⟩
    | some path =>
      obtain ⟨habsolute, hline⟩ := hjava path rfl
      exact ⟨by simp [startsWithDash, habsolute], hline⟩
  have hline : (render (argv java tokens (launchOf loader))).any breaks = false := by
    apply List.any_eq_false.mpr
    intro letter hletter
    apply Bool.eq_false_iff.mp
    rcases mem_render hletter with rfl | rfl | rfl | ⟨token, htoken, hin⟩
    · decide
    · decide
    · decide
    unfold argv at htoken
    rw [List.append_assoc] at htoken
    rcases List.mem_append.mp htoken with hfront | hend
    · rcases List.mem_cons.mp hfront with rfl | hflag
      · exact hprogram.2 letter hin
      · exact (hflags token hflag).2 letter hin
    · exact launchOf_plain loader token hend letter hin
  have hshown : argv java tokens (launchOf loader) =
      java.getD "java".toList ::
        ((tokens ++ ["-jar".toList, (launchOf loader).jar]) ++ (launchOf loader).trailing) := by
    simp [argv]
  apply bind_ok.mpr
  refine ⟨⟨⟩, refuse_ok.mpr (Bool.eq_false_iff.mp hline), ?_⟩
  apply bind_ok.mpr
  refine ⟨_, tokenise_render _, ?_⟩
  rw [hshown]
  simp only [List.head?_cons, Option.any_some, hprogram.1, Bool.not_false, if_true, List.tail_cons,
    dropTrailing_shown, sortFlags_shown fun token htoken => (hflags token htoken).1]
  rfl

end Commands

def shownJava (row : ServerRow) (runtimes : List JavaRuntime) : Option Text :=
  (pick runtimes row.javaMajor row.jreVendor row.gameVersion).bind JavaRuntime.path

/-- Tokens are read as they were rendered; the command that is shown of a row whose flags came from
a command, under whichever loader, is planned to these flags with nothing stripped; and planning
what is shown of an accepted change changes nothing. The path of the Java is plain. -/
theorem startup_commands_come_back :
    (∀ tokens, tokenise (render tokens) = .ok tokens) ∧
    (∀ (command : Option Text) (loader : Option LoaderId) (stripped : List Text) (row : ServerRow)
      (runtimes : List JavaRuntime) (memoryMaxMib memoryMib : Nat) (restart : Bool)
      (patch : StartupOptionsPatch),
      readCommand command (launchOf loader) = .ok (row.extraFlags, stripped) →
      (∀ path, shownJava row runtimes = some path → PlainPath path) →
      patch.startupCommand = some (some (view row runtimes memoryMaxMib restart).startupCommand) →
      ∃ change, plan patch row memoryMib = .ok change ∧ change.extraFlags = row.extraFlags ∧
        change.strippedFlags = []) ∧
    ∀ (command : Option Text) (patch : StartupOptionsPatch) (row : ServerRow) (memoryMib : Nat)
      (change : Change) (runtimes : List JavaRuntime) (memoryMaxMib : Nat) (restart : Bool),
      patch.startupCommand = some command → plan patch row memoryMib = .ok change →
      (∀ path, shownJava (Editing.writeStartup change restart row) runtimes = some path →
        PlainPath path) →
      plan { startupCommand := some (some (view (Editing.writeStartup change restart row) runtimes
          memoryMaxMib restart).startupCommand) } (Editing.writeStartup change restart row)
        change.memoryMib = .ok { change with strippedFlags := [] } := by
  have hplan : ∀ (command : Option Text) (loader : Option LoaderId) (stripped : List Text)
      (row : ServerRow) (runtimes : List JavaRuntime) (memoryMaxMib memoryMib : Nat) (restart : Bool)
      (patch : StartupOptionsPatch),
      readCommand command (launchOf loader) = .ok (row.extraFlags, stripped) →
      (∀ path, shownJava row runtimes = some path → PlainPath path) →
      patch.startupCommand = some (some (view row runtimes memoryMaxMib restart).startupCommand) →
      plan patch row memoryMib = .ok ⟨patch.javaVersion.getD row.javaMajor,
        patch.jreVendor.getD row.jreVendor, memoryMib, row.extraFlags, []⟩ := by
    intro command loader stripped row runtimes memoryMaxMib memoryMib restart patch hread hjava hpatch
    have hshown := readCommand_shown row.loader hjava fun token htoken =>
      readCommand_flag hread htoken
    unfold plan
    rw [hpatch]
    exact bind_ok.mpr ⟨_, hshown, rfl⟩
  refine ⟨tokenise_render, ?_, ?_⟩
  · intro command loader stripped row runtimes memoryMaxMib memoryMib restart patch hread hjava hpatch
    exact ⟨_, hplan _ _ _ _ _ _ _ _ _ hread hjava hpatch, rfl, rfl⟩
  intro command patch row memoryMib change runtimes memoryMaxMib restart hpatch hchange hjava
  have hread : ∃ stripped, readCommand command (launchOf row.loader) =
      .ok (change.extraFlags, stripped) := by
    unfold plan at hchange
    rw [hpatch] at hchange
    obtain ⟨⟨kept, stripped⟩, hread, hdone⟩ := bind_ok.mp hchange
    cases hdone
    exact ⟨stripped, hread⟩
  obtain ⟨stripped, hread⟩ := hread
  exact hplan command row.loader stripped (Editing.writeStartup change restart row) runtimes
    memoryMaxMib change.memoryMib restart _ hread hjava rfl

def javaAt (path : String) : JavaRuntime :=
  { major := 21, vendor := .temurin, version := "21".toList, path := some path.toList,
    source := .system, installed := true }

theorem quoted_flags_come_back :
    ∃ change, plan { startupCommand := some (some (view
        { loader := some .quilt, extraFlags := ["-Dmotd=a \"b\" c".toList, "-server".toList] }
        [javaAt "/opt/java 21/bin/java"] 4096 false).startupCommand) }
      { loader := some .quilt, extraFlags := ["-Dmotd=a \"b\" c".toList, "-server".toList] } 512 =
        .ok change ∧
      change.extraFlags = ["-Dmotd=a \"b\" c".toList, "-server".toList] ∧
      change.strippedFlags = [] := by
  apply startup_commands_come_back.2.1
    (some "java '-Dmotd=a \"b\" c' -server -Xmx1G -jar server.jar nogui".toList) (some .paper)
    ["-Xmx1G".toList]
  · decide +kernel
  · intro path hpath
    obtain rfl : "/opt/java 21/bin/java".toList = path := by
      have hshown : shownJava
          { loader := some .quilt, extraFlags := ["-Dmotd=a \"b\" c".toList, "-server".toList] }
          [javaAt "/opt/java 21/bin/java"] = some "/opt/java 21/bin/java".toList := by
        decide +kernel
      exact Option.some.inj (hshown.symm.trans hpath)
    exact ⟨by decide +kernel, unbroken (by decide +kernel)⟩
  · rfl

/-- The command that is shown for such a Java is refused. -/
theorem two_lines_refused :
    ¬ ∀ (command : Option Text) (loader : Option LoaderId) (stripped : List Text) (row : ServerRow)
      (runtimes : List JavaRuntime) (memoryMaxMib memoryMib : Nat) (restart : Bool)
      (patch : StartupOptionsPatch),
      readCommand command (launchOf loader) = .ok (row.extraFlags, stripped) →
      (∀ path, shownJava row runtimes = some path → path.head? = some '/') →
      patch.startupCommand = some (some (view row runtimes memoryMaxMib restart).startupCommand) →
      ∃ change, plan patch row memoryMib = .ok change ∧ change.extraFlags = row.extraFlags ∧
        change.strippedFlags = [] := by
  intro hall
  have hrefused : plan { startupCommand := some (some (view {} [javaAt "/opt/java\n21/bin/java"]
      4096 false).startupCommand) } {} 512 =
        .error (refuseCommand "a startup command is one line") := by
    decide +kernel
  have hshown : shownJava {} [javaAt "/opt/java\n21/bin/java"] =
      some "/opt/java\n21/bin/java".toList := by
    decide +kernel
  have habsolute : ∀ path, shownJava {} [javaAt "/opt/java\n21/bin/java"] = some path →
      path.head? = some '/' := by
    intro path hpath
    rw [hshown] at hpath
    rw [← Option.some.inj hpath]
    decide +kernel
  obtain ⟨change, hplan, -⟩ := hall none none [] {} [javaAt "/opt/java\n21/bin/java"] 4096 512 false
    { startupCommand := some (some (view {} [javaAt "/opt/java\n21/bin/java"] 4096
      false).startupCommand) } rfl habsolute rfl
  rw [hrefused] at hplan
  cases hplan

end CraftPanel.Settings.Startup
