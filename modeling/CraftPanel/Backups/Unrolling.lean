import CraftPanel.Framework.Machine
import CraftPanel.Model

/-!
# The two renames of a restore

`unroll` and `clear_leftovers` of `backups/mod.rs` over the names that stand beside one server's
directory, restore after restore, each of which may stop anywhere. The tree that the directory held
last never goes: it stands in the directory, or under an `.old` name as long as there is none.
-/

namespace CraftPanel.Backups.Unrolling

open Framework

/-- The server's directory, and what stands beside it with its name before the suffix. -/
inductive Place
  | directory
  | old (suffix : String)
  | restoring (suffix : String)
  deriving DecidableEq

/-- What is under a name: a whole tree, or one that is not all there yet or any more. -/
inductive Content (Tree : Type)
  | whole (tree : Tree)
  | part
  deriving DecidableEq

inductive Outcome (Tree : Type)
  | restored
  | failed
  /-- The second rename failed and what had been moved away was put back. -/
  | putBack (moved : Option (Content Tree))
  /-- The second rename failed, and the undoing of the first as well. -/
  | leftAway (moved : Content Tree)
  deriving DecidableEq

inductive Phase (Tree : Type)
  | leftovers
  /-- `clear_leftovers`, with what `stands` was found to be. -/
  | sweeping (stands : Bool)
  | bringing
  | unpacking
  | handing
  | swapping
  | movingIn (moved : Option (Content Tree))
  | undoing (moved : Content Tree)
  /-- `clear_or_say` of one of the run's own names, and what the run ends with. -/
  | clearing (place : Place) (outcome : Outcome Tree)
  | ended (outcome : Outcome Tree)
  deriving DecidableEq

/-- One run of `unroll`; `archive` is the tree that its archive unpacks to. -/
structure Run (Tree : Type) where
  id : Id
  archive : Tree
  phase : Phase Tree
  deriving DecidableEq

structure System (Tree : Type) where
  disk : Place → Option (Content Tree)
  run : Option (Run Tree) := none
  /-- The tree that the directory held last: the one before a restore until its second rename,
  the restored one from there on. -/
  last : Tree

inductive Event (Tree : Type)
  | changes (tree : Tree)
  | starts (id : Id) (archive : Tree)
  | sweeps
  | clears (place : Place) (all : Bool)
  | swept
  | bringsDown (ok : Bool)
  | unpacks
  | unpacked (ok : Bool)
  | handsOver (ok : Bool)
  | movesAway (ok : Bool)
  | movesIn (ok : Bool)
  | undoes (ok : Bool)
  | cleared
  | stops

variable {Tree : Type}

def suffixOf (id : Id) : String := s!"-{id}"

namespace Run

variable (run : Run Tree)

def fresh : Place := .restoring (suffixOf run.id)

def previous : Place := .old (suffixOf run.id)

end Run

namespace System

variable (s : System Tree)

def isOver : Bool := match s.run with
  | none => true
  | some run => match run.phase with
    | .ended _ => true
    | _ => false

def put (place : Place) (content : Option (Content Tree)) : System Tree :=
  { s with disk := Function.update s.disk place content }

def goTo (run : Run Tree) (phase : Phase Tree) : System Tree :=
  { s with run := some { run with phase } }

/-- `rename`: the source is there, and nothing is where it goes. -/
def rename (source target : Place) : Option (System Tree) :=
  match s.disk source, s.disk target with
  | some content, none => some ((s.put source none).put target (some content))
  | _, _ => none

/-- The game and its users work in the directory, as long as there is one. -/
def changes (tree : Tree) : Option (System Tree) :=
  match s.disk .directory with
  | some _ => some { s.put .directory (some (.whole tree)) with
      last := tree, run := if s.isOver then none else s.run }
  | none => none

def starts (id : Id) (archive : Tree) : Option (System Tree) :=
  let run : Run Tree := ⟨id, archive, .leftovers⟩
  if s.isOver && (s.disk run.fresh).isNone && (s.disk run.previous).isNone then
    some { s with run := some run }
  else none

def mayClear : Phase Tree → Place → Bool
  | .sweeping _, .restoring _ => true
  | .sweeping stands, .old _ => stands
  | .clearing place _, other => other = place
  | _, _ => false

/-- `remove_dir_all` comes to its end, or it stops halfway. -/
def clears (place : Place) (all : Bool) : Option (System Tree) :=
  match s.run with
  | some run => if mayClear run.phase place && (s.disk place).isSome then
      some (s.put place (if all then none else some .part))
    else none
  | none => none

/-- The statements of `unroll` from one phase to the next. -/
def moves (run : Run Tree) : Event Tree → Option (System Tree)
  | .sweeps => match run.phase with
    | .leftovers => some (s.goTo run (.sweeping (s.disk .directory).isSome))
    | _ => none
  | .swept => match run.phase with
    | .sweeping _ => some (s.goTo run .bringing)
    | _ => none
  | .bringsDown ok => match run.phase with
    | .bringing => some (s.goTo run (if ok then .unpacking else .ended .failed))
    | _ => none
  | .unpacks => match run.phase with
    | .unpacking => some (s.put run.fresh (some .part))
    | _ => none
  | .unpacked ok => match run.phase with
    | .unpacking => some (if ok then (s.put run.fresh (some (.whole run.archive))).goTo run .handing
        else s.goTo run (.clearing run.fresh .failed))
    | _ => none
  | .handsOver ok => match run.phase with
    | .handing => some (s.goTo run (if ok then .swapping else .clearing run.fresh .failed))
    | _ => none
  | .movesAway ok => match run.phase with
    | .swapping => match s.disk .directory with
      | none => some (s.goTo run (.movingIn none))
      | some content =>
        if ok then (s.rename .directory run.previous).map (·.goTo run (.movingIn (some content)))
        else some (s.goTo run (.ended .failed))
    | _ => none
  | .movesIn ok => match run.phase with
    | .movingIn moved =>
      if ok then (s.rename run.fresh .directory).map fun t =>
        { t.goTo run (.clearing run.previous .restored) with
          last := match s.disk run.fresh with
            | some (.whole tree) => tree
            | _ => s.last }
      else some (s.goTo run (match moved with
        | some content => .undoing content
        | none => .ended (.putBack none)))
    | _ => none
  | .undoes ok => match run.phase with
    | .undoing content =>
      if ok then (s.rename run.previous .directory).map (·.goTo run (.ended (.putBack (some content))))
      else some (s.goTo run (.ended (.leftAway content)))
    | _ => none
  | .cleared => match run.phase with
    | .clearing _ outcome => some (s.goTo run (.ended outcome))
    | _ => none
  | _ => none

def step : Event Tree → Option (System Tree)
  | .changes tree => s.changes tree
  | .starts id archive => s.starts id archive
  | .clears place all => s.clears place all
  | .stops => some { s with run := none }
  | e => s.run.bind (s.moves · e)

end System

def machine : Machine (System Tree) (Event Tree) := ⟨System.step⟩

def standing (tree : Tree) : System Tree where
  disk := fun place => if place = .directory then some (.whole tree) else none
  last := tree

/-- The last tree stands in the directory, or is under an `.old` name as long as there is none. -/
def Whole (s : System Tree) : Prop :=
  s.disk .directory = some (.whole s.last) ∨
    s.disk .directory = none ∧ ∃ suffix, s.disk (.old suffix) = some (.whole s.last)

def Fits (s : System Tree) (run : Run Tree) : Phase Tree → Prop
  | .sweeping stands => stands = true → s.disk .directory = some (.whole s.last)
  | .handing | .swapping => s.disk run.fresh = some (.whole run.archive)
  | .movingIn moved => s.disk run.fresh = some (.whole run.archive) ∧ s.disk .directory = none ∧
      ∀ content ∈ moved, content = .whole s.last ∧ s.disk run.previous = some content
  | .undoing content => s.disk .directory = none ∧ content = .whole s.last ∧
      s.disk run.previous = some content
  | .clearing place outcome => place = run.fresh ∧ outcome = .failed ∨
      place = run.previous ∧ outcome = .restored ∧ s.disk .directory = some (.whole s.last)
  | .ended (.putBack moved) => s.disk .directory = moved
  | .ended (.leftAway content) => s.disk .directory = none ∧ s.disk run.previous = some content
  | .leftovers | .bringing | .unpacking | .ended .restored | .ended .failed => True

structure Inv (s : System Tree) : Prop where
  whole : Whole s
  fits : ∀ run, s.run = some run → Fits s run run.phase

/-- After every step: there is a whole copy of the tree that the server had last, before or after
the restore; and a restore whose second rename failed has left the directory as it was before, or,
when that could not be undone either, left all of it under the run's `.old` name. -/
structure KeepsTree (s : System Tree) : Prop where
  whole : ∃ place, s.disk place = some (.whole s.last)
  putBack : ∀ run moved, s.run = some run → run.phase = .ended (.putBack moved) →
    s.disk .directory = moved
  leftAway : ∀ run content, s.run = some run → run.phase = .ended (.leftAway content) →
    s.disk .directory = none ∧ s.disk run.previous = some content

theorem Inv.keepsTree {s : System Tree} (h : Inv s) : KeepsTree s where
  whole := by
    rcases h.whole with hstands | ⟨-, suffix, hold⟩
    · exact ⟨.directory, hstands⟩
    · exact ⟨.old suffix, hold⟩
  putBack run moved hrun hphase := by
    have hfits := h.fits run hrun
    rwa [hphase] at hfits
  leftAway run content hrun hphase := by
    have hfits := h.fits run hrun
    rwa [hphase] at hfits

section Steps

variable {s t : System Tree} {run : Run Tree}

@[simp] theorem put_disk_self (place : Place) (content : Option (Content Tree)) :
    (s.put place content).disk place = content := by simp [System.put]

theorem put_disk_ne {place other : Place} (content : Option (Content Tree)) (h : other ≠ place) :
    (s.put place content).disk other = s.disk other := by simp [System.put, h]

theorem fresh_ne_directory (run : Run Tree) : run.fresh ≠ .directory := by simp [Run.fresh]

theorem previous_ne_directory (run : Run Tree) : run.previous ≠ .directory := by simp [Run.previous]

theorem fresh_ne_previous (run : Run Tree) : run.fresh ≠ run.previous := by
  simp [Run.fresh, Run.previous]

theorem rename_cases {source target : Place} (h : s.rename source target = some t) :
    ∃ content, s.disk source = some content ∧ s.disk target = none ∧
      t = (s.put source none).put target (some content) := by
  unfold System.rename at h
  split at h
  · rename_i content hsource htarget
    exact ⟨content, hsource, htarget, (Option.some.inj h).symm⟩
  · simp at h

theorem inv_goTo (h : Inv s) {phase : Phase Tree} (hfits : Fits s run phase) :
    Inv (s.goTo run phase) where
  whole := h.whole
  fits other hother := by
    cases hother
    cases phase <;> exact hfits

theorem whole_put_restoring {suffix : String} (content : Option (Content Tree)) (h : Whole s) :
    Whole (s.put (.restoring suffix) content) := by
  rcases h with hstands | ⟨hnone, old, hold⟩
  · exact .inl (by rw [put_disk_ne _ (by simp)]; exact hstands)
  refine .inr ⟨?_, old, ?_⟩
  · rw [put_disk_ne _ (by simp)]
    exact hnone
  · rw [put_disk_ne _ (by simp)]
    exact hold

theorem inv_changes {tree : Tree} (h : Inv s) (hstep : s.changes tree = some t) : Inv t := by
  unfold System.changes at hstep
  split at hstep
  · rename_i content hdirectory
    cases hstep
    have hnew : (s.put .directory (some (.whole tree))).disk .directory = some (.whole tree) :=
      put_disk_self _ _
    refine ⟨.inl hnew, fun run hrun => ?_⟩
    by_cases hover : s.isOver = true
    · simp [hover] at hrun
    have hrun' : s.run = some run := by simpa [hover] using hrun
    have hfits := h.fits run hrun'
    have hfresh : (s.put .directory (some (.whole tree))).disk run.fresh = s.disk run.fresh :=
      put_disk_ne _ (fresh_ne_directory run)
    cases hphase : run.phase with
    | leftovers | bringing | unpacking => trivial
    | sweeping stands => exact fun _ => hnew
    | handing | swapping =>
      rw [hphase] at hfits
      exact hfresh.trans hfits
    | movingIn moved =>
      rw [hphase] at hfits
      exact absurd (hdirectory.symm.trans hfits.2.1) (by simp)
    | undoing moved =>
      rw [hphase] at hfits
      exact absurd (hdirectory.symm.trans hfits.1) (by simp)
    | clearing place outcome =>
      rw [hphase] at hfits
      rcases hfits with hfresh | ⟨hplace, houtcome, -⟩
      · exact .inl hfresh
      · exact .inr ⟨hplace, houtcome, hnew⟩
    | ended outcome => simp [System.isOver, hrun', hphase] at hover
  · simp at hstep

theorem mayClear_cases {place : Place} (hfits : Fits s run run.phase)
    (hmay : System.mayClear run.phase place = true) :
    (∃ suffix, place = .restoring suffix) ∨
      (∃ suffix, place = .old suffix) ∧ s.disk .directory = some (.whole s.last) := by
  cases hphase : run.phase with
  | sweeping stands =>
    rw [hphase] at hfits hmay
    cases place with
    | directory => simp [System.mayClear] at hmay
    | old suffix => exact .inr ⟨⟨suffix, rfl⟩, hfits hmay⟩
    | restoring suffix => exact .inl ⟨suffix, rfl⟩
  | clearing own outcome =>
    rw [hphase] at hfits hmay
    have hplace : place = own := by simpa [System.mayClear] using hmay
    rcases hfits with ⟨hfresh, -⟩ | ⟨hprevious, -, hstands⟩
    · exact .inl ⟨_, hplace.trans hfresh⟩
    · exact .inr ⟨⟨_, hplace.trans hprevious⟩, hstands⟩
  | _ => simp [hphase, System.mayClear] at hmay

theorem inv_clears {place : Place} {all : Bool} (h : Inv s) (hstep : s.clears place all = some t) :
    Inv t := by
  unfold System.clears at hstep
  split at hstep
  · rename_i run hrun
    split at hstep
    · rename_i hguard
      cases hstep
      have hmay : System.mayClear run.phase place = true := (Bool.and_eq_true_iff.mp hguard).1
      have hfits := h.fits run hrun
      have hcases := mayClear_cases hfits hmay
      have hne : Place.directory ≠ place := by
        rcases hcases with ⟨suffix, rfl⟩ | ⟨⟨suffix, rfl⟩, -⟩ <;> simp
      have hdirectory := put_disk_ne (s := s) (if all then none else some .part) hne
      constructor
      · rcases hcases with ⟨suffix, rfl⟩ | ⟨-, hstands⟩
        · exact whole_put_restoring _ h.whole
        · exact .inl (hdirectory.trans hstands)
      · intro other hother
        obtain rfl : run = other := Option.some.inj (hrun.symm.trans hother)
        cases hphase : run.phase with
        | sweeping stands =>
          rw [hphase] at hfits
          exact fun hs => hdirectory.trans (hfits hs)
        | clearing own outcome =>
          rw [hphase] at hfits
          rcases hfits with hfresh | ⟨hplace, houtcome, hstands⟩
          · exact .inl hfresh
          · exact .inr ⟨hplace, houtcome, hdirectory.trans hstands⟩
        | _ => simp [hphase, System.mayClear] at hmay
    · simp at hstep
  · simp at hstep

attribute [local grind =] System.moves

theorem inv_movesAway {ok : Bool} (h : Inv s) (hrun : s.run = some run)
    (hstep : s.moves run (.movesAway ok) = some t) : Inv t := by
  simp only [System.moves] at hstep
  split at hstep
  · rename_i hphase
    have hfits := h.fits run hrun
    rw [hphase] at hfits
    split at hstep
    · rename_i hnone
      cases hstep
      exact inv_goTo h ⟨hfits, hnone, by simp⟩
    rename_i content hdirectory
    split at hstep
    · obtain ⟨moved, hrename, rfl⟩ := Option.map_eq_some_iff.mp hstep
      obtain ⟨found, hfound, -, rfl⟩ := rename_cases hrename
      obtain rfl := Option.some.inj (hdirectory.symm.trans hfound)
      have hwhole : content = .whole s.last := by
        rcases h.whole with hstands | ⟨hnone, -⟩
        · exact Option.some.inj (hdirectory.symm.trans hstands)
        · simp [hnone] at hdirectory
      let t := (s.put .directory none).put run.previous (some content)
      have hgone : t.disk .directory = none := by
        rw [put_disk_ne _ (previous_ne_directory run).symm]
        exact put_disk_self _ _
      have hmoved : t.disk run.previous = some content := put_disk_self _ _
      have hfresh : t.disk run.fresh = some (.whole run.archive) := by
        rw [put_disk_ne _ (fresh_ne_previous run), put_disk_ne _ (fresh_ne_directory run)]
        exact hfits
      refine ⟨.inr ⟨hgone, suffixOf run.id, hmoved.trans (congrArg some hwhole)⟩, ?_⟩
      intro other hother
      cases hother
      refine ⟨hfresh, hgone, fun found hfound => ?_⟩
      cases hfound
      exact ⟨hwhole, hmoved⟩
    · cases hstep
      exact inv_goTo h trivial
  · simp at hstep

theorem inv_movesIn {ok : Bool} (h : Inv s) (hrun : s.run = some run)
    (hstep : s.moves run (.movesIn ok) = some t) : Inv t := by
  simp only [System.moves] at hstep
  split at hstep
  · rename_i moved hphase
    have hfits := h.fits run hrun
    rw [hphase] at hfits
    obtain ⟨hfresh, hnone, hmoved⟩ := hfits
    split at hstep
    · obtain ⟨renamed, hrename, rfl⟩ := Option.map_eq_some_iff.mp hstep
      obtain ⟨found, hfound, -, rfl⟩ := rename_cases hrename
      obtain rfl := Option.some.inj (hfresh.symm.trans hfound)
      have hstands : ((s.put run.fresh none).put .directory (some (.whole run.archive))).disk
          .directory = some (.whole run.archive) := put_disk_self _ _
      simp only [hfresh]
      refine ⟨.inl hstands, fun other hother => ?_⟩
      cases hother
      exact .inr ⟨rfl, rfl, hstands⟩
    · cases hstep
      cases moved with
      | none => exact inv_goTo h hnone
      | some content =>
        obtain ⟨hwhole, hprevious⟩ := hmoved content rfl
        exact inv_goTo h ⟨hnone, hwhole, hprevious⟩
  · simp at hstep

theorem inv_undoes {ok : Bool} (h : Inv s) (hrun : s.run = some run)
    (hstep : s.moves run (.undoes ok) = some t) : Inv t := by
  simp only [System.moves] at hstep
  split at hstep
  · rename_i content hphase
    have hfits := h.fits run hrun
    rw [hphase] at hfits
    obtain ⟨hnone, hwhole, hprevious⟩ := hfits
    split at hstep
    · obtain ⟨renamed, hrename, rfl⟩ := Option.map_eq_some_iff.mp hstep
      obtain ⟨found, hfound, -, rfl⟩ := rename_cases hrename
      obtain rfl := Option.some.inj (hprevious.symm.trans hfound)
      have hstands : ((s.put run.previous none).put .directory (some content)).disk .directory =
          some content := put_disk_self _ _
      refine ⟨.inl (hstands.trans (congrArg some hwhole)), fun other hother => ?_⟩
      cases hother
      exact hstands
    · cases hstep
      exact inv_goTo h ⟨hnone, hprevious⟩
  · simp at hstep

theorem inv_moves {e : Event Tree} (h : Inv s) (hrun : s.run = some run)
    (hstep : s.moves run e = some t) : Inv t := by
  cases e with
  | movesAway ok => exact inv_movesAway h hrun hstep
  | movesIn ok => exact inv_movesIn h hrun hstep
  | undoes ok => exact inv_undoes h hrun hstep
  | sweeps =>
    simp only [System.moves] at hstep
    split at hstep
    · cases hstep
      refine inv_goTo h fun hstands => ?_
      rcases h.whole with hwhole | ⟨hnone, -⟩
      · exact hwhole
      · simp [hnone] at hstands
    · simp at hstep
  | swept =>
    simp only [System.moves] at hstep
    split at hstep
    · cases hstep
      exact inv_goTo h trivial
    · simp at hstep
  | bringsDown ok =>
    simp only [System.moves] at hstep
    split at hstep
    · cases hstep
      cases ok <;> exact inv_goTo h trivial
    · simp at hstep
  | unpacks =>
    simp only [System.moves] at hstep
    split at hstep
    · rename_i hphase
      cases hstep
      refine ⟨whole_put_restoring _ h.whole, fun other hother => ?_⟩
      obtain rfl : run = other := Option.some.inj (hrun.symm.trans hother)
      rw [hphase]
      trivial
    · simp at hstep
  | unpacked ok =>
    simp only [System.moves] at hstep
    split at hstep
    · cases hstep
      cases ok with
      | false => exact inv_goTo h (.inl ⟨rfl, rfl⟩)
      | true =>
        have hwhole : Whole (s.put run.fresh (some (.whole run.archive))) :=
          whole_put_restoring _ h.whole
        refine ⟨hwhole, fun other hother => ?_⟩
        cases hother
        exact put_disk_self _ _
    · simp at hstep
  | handsOver ok =>
    simp only [System.moves] at hstep
    split at hstep
    · rename_i hphase
      cases hstep
      have hfits := h.fits run hrun
      rw [hphase] at hfits
      cases ok with
      | false => exact inv_goTo h (.inl ⟨rfl, rfl⟩)
      | true => exact inv_goTo h hfits
    · simp at hstep
  | cleared =>
    simp only [System.moves] at hstep
    split at hstep
    · rename_i hphase
      cases hstep
      have hfits := h.fits run hrun
      rw [hphase] at hfits
      rcases hfits with ⟨-, rfl⟩ | ⟨-, rfl, -⟩ <;> exact inv_goTo h trivial
    · simp at hstep
  | changes tree | starts id archive | clears place all | stops => simp [System.moves] at hstep

theorem inv_step {e : Event Tree} (h : Inv s) (hstep : machine.step s e = some t) : Inv t := by
  have hmoves : ∀ e, s.run.bind (s.moves · e) = some t → Inv t := by
    intro e hbind
    obtain ⟨run, hrun, hmove⟩ := Option.bind_eq_some_iff.mp hbind
    exact inv_moves h hrun hmove
  cases e with
  | changes tree => exact inv_changes h hstep
  | clears place all => exact inv_clears h hstep
  | starts id archive =>
    simp only [machine, System.step, System.starts] at hstep
    split at hstep
    · cases hstep
      refine ⟨h.whole, fun other hother => ?_⟩
      cases hother
      trivial
    · simp at hstep
  | stops =>
    cases hstep
    exact ⟨h.whole, by simp⟩
  | sweeps | swept | bringsDown ok | unpacks | unpacked ok | handsOver ok | movesAway ok
  | movesIn ok | undoes ok | cleared => exact hmoves _ hstep

end Steps

theorem inv_standing (tree : Tree) : Inv (standing tree) where
  whole := .inl (by simp [standing])
  fits := by simp [standing]

def movedAway (id : Id) (archive : Nat) : List (Event Nat) :=
  [.starts id archive, .sweeps, .swept, .bringsDown true, .unpacks, .unpacked true, .handsOver true,
    .movesAway true]

/-- The panel stops between the renames; the next restore clears away what the first unpacked, and
not what it moved away. -/
def restoredTwice : List (Event Nat) :=
  movedAway 1 20 ++ [Event.stops, .starts 2 30, .sweeps, .clears (.restoring "-1") true, .swept,
    .bringsDown true, .unpacks, .unpacked true, .handsOver true, .movesAway true, .movesIn true,
    .cleared]

end CraftPanel.Backups.Unrolling
