import CraftPanel.Content.Modrinth
import CraftPanel.Framework.Places
import CraftPanel.Framework.Sweeps

/-!
# Switching content on and off

`content/mod.rs`, `set_enabled` and the loop of `move_game_version` that disables what does not
fit. A file is renamed and its row told of it afterwards; what stood at the new name is gone then,
and the row may be refused. Files are known by themselves here, whatever they are called, and each
lies at one place.
-/

namespace CraftPanel.Content

namespace Items

def moveTo (items : Items) (id : Id) (path : Text) (enabled : Bool) : Except SqlFault Items :=
  match items.rows.find? fun row => row.id = id with
  | none => .ok items
  | some row =>
    if h : Clashes items.rows (row.movedTo path enabled) then .error .unique
    else .ok (items.enter (row.movedTo path enabled) h)

/-- The path that a row is to have is another's. -/
def Taken (items : Items) (id : Id) (path : Text) (enabled : Bool) : Prop :=
  ∃ row ∈ items.rows, row.id = id ∧ Clashes items.rows (row.movedTo path enabled)

variable {items after : Items} {server id other : Id} {row : ItemRow} {path : Text} {enabled : Bool}

theorem moveTo_error {fault : SqlFault} (h : items.moveTo id path enabled = .error fault) :
    items.Taken id path enabled := by
  unfold moveTo at h
  split at h
  · cases h
  next row hfind =>
    split at h
    next hclash =>
      exact ⟨row, List.mem_of_find?_eq_some hfind, by simpa using List.find?_some hfind, hclash⟩
    next => cases h

theorem moveTo_not_taken (h : items.moveTo id path enabled = .ok after) :
    ¬ items.Taken id path enabled := by
  rintro ⟨row, hmem, hid, hclash⟩
  have hfind : items.rows.find? (fun row => row.id = id) = some row := by
    cases hfind : items.rows.find? fun row => row.id = id with
    | none =>
      have hnone := List.find?_eq_none.mp hfind row hmem
      simp [hid] at hnone
    | some found =>
      have hfound : found.id = id := by simpa using List.find?_some hfind
      rw [same_id (List.mem_of_find?_eq_some hfind) hmem (hfound.trans hid.symm)]
  rw [moveTo, hfind] at h
  simp only [dif_pos hclash] at h
  cases h

theorem mem_moveTo (h : items.moveTo id path enabled = .ok after) : row ∈ after.rows ↔
    (∃ old ∈ items.rows, old.id = id ∧ row = old.movedTo path enabled) ∨
      row ∈ items.rows ∧ row.id ≠ id := by
  unfold moveTo at h
  split at h
  next hnone =>
    cases h
    have habsent : ∀ old ∈ items.rows, old.id ≠ id := by simpa using hnone
    constructor
    · exact fun hmem => .inr ⟨hmem, habsent row hmem⟩
    · rintro (⟨old, hold, hid, -⟩ | ⟨hmem, -⟩)
      · exact absurd hid (habsent old hold)
      · exact hmem
  next old hfind =>
    have hold : old ∈ items.rows := List.mem_of_find?_eq_some hfind
    have hid : old.id = id := by simpa using List.find?_some hfind
    split at h
    · cases h
    cases h
    rw [enter, mem_put]
    have hmoved : (old.movedTo path enabled).id = id := hid
    rw [hmoved]
    apply or_congr_left
    constructor
    · rintro rfl
      exact ⟨old, hold, hid, rfl⟩
    · rintro ⟨other, hother, hsame, rfl⟩
      rw [same_id hother hold (hsame.trans hid.symm)]

theorem one_moveTo (h : items.moveTo id path enabled = .ok after) : after.one server other =
    if other = id then (items.one server other).map fun row => row.movedTo path enabled
    else items.one server other := by
  apply Option.ext
  intro row
  rw [one_eq_some, mem_moveTo h]
  split
  next hsame =>
    subst hsame
    rw [Option.map_eq_some_iff]
    constructor
    · rintro ⟨⟨old, hold, hid, rfl⟩ | ⟨-, hne⟩, hserver, hrow⟩
      · exact ⟨old, one_eq_some.mpr ⟨hold, hserver, hid⟩, rfl⟩
      · exact absurd hrow hne
    · rintro ⟨old, hone, rfl⟩
      obtain ⟨hold, hserver, hid⟩ := one_eq_some.mp hone
      exact ⟨.inl ⟨old, hold, hid, rfl⟩, hserver, hid⟩
  next hne =>
    rw [one_eq_some]
    constructor
    · rintro ⟨⟨old, hold, hid, rfl⟩ | ⟨hmem, -⟩, hserver, hrow⟩
      · exact absurd (hrow.symm.trans hid) hne
      · exact ⟨hmem, hserver, hrow⟩
    · rintro ⟨hmem, hserver, hrow⟩
      exact ⟨.inr ⟨hmem, fun he => hne (hrow.symm.trans he)⟩, hserver, hrow⟩

end Items

namespace Toggling

open Framework
open Paths (PathFault)

/-- What the system says where it refuses a call. -/
structure OsError where
  /-- `EACCES` or `EPERM`. -/
  denied : Bool := false
  text : String := ""

inductive Fault
  | path (fault : PathFault)
  | refused (message : String)
  | io (message : String)

/-- `PathFault::code`. -/
def pathCode : PathFault → String
  | .invalid => "invalid_path"
  | .tooLong => "path_too_long"
  | .escapes => "forbidden_path"

namespace Fault

/-- `Fault::of`. -/
def ofError (error : OsError) : Fault := if error.denied then refused error.text else io error.text

def code : Fault → String
  | path fault => pathCode fault
  | refused _ => "file_not_accessible"
  | io _ => "internal"

def message : Fault → String
  | path fault => fault.message
  | refused message | io message => message

end Fault

abbrev Disk (File : Type) := Places File Paths.Path

structure State (File : Type) where
  items : Items := {}
  disk : Disk File := ⊥

/-- What everything else answers, at the n-th item of a request. -/
structure Surroundings where
  root : Paths.Path := []
  /-- What the walk to a file finds on its way. Only the links of it matter, and none is made or
  moved. -/
  sees : (statement : Paths.Statement) → Except Paths.Fault (Paths.Answer statement)
  unreadable : Nat → Bool := fun _ => false
  refusals : Nat → Option OsError := fun _ => none
  unwritable : Nat → Option String := fun _ => none
  handBack : Bool := true

section Requests

variable {File : Type} [DecidableEq File] (env : Surroundings) (server : Id)

/-- `paths::resolve_leaf`, which fails in no other way. -/
def Surroundings.locate (raw : Text) : Except PathFault Paths.Path :=
  match (Paths.resolveLeaf env.root raw).alone env.sees with
  | .ok path => .ok path
  | .error (.path fault) => .error fault
  | .error (.io _) => .error .escapes

def noSuchFile : String := "No such file or directory (os error 2)"

/-- `std::fs::rename` of a file replaces what is there. -/
def renameWithin (n : Nat) (source destination : Text) (disk : Disk File) :
    Except Fault (Disk File) :=
  match env.locate source, env.locate destination with
  | .error fault, _ => .error (.path fault)
  | .ok _, .error fault => .error (.path fault)
  | .ok source, .ok destination => match env.refusals n with
    | some error => .error (.ofError error)
    | none => match disk.lying source with
      | none => .error (.io noSuchFile)
      | some file => .ok (disk.put file destination)

/-- The file of a row is renamed, and then the row. What the table says of itself is passed on. -/
def toggle (n : Nat) (row : ItemRow) (enabled : Bool) :
    Effect (State File) String (Except Fault Unit) := fun s =>
  let wanted := toggled row.filePath enabled
  match renameWithin env n row.filePath wanted s.disk with
  | .error fault => (.ok (.error fault), s)
  | .ok disk => match env.unwritable n with
    | some error => (.error error, { s with disk })
    | none => match s.items.moveTo row.id wanted enabled with
      | .error .unique => (.error "UNIQUE constraint failed", { s with disk })
      | .ok items => (.ok (.ok ()), { items, disk })

structure ContentMutationResult where
  id : Id
  ok : Bool
  fileName : Option Text := none
  filePath : Option Text := none
  enabled : Option Bool := none
  error : Option String := none
  message : Option String := none

def failed (id : Id) (error message : String) : ContentMutationResult :=
  { id, ok := false, error := some error, message := some message }

def leadingSlash (path : Text) : Text := '/' :: path.dropWhile (· = '/')

def succeeded (row : ItemRow) : ContentMutationResult where
  id := row.id
  ok := true
  fileName := some row.fileName
  filePath := some (leadingSlash row.filePath)
  enabled := some row.enabled

def setOne (enabled : Bool) (n : Nat) (id : Id) :
    Effect (State File) Settings.Failure (ContentMutationResult × Bool) := fun s =>
  if env.unreadable n then (.error .internal, s)
  else match s.items.one server id with
    | none => (.ok (failed id "content_not_found" "no such item", false), s)
    | some row =>
      if row.locked then
        (.ok (failed id "forbidden" "the loader jar cannot be switched off", false), s)
      else if row.enabled = enabled then (.ok (succeeded row, false), s)
      else match toggle env n row enabled s with
        | (.error _, s) => (.error .internal, s)
        | (.ok (.error fault), s) => (.ok (failed id fault.code fault.message, false), s)
        | (.ok (.ok ()), s) =>
          (.ok (succeeded (row.movedTo (toggled row.filePath enabled) enabled), true), s)

/-- `set_enabled`, with the facts of the server at hand. -/
def setEnabled (ids : List Id) (enabled : Bool) :
    Effect (State File) Settings.Failure (List ContentMutationResult) :=
  Effect.sweep (setOne env server enabled) 0 ids >>= fun results =>
    if results.any Prod.snd ∧ env.handBack = false then Effect.fail .internal
    else pure (results.map Prod.fst)

/-- An item that does not fit, and whether its file was moved; it may have been read a while ago. -/
def disableOne (n : Nat) (row : ItemRow) : Effect (State File) OperationError Bool := fun s =>
  if row.enabled = false then (.ok false, s)
  else match toggle env n row false s with
    | (.error why, s) => (.error (internal why), s)
    | (.ok (.error _), s) => (.ok false, s)
    | (.ok (.ok ()), s) => (.ok true, s)

def notHandedBack : OperationError where
  code := "internal"
  message := "the files could not be handed back: "
  step := .filesystem

/-- What `move_game_version` does with the items that do not fit. -/
def disableRows (rows : List ItemRow) : Effect (State File) OperationError Unit :=
  Effect.sweep (disableOne env) 0 rows >>= fun switched =>
    if switched.any id ∧ env.handBack = false then Effect.fail notHandedBack else pure ()

end Requests

section Harm

variable {File : Type} (env : Surroundings) (server : Id)

def State.at (s : State File) (path : Text) : Option File :=
  match env.locate path with
  | .ok place => s.disk.lying place
  | .error _ => none

def State.leads (s : State File) (id : Id) : Option (Option File) :=
  (s.items.one server id).map fun row => s.at env row.filePath

/-- Each row leads to the file that it led to, and a file that no row led to lies where it lay. -/
def Harmless (s t : State File) : Prop :=
  (∀ id, t.leads env server id = s.leads env server id) ∧
    ∀ file, (∀ id, s.leads env server id ≠ some (some file)) → t.disk file = s.disk file

/-- A rename that goes through, and the file and the places it is about. -/
def Renames (n : Nat) (row : ItemRow) (enabled : Bool) (s : State File) (file : File)
    (p q : Paths.Path) : Prop :=
  env.locate row.filePath = .ok p ∧ env.locate (toggled row.filePath enabled) = .ok q ∧
    env.refusals n = none ∧ s.disk.lying p = some file

/-- The row is not written. -/
def Refused (n : Nat) (row : ItemRow) (enabled : Bool) (s : State File) : Prop :=
  env.unwritable n ≠ none ∨ s.items.Taken row.id (toggled row.filePath enabled) enabled

/-- A file that is moved is the one that the row still leads to, no other row leads to where it was
or to where it comes to lie, nothing lies there yet, and the row is written. A file that stays
where it is may have no row, and the row need not be written. -/
def Careful (n : Nat) (row : ItemRow) (enabled : Bool) (s : State File) : Prop :=
  ∀ file p q, Renames env n row enabled s file p q →
    if p = q then
      Refused env n row enabled s ∨ s.leads env server row.id = none ∨
        s.leads env server row.id = some (some file)
    else
      s.leads env server row.id = some (some file) ∧ s.disk.lying q = none ∧
        ¬ Refused env n row enabled s ∧
          ∀ other ∈ s.items.rows, other.serverId = server → other.id ≠ row.id →
            env.locate other.filePath ≠ .ok p ∧ env.locate other.filePath ≠ .ok q

variable {env} {server} {s t u : State File} {n : Nat} {row other : ItemRow} {enabled : Bool}
  {file : File} {p q : Paths.Path} {path : Text} {id : Id}

theorem harmless_equivalence : Equivalence (@Harmless File env server) where
  refl _ := ⟨fun _ => rfl, fun _ _ => rfl⟩
  symm := by
    intro s t h
    refine ⟨fun id => (h.1 id).symm, fun file hfile => (h.2 file fun id => ?_).symm⟩
    rw [← h.1 id]
    exact hfile id
  trans := by
    intro s t u hst htu
    refine ⟨fun id => (htu.1 id).trans (hst.1 id), fun file hfile => ?_⟩
    have hnone : ∀ id, t.leads env server id ≠ some (some file) := by
      intro id
      rw [hst.1 id]
      exact hfile id
    exact (htu.2 file hnone).trans (hst.2 file hfile)

theorem at_eq_some : s.at env path = some file ↔
    ∃ p, env.locate path = .ok p ∧ s.disk.lying p = some file := by
  unfold State.at
  cases env.locate path <;> simp

theorem at_of (h : env.locate path = .ok p) : s.at env path = s.disk.lying p := by
  rw [State.at, h]

theorem leads_of (h : s.items.one server id = some row) :
    s.leads env server id = some (s.at env row.filePath) := by
  rw [State.leads, h, Option.map_some]

theorem leads_place (h : s.leads env server id = some (some file)) (hp : s.disk.lying p = some file) :
    ∃ row, s.items.one server id = some row ∧ env.locate row.filePath = .ok p := by
  obtain ⟨row, hone, hat⟩ := Option.map_eq_some_iff.mp h
  obtain ⟨place, hplace, hlying⟩ := at_eq_some.mp hat
  have hsame : place = p := by
    rw [s.disk.lying_eq_some] at hlying hp
    exact Option.some.inj (hlying.symm.trans hp)
  exact ⟨row, hone, hsame ▸ hplace⟩

theorem Renames.unique {file' : File} {p' q' : Paths.Path} (h : Renames env n row enabled s file p q)
    (h' : Renames env n row enabled s file' p' q') : file' = file ∧ p' = p ∧ q' = q := by
  obtain ⟨hp, hq, -, hlying⟩ := h
  obtain ⟨hp', hq', -, hlying'⟩ := h'
  obtain rfl := Except.ok.inj (hp.symm.trans hp')
  obtain rfl := Except.ok.inj (hq.symm.trans hq')
  exact ⟨Option.some.inj (hlying'.symm.trans hlying), rfl, rfl⟩

theorem careful_of (h : Renames env n row enabled s file p q) : Careful env server n row enabled s ↔
    if p = q then
      Refused env n row enabled s ∨ s.leads env server row.id = none ∨
        s.leads env server row.id = some (some file)
    else
      s.leads env server row.id = some (some file) ∧ s.disk.lying q = none ∧
        ¬ Refused env n row enabled s ∧
          ∀ other ∈ s.items.rows, other.serverId = server → other.id ≠ row.id →
            env.locate other.filePath ≠ .ok p ∧ env.locate other.filePath ≠ .ok q := by
  constructor
  · intro hcareful
    exact hcareful file p q h
  · intro hcond file' p' q' h'
    obtain ⟨rfl, rfl, rfl⟩ := h.unique h'
    exact hcond

variable [DecidableEq File]

theorem renameWithin_ok {disk : Disk File}
    (h : renameWithin env n row.filePath (toggled row.filePath enabled) s.disk = .ok disk) :
    ∃ file p q, Renames env n row enabled s file p q ∧ disk = s.disk.put file q := by
  unfold renameWithin at h
  split at h
  · cases h
  · cases h
  next p q hp hq =>
    split at h
    · cases h
    next hrefusal =>
      split at h
      · cases h
      next file hlying =>
        cases h
        exact ⟨file, p, q, ⟨hp, hq, hrefusal, hlying⟩, rfl⟩

theorem renameWithin_of (h : Renames env n row enabled s file p q) :
    renameWithin env n row.filePath (toggled row.filePath enabled) s.disk =
      .ok (s.disk.put file q) := by
  obtain ⟨hp, hq, hrefusal, hlying⟩ := h
  rw [renameWithin, hp, hq]
  simp only [hrefusal, hlying]

theorem toggle_cases (h : Renames env n row enabled s file p q) :
    Refused env n row enabled s ∧
        (toggle env n row enabled s).2 = { s with disk := s.disk.put file q } ∨
      ∃ items, s.items.moveTo row.id (toggled row.filePath enabled) enabled = .ok items ∧
        ¬ Refused env n row enabled s ∧
          (toggle env n row enabled s).2 = { items, disk := s.disk.put file q } := by
  unfold toggle
  simp only [renameWithin_of h]
  cases hwrite : env.unwritable n with
  | some error => exact .inl ⟨.inl (by simp [hwrite]), rfl⟩
  | none =>
    cases hmove : s.items.moveTo row.id (toggled row.filePath enabled) enabled with
    | error fault =>
      cases fault
      exact .inl ⟨.inr (Items.moveTo_error hmove), rfl⟩
    | ok items =>
      have hfree : ¬ Refused env n row enabled s := by
        rintro (hne | htaken)
        · exact hne hwrite
        · exact Items.moveTo_not_taken hmove htaken
      exact .inr ⟨items, rfl, hfree, rfl⟩

theorem toggle_unmoved (h : ∀ file p q, ¬ Renames env n row enabled s file p q) :
    (toggle env n row enabled s).2 = s := by
  unfold toggle
  cases hrename : renameWithin env n row.filePath (toggled row.filePath enabled) s.disk with
  | error fault => simp only [hrename]
  | ok disk =>
    obtain ⟨file, p, q, hrenames, -⟩ := renameWithin_ok hrename
    exact absurd hrenames (h file p q)

theorem harmless_staying (h : Renames env n row enabled s file p p) :
    Harmless env server s (toggle env n row enabled s).2 ↔
      Refused env n row enabled s ∨ s.leads env server row.id = none ∨
        s.leads env server row.id = some (some file) := by
  have hput : s.disk.put file p = s.disk := Places.put_of_at _ ((s.disk.lying_eq_some).mp h.2.2.2)
  rcases toggle_cases h with ⟨hrefused, hend⟩ | ⟨items, hmove, hwritten, hend⟩
  · rw [hend, hput]
    exact ⟨fun _ => .inl hrefused, fun _ => harmless_equivalence.refl s⟩
  rw [hend, hput]
  have hleads : ∀ id, State.leads env server ⟨items, s.disk⟩ id =
      if id = row.id then (s.items.one server id).map fun _ => some file
      else s.leads env server id := by
    intro id
    rw [State.leads, Items.one_moveTo hmove]
    split
    · have hat : State.at env ⟨items, s.disk⟩ (toggled row.filePath enabled) = some file :=
        at_eq_some.mpr ⟨p, h.2.1, h.2.2.2⟩
      rw [Option.map_map]
      exact congrFun (congrArg Option.map (funext fun _ => hat)) _
    · rfl
  constructor
  · intro hharmless
    have hrow := hharmless.1 row.id
    rw [hleads, if_pos rfl] at hrow
    cases hone : s.items.one server row.id with
    | none => exact .inr (.inl (by simp [State.leads, hone]))
    | some old =>
      rw [hone] at hrow
      exact .inr (.inr hrow.symm)
  · intro hcond
    refine ⟨fun id => ?_, fun _ _ => rfl⟩
    rw [hleads]
    split
    next hid =>
      subst hid
      rcases hcond with hrefused | hnone | hsome
      · exact absurd hrefused hwritten
      · rw [hnone]
        rw [State.leads, Option.map_eq_none_iff] at hnone
        rw [hnone, Option.map_none]
      · rw [hsome]
        obtain ⟨old, hone, -⟩ := Option.map_eq_some_iff.mp hsome
        rw [hone, Option.map_some]
    next => rfl

theorem moving_harmless (h : Renames env n row enabled s file p q) (hne : p ≠ q)
    (hharmless : Harmless env server s (toggle env n row enabled s).2) :
    (∃ id, s.leads env server id = some (some file)) ∧ s.disk.lying q = none := by
  have hplace : s.disk file = some p := (s.disk.lying_eq_some).mp h.2.2.2
  have hdisk : (toggle env n row enabled s).2.disk = s.disk.put file q := by
    rcases toggle_cases h with ⟨-, hend⟩ | ⟨items, -, -, hend⟩ <;> rw [hend]
  constructor
  · by_contra hnobody
    have hstays := hharmless.2 file fun id hid => hnobody ⟨id, hid⟩
    rw [hdisk, Places.put_self, hplace] at hstays
    exact hne (Option.some.inj hstays).symm
  · cases hlying : s.disk.lying q with
    | none => rfl
    | some other =>
      have hother : s.disk other = some q := (s.disk.lying_eq_some).mp hlying
      have hdiffer : other ≠ file := by
        rintro rfl
        exact hne (Option.some.inj (hplace.symm.trans hother))
      have hgone : (toggle env n row enabled s).2.disk other = none := by
        rw [hdisk]
        exact Places.put_displaced _ hdiffer hother
      exfalso
      by_cases howned : ∃ id, s.leads env server id = some (some other)
      · obtain ⟨id, hid⟩ := howned
        rw [← hharmless.1 id] at hid
        obtain ⟨after, -, hat⟩ := Option.map_eq_some_iff.mp hid
        obtain ⟨place, -, hthere⟩ := at_eq_some.mp hat
        rw [Places.lying_eq_some, hgone] at hthere
        cases hthere
      · have hstays := hharmless.2 other fun id hid => howned ⟨id, hid⟩
        rw [hgone, hother] at hstays
        cases hstays

theorem left_behind (h : Renames env n row enabled s file p q) (hne : p ≠ q)
    (hharmless : Harmless env server s (toggle env n row enabled s).2)
    (hid : s.leads env server id = some (some file))
    (hsame : (toggle env n row enabled s).2.items.one server id = s.items.one server id) : False := by
  have hdisk : (toggle env n row enabled s).2.disk = s.disk.put file q := by
    rcases toggle_cases h with ⟨-, hend⟩ | ⟨items, -, -, hend⟩ <;> rw [hend]
  obtain ⟨old, hone, hlocate⟩ := leads_place hid h.2.2.2
  have hleads := hharmless.1 id
  have hplace : s.disk file = some p := (s.disk.lying_eq_some).mp h.2.2.2
  rw [leads_of (hsame.trans hone), hid, at_of hlocate, hdisk, Places.put_lying_old _ hplace hne]
    at hleads
  cases hleads

theorem harmless_moving (h : Renames env n row enabled s file p q) (hne : p ≠ q) :
    Harmless env server s (toggle env n row enabled s).2 ↔
      s.leads env server row.id = some (some file) ∧ s.disk.lying q = none ∧
        ¬ Refused env n row enabled s ∧
          ∀ other ∈ s.items.rows, other.serverId = server → other.id ≠ row.id →
            env.locate other.filePath ≠ .ok p ∧ env.locate other.filePath ≠ .ok q := by
  have hplace : s.disk file = some p := (s.disk.lying_eq_some).mp h.2.2.2
  rcases toggle_cases h with ⟨hrefused, hend⟩ | ⟨items, hmove, hwritten, hend⟩
  · refine ⟨fun hharmless => ?_, fun hcond => absurd hrefused hcond.2.2.1⟩
    obtain ⟨id, hid⟩ := (moving_harmless h hne hharmless).1
    exact (left_behind h hne hharmless hid (by rw [hend])).elim
  have hothers : ∀ id, id ≠ row.id →
      (toggle env n row enabled s).2.items.one server id = s.items.one server id := by
    intro id hid
    rw [hend, Items.one_moveTo hmove, if_neg hid]
  constructor
  · intro hharmless
    obtain ⟨⟨id, hid⟩, hfree⟩ := moving_harmless h hne hharmless
    have hrow : id = row.id := by
      by_contra hother
      exact left_behind h hne hharmless hid (hothers id hother)
    refine ⟨hrow ▸ hid, hfree, hwritten, fun other hmem hserver hother => ⟨?_, ?_⟩⟩
    · intro hlocate
      have hone : s.items.one server other.id = some other :=
        Items.one_eq_some.mpr ⟨hmem, hserver, rfl⟩
      have hleads : s.leads env server other.id = some (some file) := by
        rw [leads_of hone, at_of hlocate, h.2.2.2]
      exact left_behind h hne hharmless hleads (hothers _ hother)
    · intro hlocate
      have hone : s.items.one server other.id = some other :=
        Items.one_eq_some.mpr ⟨hmem, hserver, rfl⟩
      have hleads := hharmless.1 other.id
      rw [leads_of ((hothers _ hother).trans hone), leads_of hone, at_of hlocate, at_of hlocate,
        hfree, hend, Places.put_lying_self] at hleads
      cases hleads
  · rintro ⟨hown, hfree, -, hapart⟩
    rw [hend]
    refine ⟨fun id => ?_, fun other hother => ?_⟩
    · by_cases hid : id = row.id
      · subst hid
        obtain ⟨old, hone, -⟩ := Option.map_eq_some_iff.mp hown
        have hafter : items.one server row.id =
            some (old.movedTo (toggled row.filePath enabled) enabled) := by
          rw [Items.one_moveTo hmove, if_pos rfl, hone, Option.map_some]
        rw [leads_of hafter, hown]
        exact congrArg some (at_eq_some.mpr ⟨q, h.2.1, Places.put_lying_self _⟩)
      have hsame : items.one server id = s.items.one server id := by
        rw [Items.one_moveTo hmove, if_neg hid]
      cases hone : s.items.one server id with
      | none => simp only [State.leads, hsame, hone, Option.map_none]
      | some old =>
        obtain ⟨hmem, hserver, hold⟩ := Items.one_eq_some.mp hone
        obtain ⟨hnotold, hnotnew⟩ := hapart old hmem hserver fun he => hid (hold.symm.trans he)
        rw [leads_of (hsame.trans hone), leads_of hone]
        cases hlocate : env.locate old.filePath with
        | error fault => simp only [State.at, hlocate]
        | ok place =>
          have hp : place ≠ p := fun he => hnotold (he ▸ hlocate)
          have hq : place ≠ q := fun he => hnotnew (he ▸ hlocate)
          rw [at_of hlocate, at_of hlocate]
          apply congrArg some
          apply Places.put_lying_ne _ hq
          rw [hplace]
          exact fun he => hp (Option.some.inj he).symm
    · have hdiffer : other ≠ file := by
        rintro rfl
        exact hother row.id hown
      apply Places.put_ne _ hdiffer
      rw [Ne, ← Places.lying_eq_some, hfree]
      exact nofun

theorem harmless_toggle :
    Harmless env server s (toggle env n row enabled s).2 ↔ Careful env server n row enabled s := by
  by_cases hmoves : ∃ file p q, Renames env n row enabled s file p q
  · obtain ⟨file, p, q, h⟩ := hmoves
    rw [careful_of h]
    split
    next he =>
      subst he
      exact harmless_staying h
    next hne => exact harmless_moving h hne
  · have hstill : ∀ file p q, ¬ Renames env n row enabled s file p q :=
      fun file p q h => hmoves ⟨file, p, q, h⟩
    rw [toggle_unmoved hstill]
    exact ⟨fun _ file p q h => absurd h (hstill file p q), fun _ => harmless_equivalence.refl s⟩

end Harm

section Requests

variable {File : Type} [DecidableEq File] (env : Surroundings) (server : Id)

/-- An item that a request to switch comes to and finds to be switched. -/
def ToSwitch (enabled : Bool) (n : Nat) (id : Id) (s : State File) (row : ItemRow) : Prop :=
  env.unreadable n = false ∧ s.items.one server id = some row ∧ row.locked = false ∧
    row.enabled ≠ enabled

variable {env} {server} {s : State File} {enabled : Bool} {n : Nat} {id : Id} {ids : List Id}
  {row : ItemRow} {rows : List ItemRow}

theorem setOne_switch (h : ToSwitch env server enabled n id s row) :
    (setOne env server enabled n id s).2 = (toggle env n row enabled s).2 := by
  obtain ⟨hread, hone, hlocked, hdiffers⟩ := h
  unfold setOne
  simp only [hread, hone, hlocked, hdiffers, Bool.false_eq_true, if_false]
  rcases toggle env n row enabled s with ⟨error | fault | done, t⟩ <;> rfl

theorem setOne_skip (h : ∀ row, ¬ ToSwitch env server enabled n id s row) :
    (setOne env server enabled n id s).2 = s := by
  unfold setOne
  split
  · rfl
  next hread =>
    split
    · rfl
    next row hone =>
      split
      · rfl
      next hlocked =>
        split
        · rfl
        next hdiffers =>
          exact absurd ⟨by simpa using hread, hone, by simpa using hlocked, hdiffers⟩ (h row)

theorem harmless_setOne : Harmless env server s (setOne env server enabled n id s).2 ↔
    ∀ row, ToSwitch env server enabled n id s row → Careful env server n row enabled s := by
  by_cases hswitch : ∃ row, ToSwitch env server enabled n id s row
  · obtain ⟨row, h⟩ := hswitch
    rw [setOne_switch h, harmless_toggle]
    constructor
    · intro hcareful other hother
      obtain rfl := Option.some.inj (h.2.1.symm.trans hother.2.1)
      exact hcareful
    · exact fun hcareful => hcareful row h
  · have hskip : ∀ row, ¬ ToSwitch env server enabled n id s row := fun row h => hswitch ⟨row, h⟩
    rw [setOne_skip hskip]
    exact ⟨fun _ row h => absurd h (hskip row), fun _ => harmless_equivalence.refl s⟩

theorem harmless_disableOne : Harmless env server s (disableOne env n row s).2 ↔
    (row.enabled = true → Careful env server n row false s) := by
  unfold disableOne
  split
  next hoff =>
    simp only [hoff, Bool.false_eq_true, false_imp_iff, iff_true]
    exact harmless_equivalence.refl s
  next hon =>
    rw [Bool.not_eq_false] at hon
    have hstate : (match toggle env n row false s with
        | (.error why, s) => ((.error (internal why), s) : Except OperationError Bool × State File)
        | (.ok (.error _), s) => (.ok false, s)
        | (.ok (.ok ()), s) => (.ok true, s)).2 = (toggle env n row false s).2 := by
      rcases toggle env n row false s with ⟨error | fault | done, t⟩ <;> rfl
    rw [hstate, harmless_toggle]
    exact ⟨fun hcareful _ => hcareful, fun hcareful => hcareful hon⟩

theorem setEnabled_state : (setEnabled env server ids enabled s).2 =
    (Effect.sweep (setOne env server enabled) 0 ids s).2 := by
  have hbind : setEnabled env server ids enabled s =
      Effect.bind (Effect.sweep (setOne env server enabled) 0 ids) (fun results =>
        if results.any Prod.snd ∧ env.handBack = false then Effect.fail .internal
        else pure (results.map Prod.fst)) s := rfl
  rw [hbind, Effect.bind]
  rcases Effect.sweep (setOne env server enabled) 0 ids s with ⟨e | results, t⟩
  · rfl
  · dsimp only
    split <;> rfl

theorem disableRows_state : (disableRows env rows s).2 =
    (Effect.sweep (disableOne env) 0 rows s).2 := by
  have hbind : disableRows env rows s =
      Effect.bind (Effect.sweep (disableOne env) 0 rows) (fun switched =>
        if switched.any (fun moved => moved) ∧ env.handBack = false then
          Effect.fail notHandedBack
        else pure ()) s := rfl
  rw [hbind, Effect.bind]
  rcases Effect.sweep (disableOne env) 0 rows s with ⟨e | switched, t⟩
  · rfl
  · dsimp only
    split <;> rfl

variable (env server s)

/-- However far a request to switch comes, and however far the disabling comes, every row leads to
its file and every other file lies where it lay, if and only if each item that is switched is one
whose file moves with care. -/
theorem toggling_loses_nothing_iff :
    (∀ ids enabled,
      (∀ first, first <+: ids → Harmless env server s (setEnabled env server first enabled s).2) ↔
        ∀ before id t, Effect.Reaches (setOne env server enabled) 0 s ids before id t →
          ∀ row, ToSwitch env server enabled before.length id t row →
            Careful env server before.length row enabled t) ∧
    ∀ rows,
      (∀ first, first <+: rows → Harmless env server s (disableRows env first s).2) ↔
        ∀ before row t, Effect.Reaches (disableOne env) 0 s rows before row t →
          row.enabled = true → Careful env server before.length row false t := by
  constructor
  · intro ids enabled
    simp only [setEnabled_state]
    rw [Effect.sweep_keeps harmless_equivalence]
    simp only [Nat.zero_add, harmless_setOne]
  · intro rows
    simp only [disableRows_state]
    rw [Effect.sweep_keeps harmless_equivalence]
    simp only [Nat.zero_add, harmless_disableOne]

end Requests

def calm : Surroundings where
  sees
    | .canonicalizeRoot => .ok ()
    | .canonicalize path => .ok path
    | .symlinkMetadata _ => .error (.io .notFound)
    | .isDir _ => .ok false
    | .createDir _ => .ok ()
    | .removeFile _ => .ok ()
    | .removeDirAll _ => .ok ()
    | .moveIn _ => .ok ()
    | .copyIn _ => .ok ()
    | .rename _ _ => .ok ()

def oneJar : Items where
  rows := [.fresh 0 0 "mods/a.jar".toList .mod 0]
  nextId := 1

/-- `mods/a.jar`, and a file beside it that lies where the disabled one would. -/
def twice : State Nat where
  items := oneJar
  disk := ((⊥ : Disk Nat).put 0 ["a.jar".toList, "mods".toList]).put 1
    ["a.jar.disabled".toList, "mods".toList]

theorem toggling_overwrites : ¬ Harmless calm 0 twice (setEnabled calm 0 [0] false twice).2 := by
  intro hharmless
  have hbefore : twice.disk 1 = some ["a.jar.disabled".toList, "mods".toList] := by decide +kernel
  have hafter : (setEnabled calm 0 [0] false twice).2.disk 1 = none := by decide +kernel
  have hrow : ∀ id, twice.leads calm 0 id ≠ some (some 1) := by
    intro id hid
    obtain ⟨row, hone, hat⟩ := Option.map_eq_some_iff.mp hid
    obtain ⟨hmem, -, -⟩ := Items.one_eq_some.mp hone
    obtain rfl := List.mem_singleton.mp hmem
    revert hat
    decide +kernel
  have hstays := hharmless.2 1 hrow
  rw [hbefore, hafter] at hstays
  cases hstays

end Toggling

end CraftPanel.Content
