import CraftPanel.Content.Packs
import CraftPanel.Content.Planning
import CraftPanel.Content.Operations
import CraftPanel.Framework.Sweeps

/-!
# Laying out updates

`content/mod.rs`, `lay_out` and `write_row`, and of `content/install.rs` `fetch`, `place` and
`directory_of`. The old file of an item goes first, then the new one comes, and the row is written
at the end; each of these may fail. Files are known by their inodes, so that one that was put where
another lay is another, whatever is in it. There are no links in the server's directory.
-/

namespace CraftPanel.Content.LayingOut

open Framework
open Packs (Place Bytes resolveLeaf notADirectory Dependency)
open Planning (Wanted kindOf)
open Settings (LoaderId)

structure Stored where
  inode : Nat
  body : Bytes
  deriving DecidableEq

structure State where
  items : Items
  dependencies : List Dependency := []
  folder : FileMap Text Stored := .empty
  /-- The inodes from here on are free. -/
  nextInode : Nat := 0
  drawn : ∀ p file, folder.file p = some file → file.inode < nextInode := by simp

namespace State

variable (s : State) {p x : Place} {spared : Place → Bool} {body : Bytes}

def cut (p : Place) (spared : Place → Bool) : State :=
  { s with
    folder := s.folder.cut p spared
    drawn := by
      intro q file hfile
      rw [FileMap.cut_file] at hfile
      split at hfile
      · cases hfile
      · exact s.drawn q file hfile }

def put (p : Place) (body : Bytes) (h : s.folder.Free p) : State :=
  { s with
    folder := s.folder.put p ⟨s.nextInode, body⟩ h
    nextInode := s.nextInode + 1
    drawn := by
      intro q file hfile
      rw [FileMap.put_file] at hfile
      split at hfile
      · cases hfile
        exact Nat.lt_succ_self _
      · split at hfile
        · cases hfile
        · exact Nat.lt_succ_of_lt (s.drawn q file hfile) }

theorem cut_file : (s.cut p spared).folder.file x =
    if p <+: x ∧ spared x = false then none else s.folder.file x := rfl

end State

/-- Where `place` fails once there is room, and what that leaves. -/
inductive Hitch
  | parent (error : IoError)
  | clearing (error : IoError) (spared : Place → Bool)
  | copying (error : IoError) (left : Option Bytes)
  /-- The staged file cannot be removed; it has been copied. -/
  | staged (error : IoError)

/-- What everything else answers, at the n-th item. -/
structure Surroundings where
  workDir : Except OperationError Unit := .ok ()
  sends : Nat → Text → Except Upstream Bytes := fun _ _ => .ok []
  sha1 : Bytes → Text := fun _ => []
  sha512 : Bytes → Text := fun _ => []
  modrinth : Planning.Modrinth := {}
  /-- The row that is replaced cannot be read when its file is to go. -/
  unseen : Nat → Bool := fun _ => false
  /-- What the removal of the old file leaves of it; nobody is told. -/
  spared : Nat → Place → Bool := fun _ _ => false
  hitches : Nat → Option Hitch := fun _ => none
  /-- The row that is replaced cannot be read when it is to be written. -/
  unread : Nat → Option String := fun _ => none
  unfound : Nat → Option String := fun _ => none
  sparedTwin : Nat → Place → Bool := fun _ _ => false
  unwritable : Nat → Option String := fun _ => none
  /-- The dependencies cannot be written, and what is left of the table. -/
  unnoted : Nat → Option (String × List Dependency) := fun _ => none
  handBack : Except OperationError Unit := .ok ()
  now : Timestamp := 0

structure ServerFacts where
  id : Id
  loader : LoaderId := .fabric

def directoryOf : LoaderId → Text
  | .vanilla => "world/datapacks".toList
  | .paper | .folia | .purpur | .leaf | .velocity => "plugins".toList
  | .fabric | .quilt | .neoForge | .forge => "mods".toList

def byPath (items : Items) (server : Id) (path : Text) : Option ItemRow :=
  (items.list server).find? fun row =>
    row.filePath = basePath path ∨ row.filePath = basePath path ++ disabled

section Run

variable (env : Surroundings) (facts : ServerFacts) (source : ContentSourceKind)

abbrev Work := Effect State OperationError

/-- `install::fetch`, and the path that the file gets. -/
def prepared (n : Nat) (item : Wanted) : Except OperationError (Bytes × Text) :=
  let asked : Packs.Surroundings :=
    { sends := env.sends, sha1 := env.sha1, sha512 := env.sha512 }
  match (Packs.downloaded asked n item.file.url item.file.hashes).mapError download with
  | .error error => .error error
  | .ok bytes => match Paths.safeFileName item.file.filename with
    | none => .error (filesystem { text := "that file name cannot be used" })
    | some name => .ok (bytes, directoryOf facts.loader ++ '/' :: name)

/-- The file of the row that is replaced goes, unless it is where the new one comes. -/
def takeAwayOld (n : Nat) (replaces : Option Id) (relative : Text) (s : State) : State :=
  match replaces with
  | none => s
  | some previous => match s.items.one facts.id previous with
    | none => s
    | some old =>
      if env.unseen n ∨ old.filePath = relative then s
      else match resolveLeaf old.filePath with
        | .error _ => s
        | .ok full => s.cut full (env.spared n)

def place (n : Nat) (bytes : Bytes) (relative : Text) : Effect State IoError Unit := fun s =>
  match resolveLeaf relative with
  | .error fault => (.error { text := fault.message }, s)
  | .ok target =>
    if h : s.folder.Free target then
      match env.hitches n with
      | some (.parent error) => (.error error, s)
      | some (.clearing error spared) => (.error error, s.cut target spared)
      | some (.copying error none) => (.error error, s.cut target fun _ => false)
      | some (.copying error (some left)) => (.error error, s.put target left h)
      | some (.staged error) => (.error error, s.put target bytes h)
      | none => (.ok (), s.put target bytes h)
    else (.error notADirectory, s)

/-- The row that is known by the path or by its other spelling, whose file goes; or a new one. -/
def rowFor (n : Nat) (relative : Text) : Work ItemRow := fun s =>
  match env.unfound n with
  | some error => (.error (internal error), s)
  | none => match byPath s.items facts.id relative with
    | none =>
      (.ok (.fresh s.items.nextId facts.id relative (contentType facts.loader) env.now), s)
    | some row =>
      if row.filePath = relative then (.ok row, s)
      else (.ok (row.movedTo relative true), match resolveLeaf row.filePath with
        | .error _ => s
        | .ok full => s.cut full (env.sparedTwin n))

def subject (n : Nat) (replaces : Option Id) (relative : Text) : Work ItemRow := fun s =>
  match replaces with
  | none => rowFor env facts n relative s
  | some id => match env.unread n with
    | some error => (.error (internal error), s)
    | none => match s.items.one facts.id id with
      | some row => (.ok row, s)
      | none => rowFor env facts n relative s

def renewed (item : Wanted) (relative : Text) (row : ItemRow) : ItemRow :=
  let kind := (env.modrinth.cachedProject item.projectId).toOption.bind fun found =>
    (found.bind id).bind kindOf
  { row with
    filePath := relative
    fileName := fileNameOf relative
    enabled := true
    sizeBytes := item.file.size
    sourceKind := source
    projectId := some item.projectId
    versionId := some item.version.id
    sha512 := item.file.hashes.sha512.map String.ofList
    hasUpdate := false
    updateVersionId := none
    projectType := kind.getD row.projectType }

def upsert (n : Nat) (row : ItemRow) : Work Unit := fun s =>
  match env.unwritable n with
  | some error => (.error (internal error), s)
  | none => match s.items.upsert row with
    | .ok items => (.ok (), { s with items })
    | .error _ => (.error (internal "UNIQUE constraint failed"), s)

def setDependencies (n : Nat) (content : Id) (named : List (String × String)) : Work Unit :=
  fun s => match env.unnoted n with
  | some (error, left) => (.error (internal error), { s with dependencies := left })
  | none =>
    let others := s.dependencies.filter fun old => old.contentId ≠ content
    (.ok (), { s with dependencies := named.foldl (Packs.enterDependency content) others })

def writeRow (n : Nat) (item : Wanted) (relative : Text) : Work Unit :=
  subject env facts n item.replaces relative >>= fun row =>
    upsert env n (renewed env source item relative row) >>= fun _ =>
      setDependencies env n row.id item.version.named

def layOutOne (n : Nat) (item : Wanted) : Work Unit := fun s =>
  match prepared env facts n item with
  | .error error => (.error error, s)
  | .ok (bytes, relative) =>
    match place env n bytes relative (takeAwayOld env facts n item.replaces relative s) with
    | (.error error, s) => (.error (filesystem error), s)
    | (.ok (), s) => writeRow env facts source n item relative s

def layOut (wanted : List Wanted) : Work Unit :=
  Effect.lift env.workDir >>= fun _ =>
    Effect.sweep (layOutOne env facts source) 0 wanted >>= fun _ => Effect.lift env.handBack

end Run

section Touching

variable (env : Surroundings) (facts : ServerFacts)

def spares : Option Hitch → Place → Bool
  | some (.parent _), _ => true
  | some (.clearing _ spared), x => spared x
  | _, _ => false

def puts (bytes : Bytes) : Option Hitch → Option Bytes
  | some (.parent _) | some (.clearing _ _) => none
  | some (.copying _ left) => left
  | some (.staged _) | none => some bytes

/-- The old file of the row goes, and what is at the place with it. -/
def Clears (n : Nat) (row : ItemRow) (relative : Text) (x : Place) : Prop :=
  env.unseen n = false ∧ row.filePath ≠ relative ∧
    ∃ full, resolveLeaf row.filePath = .ok full ∧ full <+: x ∧ env.spared n x = false

/-- Once the old file is gone, the new one has a place to come to. -/
def Comes (n : Nat) (row : ItemRow) (relative : Text) (target : Place) (s : State) : Prop :=
  resolveLeaf relative = .ok target ∧
    ∀ above, above <+: target → above ≠ target →
      s.folder.file above = none ∨ Clears env n row relative above

/-- The file at the place is removed, or another one comes there. -/
def Touched (n : Nat) (row : ItemRow) (relative : Text) (bytes : Bytes) (s : State) (x : Place) :
    Prop :=
  s.folder.file x ≠ none ∧ Clears env n row relative x ∨
    ∃ target, Comes env n row relative target s ∧
      (s.folder.file x ≠ none ∧ target <+: x ∧ spares (env.hitches n) x = false ∨
        x = target ∧ puts bytes (env.hitches n) ≠ none)

variable {env facts} {n : Nat} {row : ItemRow} {relative : Text} {bytes : Bytes} {s : State}
  {x target : Place} {previous : Id}

variable (env n relative x) in
theorem takeAwayOld_file (h : s.items.one facts.id previous = some row) :
    (Clears env n row relative x ∧
        (takeAwayOld env facts n (some previous) relative s).folder.file x = none) ∨
      ¬ Clears env n row relative x ∧
        (takeAwayOld env facts n (some previous) relative s).folder.file x = s.folder.file x := by
  unfold takeAwayOld
  simp only [h]
  split
  next hkept =>
    refine .inr ⟨?_, rfl⟩
    rintro ⟨hseen, hpath, -⟩
    rcases hkept with hunseen | hsame
    · rw [hseen] at hunseen
      cases hunseen
    · exact hpath hsame
  next hgoes =>
    obtain ⟨hseen, hpath⟩ := not_or.mp hgoes
    split
    next fault hresolve =>
      refine .inr ⟨?_, rfl⟩
      rintro ⟨-, -, full, hfull, -⟩
      rw [hresolve] at hfull
      cases hfull
    next full hresolve =>
      rw [State.cut_file]
      split
      next hcut =>
        exact .inl ⟨⟨by simpa using hseen, hpath, full, hresolve, hcut.1, hcut.2⟩, rfl⟩
      next hcut =>
        refine .inr ⟨?_, rfl⟩
        rintro ⟨-, -, full', hfull', hbelow, hspared⟩
        obtain rfl := Except.ok.inj (hresolve.symm.trans hfull')
        exact hcut ⟨hbelow, hspared⟩

theorem takeAwayOld_items {replaces : Option Id} :
    (takeAwayOld env facts n replaces relative s).items = s.items ∧
      (takeAwayOld env facts n replaces relative s).nextInode = s.nextInode := by
  unfold takeAwayOld
  split
  · exact ⟨rfl, rfl⟩
  split
  · exact ⟨rfl, rfl⟩
  split
  · exact ⟨rfl, rfl⟩
  · split
    · exact ⟨rfl, rfl⟩
    · exact ⟨rfl, rfl⟩

theorem comes_iff (h : s.items.one facts.id previous = some row) :
    Comes env n row relative target s ↔ resolveLeaf relative = .ok target ∧
      (takeAwayOld env facts n (some previous) relative s).folder.Free target := by
  apply and_congr_right
  intro _
  constructor
  · intro hroom above habove hne
    rcases takeAwayOld_file env n relative above h with
      ⟨-, hgone⟩ | ⟨hkept, hsame⟩
    · exact hgone
    · rw [hsame]
      exact (hroom above ((List.mem_inits above target).mp habove) hne).resolve_right hkept
  · intro hfree above habove hne
    have hnone := hfree above ((List.mem_inits above target).mpr habove) hne
    rcases takeAwayOld_file env n relative above h with
      ⟨hclears, -⟩ | ⟨-, hsame⟩
    · exact .inr hclears
    · exact .inl (hsame.symm.trans hnone)

theorem place_items : (place env n bytes relative s).2.items = s.items := by
  unfold place
  split
  · rfl
  · split
    · split <;> rfl
    · rfl

theorem place_file (hresolve : resolveLeaf relative = .ok target) (hfree : s.folder.Free target) :
    (place env n bytes relative s).2.folder.file x =
      match puts bytes (env.hitches n) with
      | some body =>
        if x = target then some ⟨s.nextInode, body⟩
        else if target <+: x then none else s.folder.file x
      | none =>
        if target <+: x ∧ spares (env.hitches n) x = false then none else s.folder.file x := by
  unfold place
  simp only [hresolve, dif_pos hfree]
  cases env.hitches n with
  | none => rfl
  | some hitch =>
    cases hitch with
    | parent error => simp [puts, spares]
    | clearing error spared => rfl
    | copying error left =>
      cases left with
      | none => rfl
      | some left => rfl
    | staged error => rfl

variable (env n bytes) in
theorem place_nowhere (h : ∀ target, resolveLeaf relative = .ok target → ¬ s.folder.Free target) :
    ∃ error, place env n bytes relative s = (.error error, s) := by
  unfold place
  split
  next fault hresolve => exact ⟨_, rfl⟩
  next target hresolve =>
    rw [dif_neg (h target hresolve)]
    exact ⟨_, rfl⟩

theorem puts_spares {hitch : Option Hitch} {body : Bytes} (h : puts bytes hitch = some body) :
    spares hitch x = false := by
  cases hitch with
  | none => rfl
  | some hitch => cases hitch <;> first | rfl | cases h

theorem touched_of (h : Comes env n row relative target s) :
    Touched env n row relative bytes s x ↔ s.folder.file x ≠ none ∧ Clears env n row relative x ∨
      (s.folder.file x ≠ none ∧ target <+: x ∧ spares (env.hitches n) x = false ∨
        x = target ∧ puts bytes (env.hitches n) ≠ none) := by
  apply or_congr_right
  constructor
  · rintro ⟨target', hcomes, htouched⟩
    obtain rfl := Except.ok.inj (h.1.symm.trans hcomes.1)
    exact htouched
  · exact fun htouched => ⟨target, h, htouched⟩

theorem touched_nowhere (h : ∀ target, ¬ Comes env n row relative target s) :
    Touched env n row relative bytes s x ↔
      s.folder.file x ≠ none ∧ Clears env n row relative x := by
  constructor
  · rintro (hclears | ⟨target, hcomes, -⟩)
    · exact hclears
    · exact absurd hcomes (h target)
  · exact .inl

variable (env n relative x) in
theorem takeAwayOld_kept (h : s.items.one facts.id previous = some row) :
    (takeAwayOld env facts n (some previous) relative s).folder.file x = s.folder.file x ↔
      ¬ (s.folder.file x ≠ none ∧ Clears env n row relative x) := by
  rcases takeAwayOld_file env n relative x h with
    ⟨hclears, hgone⟩ | ⟨hkept, hsame⟩
  · rw [hgone]
    constructor
    · rintro hnone ⟨hsome, -⟩
      exact hsome hnone.symm
    · intro hfree
      by_contra hsome
      exact hfree ⟨Ne.symm hsome, hclears⟩
  · simp [hsame, hkept]

theorem place_kept (h : s.items.one facts.id previous = some row) :
    (place env n bytes relative
        (takeAwayOld env facts n (some previous) relative s)).2.folder.file x =
      s.folder.file x ↔ ¬ Touched env n row relative bytes s x := by
  by_cases hroom : ∃ target, Comes env n row relative target s
  · obtain ⟨target, hcomes⟩ := hroom
    obtain ⟨hresolve, hfree⟩ := (comes_iff h).mp hcomes
    rw [touched_of hcomes, place_file hresolve hfree]
    have hkept := takeAwayOld_kept env n relative x h
    cases hputs : puts bytes (env.hitches n) with
    | some body =>
      have hspares : spares (env.hitches n) x = false := puts_spares hputs
      dsimp only
      by_cases hself : x = target
      · have hfresh : some ⟨s.nextInode, body⟩ ≠ s.folder.file x := by
          intro hsame
          exact absurd (s.drawn x _ hsame.symm) (Nat.lt_irrefl _)
        simp [hself ▸ hfresh, hself, takeAwayOld_items.2]
      by_cases hbelow : target <+: x
      · rw [if_neg hself, if_pos hbelow]
        simp only [hbelow, hspares]
        constructor
        · intro hnone
          simp [← hnone, hself]
        · intro hnot
          by_contra hsome
          exact hnot (.inr (.inl ⟨Ne.symm hsome, trivial, trivial⟩))
      · rw [if_neg hself, if_neg hbelow, hkept]
        simp [hself, hbelow]
    | none =>
      dsimp only
      by_cases hgoes : target <+: x ∧ spares (env.hitches n) x = false
      · rw [if_pos hgoes]
        constructor
        · intro hnone
          simp [← hnone]
        · intro hnot
          by_contra hsome
          exact hnot (.inr (.inl ⟨Ne.symm hsome, hgoes.1, hgoes.2⟩))
      · rw [if_neg hgoes, hkept]
        simp only [hgoes]
        simp
  · have hnowhere : ∀ target, ¬ Comes env n row relative target s :=
      fun target hcomes => hroom ⟨target, hcomes⟩
    rw [touched_nowhere hnowhere]
    obtain ⟨error, hplace⟩ := place_nowhere env n bytes
      fun target hresolve hfree => hnowhere target ((comes_iff h).mpr ⟨hresolve, hfree⟩)
    rw [hplace]
    exact takeAwayOld_kept env n relative x h

end Touching

section Atomicity

variable (env : Surroundings) (facts : ServerFacts) (source : ContentSourceKind)

def fileAt (s : State) (path : Text) : Option Stored :=
  match resolveLeaf path with
  | .ok place => s.folder.file place
  | .error _ => none

def held (s : State) (id : Id) : Option (ItemRow × Option Stored) :=
  (s.items.one facts.id id).map fun row => (row, fileAt s row.filePath)

def directoryOfPath (path : Text) : Text :=
  match rsplitOnce '/' path with
  | some (directory, _) => directory
  | none => []

/-- The new file and the new row are there. -/
def InPlace (n : Nat) (item : Wanted) (row : ItemRow) (t : State) : Prop :=
  ∃ bytes relative file, prepared env facts n item = .ok (bytes, relative) ∧
    held facts t row.id = some (renewed env source item relative row, some file) ∧
      file.body = bytes

/-- What an update does, be it to the end or not: the items of the list that it is not about stay as
they are; its own is as it was or as it is to be; and where the update succeeds, it is as it is to
be, in its directory and as enabled as before. -/
structure Atomic (ids : List Id) (n : Nat) (item : Wanted) (row : ItemRow) (s : State) : Prop where
  others : ∀ id ∈ ids, id ≠ row.id →
    held facts (layOutOne env facts source n item s).2 id = held facts s id
  failed : ∀ error, (layOutOne env facts source n item s).1 = .error error →
    held facts (layOutOne env facts source n item s).2 row.id = held facts s row.id ∨
      InPlace env facts source n item row (layOutOne env facts source n item s).2
  succeeded : (layOutOne env facts source n item s).1 = .ok () →
    InPlace env facts source n item row (layOutOne env facts source n item s).2 ∧
      ∃ after, (layOutOne env facts source n item s).2.items.one facts.id row.id = some after ∧
        directoryOfPath after.filePath = directoryOfPath row.filePath ∧
          after.enabled = row.enabled

/-- Nothing fails from the placing to the row. -/
def Written (n : Nat) (item : Wanted) (row : ItemRow) (relative : Text) (s : State) : Prop :=
  (∃ target, Comes env n row relative target s) ∧ env.hitches n = none ∧ env.unread n = none ∧
    env.unwritable n = none ∧
      ¬ Items.Clashes s.items.rows (renewed env source item relative row)

/-- Where the download and the name are good, no other item of the list has its file where this one
clears or puts one; an item that is written is enabled, and in the directory that the loader has;
and one that is not written keeps its file, or says already what was to be written, with the file
whole. -/
def Careful (ids : List Id) (n : Nat) (item : Wanted) (row : ItemRow) (s : State) : Prop :=
  ∀ bytes relative, prepared env facts n item = .ok (bytes, relative) →
    (∀ other ∈ s.items.rows, other.serverId = facts.id → other.id ∈ ids → other.id ≠ row.id →
      ∀ x, resolveLeaf other.filePath = .ok x → ¬ Touched env n row relative bytes s x) ∧
    (Written env source n item row relative s → env.unnoted n = none →
      directoryOfPath row.filePath = directoryOf facts.loader ∧ row.enabled = true) ∧
    (¬ Written env source n item row relative s →
      (∀ x, resolveLeaf row.filePath = .ok x → ¬ Touched env n row relative bytes s x) ∨
        renewed env source item relative row = row ∧
          (∃ target, Comes env n row relative target s) ∧
            puts bytes (env.hitches n) = some bytes)

variable {env facts source} {n : Nat} {item : Wanted} {row : ItemRow} {relative : Text}
  {bytes : Bytes} {s t : State} {id : Id} {ids : List Id} {error : OperationError}

theorem mem_of_trim {text : Text} {letter : Char} (h : letter ∈ Settings.trim text) :
    letter ∈ text := by
  unfold Settings.trim at h
  have hkept := (List.dropWhile_suffix _).subset (List.mem_reverse.mp h)
  exact (List.dropWhile_suffix _).subset (List.mem_reverse.mp hkept)

theorem safeFileName_names {raw name : Text} (h : Paths.safeFileName raw = some name) :
    '/' ∉ name := by
  unfold Paths.safeFileName at h
  simp only [Option.ite_none_right_eq_some] at h
  obtain ⟨-, hname⟩ := h
  rw [← Option.some.inj hname]
  intro hmem
  have hpassed := List.mem_takeWhile_imp (List.mem_reverse.mp (mem_of_trim hmem))
  simp at hpassed

theorem prepared_ok (h : prepared env facts n item = .ok (bytes, relative)) :
    directoryOfPath relative = directoryOf facts.loader := by
  unfold prepared at h
  dsimp only at h
  split at h
  · cases h
  split at h
  · cases h
  next name hname =>
    cases h
    rw [directoryOfPath, rsplitOnce_append (safeFileName_names hname)]

theorem written_renewed {items : Items} (h : items.one facts.id row.id = some row) :
    items.written (renewed env source item relative row) =
      renewed env source item relative row := by
  obtain ⟨hmem, -, -⟩ := Items.one_eq_some.mp h
  unfold Items.written
  split
  next old hold =>
    have hfound := List.find?_some hold
    have hid : old.id = row.id := of_decide_eq_true hfound
    obtain rfl := Items.same_id (List.mem_of_find?_eq_some hold) hmem hid
    rfl
  · rfl

theorem one_upsert {items after : Items} (hone : items.one facts.id row.id = some row)
    (h : items.upsert (renewed env source item relative row) = .ok after) :
    after.one facts.id id =
      if id = row.id then some (renewed env source item relative row)
      else items.one facts.id id := by
  obtain ⟨hmem, hserver, -⟩ := Items.one_eq_some.mp hone
  apply Option.ext
  intro found
  rw [Items.one_eq_some, Items.mem_upsert h, written_renewed hone]
  split
  next hself =>
    subst hself
    constructor
    · rintro ⟨rfl | ⟨-, hne⟩, -, hid⟩
      · rfl
      · exact absurd hid hne
    · intro hfound
      cases hfound
      exact ⟨.inl rfl, hserver, rfl⟩
  next hother =>
    rw [Items.one_eq_some]
    constructor
    · rintro ⟨rfl | ⟨hold, -⟩, hfound, hid⟩
      · exact absurd hid.symm hother
      · exact ⟨hold, hfound, hid⟩
    · rintro ⟨hold, hfound, hid⟩
      exact ⟨.inr ⟨hold, fun he => hother (hid.symm.trans he)⟩, hfound, hid⟩

variable (env source n relative) in
theorem writeRow_cases (hitem : item.replaces = some row.id)
    (hone : s.items.one facts.id row.id = some row) :
    ((env.unread n = none ∧ env.unwritable n = none ∧
        ¬ Items.Clashes s.items.rows (renewed env source item relative row)) ∧
      ∃ items, s.items.upsert (renewed env source item relative row) = .ok items ∧
        (writeRow env facts source n item relative s).2.items = items ∧
          (writeRow env facts source n item relative s).2.folder = s.folder ∧
            ((writeRow env facts source n item relative s).1 = .ok () ↔ env.unnoted n = none)) ∨
    ¬ (env.unread n = none ∧ env.unwritable n = none ∧
        ¬ Items.Clashes s.items.rows (renewed env source item relative row)) ∧
      ∃ error, writeRow env facts source n item relative s = (.error error, s) := by
  have hwrite : writeRow env facts source n item relative s =
      Effect.bind (subject env facts n item.replaces relative) (fun row =>
        Effect.bind (upsert env n (renewed env source item relative row)) fun _ =>
          setDependencies env n row.id item.version.named) s := rfl
  cases hunread : env.unread n with
  | some error =>
    refine .inr ⟨by simp, internal error, ?_⟩
    rw [hwrite, Effect.bind, hitem]
    simp only [subject, hunread]
  | none =>
    have hsubject : subject env facts n item.replaces relative s = (.ok row, s) := by
      rw [hitem]
      simp only [subject, hunread, hone]
    rw [hwrite, Effect.bind, hsubject]
    dsimp only
    rw [Effect.bind]
    cases hunwritable : env.unwritable n with
    | some error =>
      refine .inr ⟨by simp, internal error, ?_⟩
      simp only [upsert, hunwritable]
    | none =>
      by_cases hclash : Items.Clashes s.items.rows (renewed env source item relative row)
      · refine .inr ⟨by simp [hclash], internal "UNIQUE constraint failed", ?_⟩
        have hupsert : s.items.upsert (renewed env source item relative row) = .error .unique := by
          rw [Items.upsert, written_renewed hone, dif_pos hclash]
        simp only [upsert, hunwritable, hupsert]
      obtain ⟨items, hupsert⟩ := Items.upsert_ok
        (show ¬ Items.Clashes s.items.rows
            (s.items.written (renewed env source item relative row)) by
          rwa [written_renewed hone])
      refine .inl ⟨⟨rfl, rfl, hclash⟩, items, hupsert, ?_⟩
      simp only [upsert, hunwritable, hupsert]
      unfold setDependencies
      cases hunnoted : env.unnoted n with
      | some left => exact ⟨rfl, rfl, by simp⟩
      | none => exact ⟨rfl, rfl, by simp⟩

variable (env n bytes relative) in
theorem place_ok_iff (hone : s.items.one facts.id row.id = some row) :
    (place env n bytes relative (takeAwayOld env facts n (some row.id) relative s)).1 = .ok () ↔
      (∃ target, Comes env n row relative target s) ∧ env.hitches n = none := by
  by_cases hroom : ∃ target, Comes env n row relative target s
  · obtain ⟨target, hcomes⟩ := hroom
    obtain ⟨hresolve, hfree⟩ := (comes_iff hone).mp hcomes
    have hgiven : (∃ target, Comes env n row relative target s) := ⟨target, hcomes⟩
    simp only [hgiven, true_and]
    unfold place
    simp only [hresolve, dif_pos hfree]
    cases env.hitches n with
    | none => simp
    | some hitch =>
      cases hitch with
      | copying error left => cases left <;> simp
      | _ => simp
  · obtain ⟨error, hplace⟩ := place_nowhere env n bytes fun target hresolve hfree =>
      hroom ⟨target, (comes_iff hone).mpr ⟨hresolve, hfree⟩⟩
    simp [hplace, hroom]

variable (source) in
theorem layOutOne_cases (hitem : item.replaces = some row.id)
    (hone : s.items.one facts.id row.id = some row)
    (hprepared : prepared env facts n item = .ok (bytes, relative)) :
    (layOutOne env facts source n item s).2.folder = (place env n bytes relative
        (takeAwayOld env facts n (some row.id) relative s)).2.folder ∧
      (Written env source n item row relative s ∧
          (∃ items, s.items.upsert (renewed env source item relative row) = .ok items ∧
            (layOutOne env facts source n item s).2.items = items) ∧
          ((layOutOne env facts source n item s).1 = .ok () ↔ env.unnoted n = none) ∨
        ¬ Written env source n item row relative s ∧
          (layOutOne env facts source n item s).2.items = s.items ∧
            ∃ error, (layOutOne env facts source n item s).1 = .error error) := by
  have hok := place_ok_iff env n relative bytes hone
  have hitems : (place env n bytes relative
      (takeAwayOld env facts n (some row.id) relative s)).2.items = s.items :=
    place_items.trans takeAwayOld_items.1
  unfold layOutOne
  simp only [hprepared, hitem]
  rcases hplace : place env n bytes relative
      (takeAwayOld env facts n (some row.id) relative s) with ⟨error | done, u⟩
  · rw [hplace] at hok hitems
    refine ⟨rfl, .inr ⟨?_, hitems, _, rfl⟩⟩
    rintro ⟨hcomes, hhitch, -⟩
    cases hok.mpr ⟨hcomes, hhitch⟩
  rw [hplace] at hok hitems
  obtain ⟨hcomes, hhitch⟩ := hok.mp rfl
  have hone' : u.items.one facts.id row.id = some row := by rw [hitems, hone]
  have hwritten : Written env source n item row relative s ↔
      env.unread n = none ∧ env.unwritable n = none ∧
        ¬ Items.Clashes s.items.rows (renewed env source item relative row) :=
    ⟨fun h => h.2.2, fun h => ⟨hcomes, hhitch, h⟩⟩
  dsimp only
  rcases writeRow_cases env source n relative hitem hone' with
    ⟨hfine, items, hupsert, hafter, hfolder, hresult⟩ | ⟨hnot, error, hend⟩
  · rw [hitems] at hfine hupsert
    exact ⟨hfolder, .inl ⟨hwritten.mpr hfine, ⟨items, hupsert, hafter⟩, hresult⟩⟩
  · rw [hitems] at hnot
    rw [hend]
    exact ⟨rfl, .inr ⟨fun h => hnot (hwritten.mp h), hitems, error, rfl⟩⟩

theorem held_of {found : ItemRow} (h : s.items.one facts.id id = some found) :
    held facts s id = some (found, fileAt s found.filePath) := by
  rw [held, h, Option.map_some]

theorem fileAt_kept {path : Text}
    (hfolder : ∀ x, t.folder.file x = s.folder.file x ↔ ¬ Touched env n row relative bytes s x) :
    fileAt t path = fileAt s path ↔
      ∀ x, resolveLeaf path = .ok x → ¬ Touched env n row relative bytes s x := by
  unfold fileAt
  cases resolveLeaf path with
  | error fault => simp
  | ok x => simp [hfolder]

theorem others_kept
    (hrows : ∀ id, id ≠ row.id → t.items.one facts.id id = s.items.one facts.id id)
    (hfolder : ∀ x, t.folder.file x = s.folder.file x ↔ ¬ Touched env n row relative bytes s x) :
    (∀ id ∈ ids, id ≠ row.id → held facts t id = held facts s id) ↔
      ∀ other ∈ s.items.rows, other.serverId = facts.id → other.id ∈ ids → other.id ≠ row.id →
        ∀ x, resolveLeaf other.filePath = .ok x → ¬ Touched env n row relative bytes s x := by
  constructor
  · intro h other hmem hserver hid hne
    have hone : s.items.one facts.id other.id = some other :=
      Items.one_eq_some.mpr ⟨hmem, hserver, rfl⟩
    have hheld := h other.id hid hne
    rw [held_of hone, held_of ((hrows _ hne).trans hone)] at hheld
    exact (fileAt_kept hfolder).mp (Prod.mk.inj (Option.some.inj hheld)).2
  · intro h id hid hne
    cases hone : s.items.one facts.id id with
    | none => rw [held, held, hrows id hne, hone, Option.map_none, Option.map_none]
    | some other =>
      obtain ⟨hmem, hserver, rfl⟩ := Items.one_eq_some.mp hone
      rw [held_of hone, held_of ((hrows _ hne).trans hone),
        (fileAt_kept hfolder).mpr (h other hmem hserver hid hne)]

theorem fileAt_put {body : Bytes} {target : Place} (hone : s.items.one facts.id row.id = some row)
    (hcomes : Comes env n row relative target s) (hputs : puts bytes (env.hitches n) = some body)
    (hfolder : t.folder = (place env n bytes relative
      (takeAwayOld env facts n (some row.id) relative s)).2.folder) :
    ∃ inode, fileAt t relative = some ⟨inode, body⟩ := by
  obtain ⟨hresolve, hfree⟩ := (comes_iff hone).mp hcomes
  refine ⟨(takeAwayOld env facts n (some row.id) relative s).nextInode, ?_⟩
  rw [fileAt, hresolve]
  dsimp only
  rw [hfolder, place_file hresolve hfree, hputs]
  exact if_pos rfl

theorem unwritten_inPlace (hone : s.items.one facts.id row.id = some row)
    (hprepared : prepared env facts n item = .ok (bytes, relative))
    (hafter : t.items.one facts.id row.id = some row)
    (hfolder : t.folder = (place env n bytes relative
      (takeAwayOld env facts n (some row.id) relative s)).2.folder)
    (htouched : ∃ x, resolveLeaf row.filePath = .ok x ∧ Touched env n row relative bytes s x) :
    InPlace env facts source n item row t ↔ renewed env source item relative row = row ∧
      (∃ target, Comes env n row relative target s) ∧
        puts bytes (env.hitches n) = some bytes := by
  constructor
  · rintro ⟨bytes', relative', file, hprepared', hheld, hbody⟩
    obtain ⟨rfl, rfl⟩ := Prod.mk.inj (Except.ok.inj (hprepared.symm.trans hprepared'))
    rw [held_of hafter] at hheld
    obtain ⟨hrow, hfile⟩ := Prod.mk.inj (Option.some.inj hheld)
    have hpath : row.filePath = relative := congrArg ItemRow.filePath hrow
    obtain ⟨x, hx, hclears | ⟨target, hcomes, hcoming⟩⟩ := htouched
    · exact absurd hpath hclears.2.2.1
    have hself : x = target := by
      rw [hpath] at hx
      exact Except.ok.inj (hx.symm.trans hcomes.1)
    subst hself
    refine ⟨hrow.symm, ⟨x, hcomes⟩, ?_⟩
    cases hputs : puts bytes (env.hitches n) with
    | some body =>
      obtain ⟨inode, hput⟩ := fileAt_put hone hcomes hputs hfolder
      rw [hpath, hput] at hfile
      rw [← hbody, ← Option.some.inj hfile]
    | none =>
      obtain ⟨hresolve, hfree⟩ := (comes_iff hone).mp hcomes
      have hgoes : spares (env.hitches n) x = false := by
        rcases hcoming with ⟨-, -, hspares⟩ | ⟨-, hne⟩
        · exact hspares
        · exact absurd hputs hne
      have hgone : fileAt t relative = none := by
        rw [fileAt, hresolve]
        dsimp only
        rw [hfolder, place_file hresolve hfree, hputs]
        exact if_pos ⟨List.prefix_rfl, hgoes⟩
      rw [hpath, hgone] at hfile
      cases hfile
  · rintro ⟨hrow, ⟨target, hcomes⟩, hputs⟩
    obtain ⟨inode, hput⟩ := fileAt_put hone hcomes hputs hfolder
    have hpath : row.filePath = relative := (congrArg ItemRow.filePath hrow).symm
    refine ⟨bytes, relative, ⟨inode, bytes⟩, hprepared, ?_, rfl⟩
    rw [held_of hafter, hrow, hpath, hput]

theorem layOutOne_atomic (hitem : item.replaces = some row.id)
    (hone : s.items.one facts.id row.id = some row) :
    Atomic env facts source ids n item row s ↔ Careful env facts source ids n item row s := by
  rcases hprepared : prepared env facts n item with error | ⟨bytes, relative⟩
  · have hend : layOutOne env facts source n item s = (.error error, s) := by
      simp only [layOutOne, hprepared]
    constructor
    · intro _ bytes relative hok
      rw [hprepared] at hok
      cases hok
    · intro _
      constructor
      · intro id _ _
        rw [hend]
      · intro _ _
        exact .inl (by rw [hend])
      · intro hok
        rw [hend] at hok
        cases hok
  obtain ⟨hfolder, hrest⟩ := layOutOne_cases source hitem hone hprepared
  have hkept : ∀ x, (layOutOne env facts source n item s).2.folder.file x = s.folder.file x ↔
      ¬ Touched env n row relative bytes s x := by
    intro x
    rw [hfolder]
    exact place_kept hone
  have hcareful : Careful env facts source ids n item row s ↔ _ :=
    ⟨fun h => h bytes relative hprepared, fun h bytes' relative' h' => by
      obtain ⟨rfl, rfl⟩ := Prod.mk.inj (Except.ok.inj (hprepared.symm.trans h'))
      exact h⟩
  rw [hcareful]
  rcases hrest with ⟨hwritten, ⟨items, hupsert, hitems⟩, hresult⟩ | ⟨hnot, hitems, error, herror⟩
  · have hrows : ∀ id, id ≠ row.id →
        (layOutOne env facts source n item s).2.items.one facts.id id =
          s.items.one facts.id id := by
      intro id hid
      rw [hitems, one_upsert hone hupsert, if_neg hid]
    have hafter : (layOutOne env facts source n item s).2.items.one facts.id row.id =
        some (renewed env source item relative row) := by
      rw [hitems, one_upsert hone hupsert, if_pos rfl]
    have ⟨⟨target, hcomes⟩, hhitch, _⟩ := hwritten
    have hputs : puts bytes (env.hitches n) = some bytes := by rw [hhitch, puts]
    obtain ⟨inode, hput⟩ := fileAt_put hone hcomes hputs hfolder
    have hplaced : InPlace env facts source n item row
        (layOutOne env facts source n item s).2 := by
      refine ⟨bytes, relative, ⟨inode, bytes⟩, hprepared, ?_, rfl⟩
      rw [held_of hafter]
      exact congrArg (fun file => some (renewed env source item relative row, file)) hput
    have hdirectory := prepared_ok hprepared
    constructor
    · intro h
      refine ⟨(others_kept hrows hkept).mp h.others, ?_, fun hnot => absurd hwritten hnot⟩
      intro _ hnoted
      obtain ⟨-, after, hone', hsame, henabled⟩ := h.succeeded (hresult.mpr hnoted)
      obtain rfl := Option.some.inj (hafter.symm.trans hone')
      exact ⟨hsame.symm.trans hdirectory, henabled.symm⟩
    · rintro ⟨hothers, hsuccess, -⟩
      constructor
      · exact (others_kept hrows hkept).mpr hothers
      · exact fun _ _ => .inr hplaced
      · intro hok
        obtain ⟨hsame, henabled⟩ := hsuccess hwritten (hresult.mp hok)
        exact ⟨hplaced, _, hafter, hdirectory.trans hsame.symm, henabled.symm⟩
  · have hrows : ∀ id, id ≠ row.id →
        (layOutOne env facts source n item s).2.items.one facts.id id =
          s.items.one facts.id id := by
      intro id _
      rw [hitems]
    have hafter : (layOutOne env facts source n item s).2.items.one facts.id row.id =
        some row := by rw [hitems, hone]
    have hsame : held facts (layOutOne env facts source n item s).2 row.id = held facts s row.id ↔
        ∀ x, resolveLeaf row.filePath = .ok x → ¬ Touched env n row relative bytes s x := by
      rw [held_of hafter, held_of hone, ← fileAt_kept hkept]
      constructor
      · exact fun h => (Prod.mk.inj (Option.some.inj h)).2
      · exact fun h => congrArg (fun file => some (row, file)) h
    have hfailed : (held facts (layOutOne env facts source n item s).2 row.id =
          held facts s row.id ∨
        InPlace env facts source n item row (layOutOne env facts source n item s).2) ↔
        (∀ x, resolveLeaf row.filePath = .ok x → ¬ Touched env n row relative bytes s x) ∨
          renewed env source item relative row = row ∧
            (∃ target, Comes env n row relative target s) ∧
              puts bytes (env.hitches n) = some bytes := by
      rw [hsame]
      by_cases htouched : ∃ x, resolveLeaf row.filePath = .ok x ∧
          Touched env n row relative bytes s x
      · apply or_congr_right
        exact unwritten_inPlace hone hprepared hafter hfolder htouched
      · have huntouched : ∀ x, resolveLeaf row.filePath = .ok x →
            ¬ Touched env n row relative bytes s x := fun x hx hx' => htouched ⟨x, hx, hx'⟩
        exact ⟨fun _ => .inl huntouched, fun _ => .inl huntouched⟩
    constructor
    · intro h
      refine ⟨(others_kept hrows hkept).mp h.others, fun hwritten => absurd hwritten hnot, ?_⟩
      exact fun _ => hfailed.mp (h.failed error herror)
    · rintro ⟨hothers, -, hunwritten⟩
      constructor
      · exact (others_kept hrows hkept).mpr hothers
      · exact fun _ _ => hfailed.mpr (hunwritten hnot)
      · intro hok
        rw [herror] at hok
        cases hok

variable (env facts source s)

/-- The updates of a list are atomic, one after the other, exactly where each is done with care. -/
theorem updates_are_atomic_iff (wanted : List Wanted) :
    (∀ before item t, Effect.Reaches (layOutOne env facts source) 0 s wanted before item t →
      ∀ row, item.replaces = some row.id → t.items.one facts.id row.id = some row →
        Atomic env facts source (wanted.filterMap Wanted.replaces) before.length item row t) ↔
    ∀ before item t, Effect.Reaches (layOutOne env facts source) 0 s wanted before item t →
      ∀ row, item.replaces = some row.id → t.items.one facts.id row.id = some row →
        Careful env facts source (wanted.filterMap Wanted.replaces) before.length item row t := by
  constructor
  · intro h before item t hreaches row hitem hone
    exact (layOutOne_atomic hitem hone).mp (h before item t hreaches row hitem hone)
  · intro h before item t hreaches row hitem hone
    exact (layOutOne_atomic hitem hone).mpr (h before item t hreaches row hitem hone)

end Atomicity

def full : Surroundings where
  sends _ _ := .ok [2]
  hitches _ := some (.parent { full := true, text := "No space left on device (os error 28)" })

def shinyItems : Items where
  rows := [.fresh 0 0 "mods/shiny-1.0.jar".toList .mod 0]
  nextId := 1

def shinyServer : State :=
  State.put { items := shinyItems } ["mods".toList, "shiny-1.0.jar".toList] [1] fun _ _ _ => rfl

def shinier : Wanted where
  projectId := "MOD"
  version := { id := "v2" }
  file := { filename := "shiny-2.0.jar".toList }
  reason := .requested
  replaces := some 0

theorem update_loses_file : ¬ Atomic full ⟨0, .fabric⟩ .serverProject [0] 0 shinier
    (.fresh 0 0 "mods/shiny-1.0.jar".toList .mod 0) shinyServer := by
  intro hatomic
  have hbefore : held ⟨0, .fabric⟩ shinyServer 0 =
      some (.fresh 0 0 "mods/shiny-1.0.jar".toList .mod 0, some ⟨0, [1]⟩) := by decide +kernel
  have hafter : held ⟨0, .fabric⟩
      (layOutOne full ⟨0, .fabric⟩ .serverProject 0 shinier shinyServer).2 0 =
        some (.fresh 0 0 "mods/shiny-1.0.jar".toList .mod 0, none) := by decide +kernel
  have hfails : (layOutOne full ⟨0, .fabric⟩ .serverProject 0 shinier shinyServer).1 =
      .error ⟨"no_space", "No space left on device (os error 28)", .filesystem⟩ := by
    decide +kernel
  rcases hatomic.failed _ hfails with hsame | ⟨bytes, relative, file, -, hplaced, -⟩
  · have hids : ItemRow.id (.fresh 0 0 "mods/shiny-1.0.jar".toList .mod 0) = 0 := rfl
    rw [hids, hbefore, hafter] at hsame
    cases hsame
  · have hids : ItemRow.id (.fresh 0 0 "mods/shiny-1.0.jar".toList .mod 0) = 0 := rfl
    rw [hids, hafter] at hplaced
    cases (Prod.mk.inj (Option.some.inj hplaced)).2

end CraftPanel.Content.LayingOut
