import CraftPanel.Content.Operations

/-!
# Content operations stay inside

A walk ends below the server's directory, and what is done after it is done by path: a directory on
this path that has become a link leads the call away. As long as no call meets one, everything the
operations do is done below the server's directory.
-/

namespace CraftPanel.Content.Paths

open Framework

/-- Nothing outside is touched, and what is outside stays as it was. -/
structure Confined (root : Path) (before : FileTree Text) (ground : Ground) : Prop where
  touched : ∀ p ∈ ground.touched, Below root p
  outside : ∀ p, ¬ Below root p → ground.tree.node p = before.node p

/-- No directory on the path of a call that changes something is a link by now; for the copy, what
it writes to is none either. -/
def Straight (root : Path) (ground : Ground) : Statement → Prop
  | .createDir path | .removeFile path | .removeDirAll path | .moveIn path =>
    ground.tree.Clear root path.tail
  | .copyIn path => ground.tree.Clear root path
  | .rename source destination =>
    ground.tree.Clear root source.tail ∧ ground.tree.Clear root destination.tail
  | .canonicalizeRoot | .canonicalize _ | .symlinkMetadata _ | .isDir _ => True

instance (root : Path) (ground : Ground) (statement : Statement) :
    Decidable (Straight root ground statement) := by
  cases statement <;> unfold Straight <;> infer_instance

def Names (root : Path) : Path → Prop
  | [] => False
  | _ :: parent => root <:+ parent

/-- Directories are made down to the path, and what is on the way to the root is there. -/
def Aimed (root : Path) : Statement → Prop
  | .createDir path => path <:+ root ∨ Names root path
  | .removeFile path | .removeDirAll path | .moveIn path | .copyIn path => Names root path
  | .rename source destination => Names root source ∧ Names root destination
  | .canonicalizeRoot | .canonicalize _ | .symlinkMetadata _ | .isDir _ => True

/-- Whatever it is told, the request aims well, and it ends in what `post` says. -/
def Aiming {α : Type} (root : Path) (x : Asking α) (post : α → Prop) : Prop :=
  ∀ history, x.Guarded (fun _ statement => Aimed root statement)
    (fun _ outcome => ∀ a, outcome = .ok a → post a) history

section Aiming

variable {α β : Type} {root path here : Path} {x : Asking α} {f : α → Asking β} {post : α → Prop}
  {last : β → Prop} {statement : Statement} {relative : Text}

theorem aiming_pure {a : α} (h : post a) : Aiming root (pure a : Asking α) post := by
  intro history b hb
  rwa [← Except.ok.inj hb]

theorem aiming_fail {fault : Fault} : Aiming root (.fail fault : Asking α) post := by
  intro history b hb
  cases hb

theorem aiming_ask (h : Aimed root statement) :
    Aiming root (ask statement) fun _ => True := fun _ => ⟨h, fun _ _ _ => trivial⟩

theorem Aiming.bind (h : Aiming root x post) (hf : ∀ a, post a → Aiming root (f a) last) :
    Aiming root (x >>= f) last := by
  intro history
  apply (h history).bind
  · intro later a ha
    exact hf a (ha a rfl) later
  · intro later e _ b hb
    cases hb

theorem aiming_tried {f : Except Fault (Answer statement) → Asking β}
    (h : Aimed root statement) (hf : ∀ answer, Aiming root (f answer) last) :
    Aiming root (tried statement >>= f) last := by
  intro history
  exact Request.guarded_attempt_bind.mpr ⟨h, fun answer => hf answer _⟩

theorem aiming_discard {x : Asking Unit} {post : Unit → Prop} (h : Aiming root x post) :
    Aiming root (discard x) fun _ => True := by
  intro history
  rw [discard, Request.guarded_bind, Request.guarded_attempt]
  exact (h history).mono (fun _ _ hpre => hpre) fun _ _ _ _ _ => trivial

theorem aiming_each {f : α → Asking Unit} {l : List α}
    (h : ∀ a, Aiming root (f a) fun _ => True) :
    Aiming root (Request.each f l) fun _ => True := by
  induction l with
  | nil => exact aiming_pure trivial
  | cons a l ih => exact (h a).bind fun _ _ => ih

theorem walk_aiming (rest : List Text) (h : root <:+ here) :
    Aiming root (walk root here rest) fun path => root <:+ path := by
  induction rest generalizing here with
  | nil => exact aiming_pure h
  | cons segment rest ih =>
    have hnext := ih (h.trans (List.suffix_cons segment here))
    refine aiming_tried (by trivial) ?_
    intro found
    match found with
    | .ok .link =>
      refine aiming_tried (by trivial) ?_
      intro target
      match target with
      | .ok target =>
        show Aiming root (if root <:+ target then walk root target rest else _) _
        split
        · rename_i hinside
          exact ih hinside
        · exact aiming_fail
      | .error _ => exact aiming_fail
    | .ok .directory => exact hnext
    | .ok .file => exact hnext
    | .error _ => exact hnext

theorem resolveLeaf_aiming (raw : Text) : Aiming root (resolveLeaf root raw) (Names root) := by
  unfold resolveLeaf
  split
  · exact aiming_fail
  split
  · exact aiming_fail
  refine aiming_tried (by trivial) ?_
  intro found
  match found with
  | .error _ => exact aiming_fail
  | .ok _ => exact (walk_aiming _ List.suffix_rfl).bind fun _ hpath => aiming_pure hpath

theorem remove_aiming (h : Names root path) : Aiming root (remove path) fun _ => True := by
  refine aiming_tried (by trivial) ?_
  intro found
  match found with
  | .ok .directory => exact aiming_ask h
  | .ok .file => exact aiming_ask h
  | .ok .link => exact aiming_ask h
  | .error (.io .notFound) => exact aiming_pure trivial
  | .error (.path _) => exact aiming_fail
  | .error (.io .notDirectory) | .error (.io .exists) | .error (.io .isDirectory)
  | .error (.io .tooManyLinks) | .error (.io .other) => exact aiming_fail

theorem clearDestination_aiming (h : Names root path) :
    Aiming root (clearDestination path) fun _ => True := by
  refine aiming_tried (by trivial) ?_
  intro found
  match found with
  | .ok _ => exact remove_aiming h
  | .error (.io .notFound) => exact aiming_pure trivial
  | .error (.path _) => exact aiming_fail
  | .error (.io .notDirectory) | .error (.io .exists) | .error (.io .isDirectory)
  | .error (.io .tooManyLinks) | .error (.io .other) => exact aiming_fail

theorem unlessDirectory_aiming {fault : Fault} :
    Aiming root (unlessDirectory path fault) fun _ => True := by
  refine aiming_tried (by trivial) ?_
  intro found
  match found with
  | .ok true => exact aiming_pure trivial
  | .ok false => exact aiming_fail
  | .error _ => exact aiming_fail

theorem createDirAll_aiming (h : path <:+ root ∨ root <:+ path) :
    Aiming root (createDirAll path) fun _ => True := by
  induction path with
  | nil => exact unlessDirectory_aiming
  | cons n parent ih =>
    have haimed : Aimed root (.createDir (n :: parent)) := by
      rcases h with h | h
      · exact .inl h
      · rcases List.suffix_cons_iff.mp h with rfl | h
        · exact .inl List.suffix_rfl
        · exact .inr h
    have hparent : parent <:+ root ∨ root <:+ parent := by
      rcases h with h | h
      · exact .inl ((List.suffix_cons n parent).trans h)
      · rcases List.suffix_cons_iff.mp h with rfl | h
        · exact .inl (List.suffix_cons n parent)
        · exact .inr h
    refine aiming_tried haimed ?_
    intro made
    match made with
    | .ok _ => exact aiming_pure trivial
    | .error (.io .notFound) =>
      apply (ih hparent).bind
      intro _ _
      refine aiming_tried haimed ?_
      intro again
      match again with
      | .ok _ => exact aiming_pure trivial
      | .error _ => exact unlessDirectory_aiming
    | .error (.path _) => exact unlessDirectory_aiming
    | .error (.io .notDirectory) | .error (.io .exists) | .error (.io .isDirectory)
    | .error (.io .tooManyLinks) | .error (.io .other) => exact unlessDirectory_aiming

theorem place_aiming (relative : Text) : Aiming root (place root relative) fun _ => True := by
  apply (resolveLeaf_aiming relative).bind
  intro target htarget
  have hparent : root <:+ target.tail := by
    cases target with
    | nil => exact absurd htarget id
    | cons n parent => exact htarget
  apply (createDirAll_aiming (.inr hparent)).bind
  intro _ _
  apply (clearDestination_aiming htarget).bind
  intro _ _
  refine aiming_tried htarget ?_
  intro moved
  match moved with
  | .ok _ => exact aiming_pure trivial
  | .error _ => exact aiming_ask htarget

theorem renameWithin_aiming (source destination : Text) :
    Aiming root (renameWithin root source destination) fun _ => True := by
  apply (resolveLeaf_aiming source).bind
  intro a ha
  apply (resolveLeaf_aiming destination).bind
  intro b hb
  exact aiming_ask ⟨ha, hb⟩

theorem takeAway_aiming (path : Text) : Aiming root (takeAway root path) fun _ => True := by
  apply (resolveLeaf_aiming path).bind
  intro full hfull
  have hlook : Aiming root (letThePanelIn full) fun _ => True := by
    refine aiming_tried (by trivial) ?_
    intro _
    exact aiming_pure trivial
  exact hlook.bind fun _ _ => remove_aiming hfull

theorem takeAwayOld_aiming (old : Option Text) :
    Aiming root (takeAwayOld root relative old) fun _ => True := by
  cases old with
  | none => exact aiming_pure trivial
  | some path =>
    show Aiming root (if path ≠ relative then _ else _) _
    split
    · exact aiming_discard (takeAway_aiming path)
    · exact aiming_pure trivial

theorem setEnabled_aiming (rows : List Text) (enabled : Bool) :
    Aiming root (setEnabled root rows enabled) fun _ => True :=
  aiming_each fun path => aiming_discard (renameWithin_aiming path _)

theorem delete_aiming (rows : List Text) : Aiming root (delete root rows) fun _ => True :=
  aiming_each fun path => aiming_discard (takeAway_aiming path)

theorem layOut_aiming (directory : Text) (wanted : List Coming) :
    Aiming root (layOut root directory wanted) fun _ => True := by
  apply aiming_each
  intro item
  unfold layOutOne
  split
  · exact aiming_fail
  · exact (takeAwayOld_aiming item.replaces).bind fun _ _ => place_aiming _

theorem body_aiming (call : Call) : Aiming root (call.body root) fun _ => True := by
  cases call with
  | setEnabled rows enabled => exact setEnabled_aiming rows enabled
  | delete rows => exact delete_aiming rows
  | adoptUploads directory uploads =>
    apply aiming_each
    intro upload
    split
    · apply aiming_discard
      exact (place_aiming _).bind fun _ _ => takeAwayOld_aiming upload.replaces
    · exact aiming_pure trivial
  | layOut directory wanted => exact layOut_aiming directory wanted
  | layOutPack extra files overrides gone =>
    apply (delete_aiming extra).bind
    intro _ _
    apply (aiming_each fun path => place_aiming path).bind
    intro _ _
    apply (aiming_each fun path => place_aiming path).bind
    intro _ _
    exact delete_aiming gone
  | moveGameVersion directory wanted off =>
    exact (layOut_aiming directory wanted).bind fun _ _ => setEnabled_aiming off false

end Aiming

/-- From one state of the tree to a later one the panel has only touched what is inside. -/
structure Kept (root : Path) (before after : Ground) : Prop where
  touched : ∀ p ∈ after.touched, p ∈ before.touched ∨ Below root p
  outside : ∀ p, ¬ Below root p → after.tree.node p = before.tree.node p

section Performing

variable {root path p a : Path} {n : Text} {ground : Ground} {statement : Statement}

theorem Kept.refl (root : Path) (ground : Ground) : Kept root ground ground :=
  ⟨fun _ hp => .inl hp, fun _ _ => rfl⟩

theorem Confined.kept {before : FileTree Text} {after : Ground} (h : Confined root before ground)
    (hkept : Kept root ground after) : Confined root before after where
  touched := by
    intro p hp
    rcases hkept.touched p hp with hold | hbelow
    · exact h.touched p hold
    · exact hbelow
  outside := fun p hp => (hkept.outside p hp).trans (h.outside p hp)

theorem kept_changed {tree : FileTree Text} {places : List Path}
    (hplaces : ∀ p ∈ places, Below root p)
    (htree : ∀ q, ¬ Below root q → tree.node q = ground.tree.node q) :
    Kept root ground (ground.changed tree places) where
  touched := by
    intro p hp
    rcases List.mem_append.mp hp with hnew | hold
    · exact .inr (hplaces p hnew)
    · exact .inl hold
  outside := htree

theorem cut_outside {tree : FileTree Text} (hp : p ≠ []) (h : Below root p) (q : Path)
    (hq : ¬ Below root q) : (tree.cut p hp).node q = tree.node q :=
  FileTree.cut_of_not_suffix fun hsuffix => hq (h.of_suffix hsuffix)

theorem move_outside {tree : FileTree Text} (ha : a ≠ []) (hp : tree.IsDirectory p)
    (hout : ¬ a <:+ n :: p) (h : Below root a) (hto : root <:+ p) (q : Path) (hq : ¬ Below root q) :
    (tree.move a n p ha hp hout).node q = tree.node q :=
  FileTree.move_of_not_suffix (fun hsuffix => hq ((below_cons.mpr hto).of_suffix hsuffix))
    fun hsuffix => hq (h.of_suffix hsuffix)

theorem put_outside {tree : FileTree Text} {node : Node Text} (hp : tree.IsDirectory p)
    (hn : ¬ tree.IsDirectory (n :: p)) (h : root <:+ p) (q : Path) (hq : ¬ Below root q) :
    (tree.put n p node hp hn).node q = tree.node q := by
  apply FileTree.put_ne
  rintro rfl
  exact hq (below_cons.mpr h)

theorem locate_names (hroot : ground.tree.IsDirectory root) (hnames : Names root path)
    (hclear : ground.tree.Clear root path.tail) (h : ground.tree.locate path = .ok p) :
    p = path ∧ Below root p := by
  cases path with
  | nil => exact absurd hnames id
  | cons n parent =>
    obtain ⟨rfl, -⟩ := FileTree.locate_clear hroot hnames hclear h
    exact ⟨rfl, below_cons.mpr hnames⟩

theorem kept_takeOut {whole : Bool} (hroot : ground.tree.IsDirectory root)
    (hnames : Names root path) (hclear : ground.tree.Clear root path.tail) :
    Kept root ground (ground.takeOut path whole).1 := by
  unfold Ground.takeOut
  split
  · exact .refl root ground
  rename_i p hlocate
  have hbelow := (locate_names hroot hnames hclear hlocate).2
  have hcut : ∀ hp : p ≠ [], Kept root ground (ground.changed (ground.tree.cut p hp) [p]) :=
    fun hp => kept_changed (by simpa using hbelow) (cut_outside hp hbelow)
  split
  · exact .refl root ground
  · split
    · exact hcut _
    · exact .refl root ground
  · split
    · exact hcut _
    · exact .refl root ground
  · split
    · exact hcut _
    · exact .refl root ground

theorem kept_bring (h : root <:+ p) : Kept root ground (ground.bring n p).1 := by
  unfold Ground.bring
  split
  · split
    · exact .refl root ground
    · exact kept_changed (by simpa using below_cons.mpr h) (put_outside _ _ h)
  · exact .refl root ground

theorem kept_moveIn (hroot : ground.tree.IsDirectory root) (hnames : Names root path)
    (hclear : ground.tree.Clear root path.tail) : Kept root ground (ground.moveIn path).1 := by
  unfold Ground.moveIn
  split
  · rename_i n p hlocate
    exact kept_bring (below_cons.mp (locate_names hroot hnames hclear hlocate).2)
  · exact .refl root ground
  · exact .refl root ground

theorem kept_copyIn (hroot : ground.tree.IsDirectory root) (hnames : Names root path)
    (hclear : ground.tree.Clear root path) : Kept root ground (ground.copyIn path).1 := by
  have htail : ground.tree.Clear root path.tail := hclear.suffix (List.tail_suffix path)
  unfold Ground.copyIn
  split
  · rename_i n p hlocate
    obtain ⟨rfl, hbelow⟩ := locate_names hroot hnames htail hlocate
    have hlink := (FileTree.clear_cons.mp hclear).1 hbelow
    split
    · rename_i m q hopened
      have hplace := (FileTree.opened_of_not_link hlink hopened).1
      rw [(List.cons.inj hplace).2]
      exact kept_bring (below_cons.mp hbelow)
    · exact .refl root ground
    · exact .refl root ground
  · exact .refl root ground
  · exact .refl root ground

theorem kept_renameTo {empty : Bool} (ha : Below root a) (hp : root <:+ p) :
    Kept root ground (ground.renameTo a n p empty).1 := by
  unfold Ground.renameTo
  split
  · exact .refl root ground
  split
  · exact .refl root ground
  split
  · split
    · exact .refl root ground
    split
    · exact .refl root ground
    · refine kept_changed ?_ (move_outside _ _ _ ha hp)
      simpa using ⟨ha, below_cons.mpr hp⟩
  · exact .refl root ground

theorem kept_rename {source destination : Path} {empty : Bool}
    (hroot : ground.tree.IsDirectory root) (hsource : Names root source)
    (hdestination : Names root destination) (hclear : ground.tree.Clear root source.tail)
    (hclear' : ground.tree.Clear root destination.tail) :
    Kept root ground (ground.rename source destination empty).1 := by
  unfold Ground.rename
  split
  · rename_i a n p ha hp
    exact kept_renameTo (locate_names hroot hsource hclear ha).2
      (below_cons.mp (locate_names hroot hdestination hclear' hp).2)
  all_goals exact .refl root ground

theorem kept_createDir (hroot : ground.tree.IsDirectory root)
    (haimed : path <:+ root ∨ Names root path) (hclear : ground.tree.Clear root path.tail) :
    Kept root ground (ground.createDir path).1 := by
  unfold Ground.createDir
  split
  · rename_i made tree hmkdir
    cases path with
    | nil => cases hmkdir
    | cons n parent =>
      obtain ⟨p, hparent, -, hnew, rfl, htree⟩ := FileTree.mkdir_ok hmkdir
      rcases haimed with haimed | haimed
      · -- What leads to the root is there already.
        have hthere : ground.tree.IsDirectory (n :: parent) := hroot.suffix haimed
        have hp := (hthere.suffix (List.suffix_cons n parent)).resolve
        rw [Except.ok.inj (hparent.symm.trans hp), hthere] at hnew
        cases hnew
      obtain rfl := FileTree.resolve_clear hroot haimed hclear hparent
      have hbelow : Below root (n :: p) := below_cons.mpr haimed
      refine kept_changed (by simpa using hbelow) ?_
      intro q hq
      rw [htree, Function.update_of_ne]
      rintro rfl
      exact hq hbelow
  · exact .refl root ground

theorem kept_perform {empty : Bool} (hroot : ground.tree.IsDirectory root)
    (haimed : Aimed root statement) (hstraight : Straight root ground statement) :
    Kept root ground (perform root ground empty statement).1 := by
  cases statement with
  | canonicalizeRoot => exact .refl root ground
  | canonicalize path => exact .refl root ground
  | symlinkMetadata path => exact .refl root ground
  | isDir path => exact .refl root ground
  | createDir path => exact kept_createDir hroot haimed hstraight
  | removeFile path => exact kept_takeOut hroot haimed hstraight
  | removeDirAll path => exact kept_takeOut hroot haimed hstraight
  | moveIn path => exact kept_moveIn hroot haimed hstraight
  | copyIn path => exact kept_copyIn hroot haimed hstraight
  | rename source destination =>
    exact kept_rename hroot haimed.1 haimed.2 hstraight.1 hstraight.2

theorem kept_execute (env : Env) (hroot : ground.tree.IsDirectory root)
    (haimed : Aimed root statement) (hstraight : Straight root ground statement) :
    Kept root ground (execute root ground statement env).1 := by
  cases env with
  | works empty => exact kept_perform hroot haimed hstraight
  | refuses e => exact .refl root ground
  | breaks e => exact kept_perform hroot haimed hstraight

theorem kept_change {change : Change} {after : Ground}
    (h : ground.change root change = some after) : Kept root ground after := by
  cases change with
  | put n p node =>
    simp only [Ground.change] at h
    split at h
    · rename_i hlegal
      cases h
      exact ⟨fun _ hp => .inl hp, put_outside hlegal.2.1 hlegal.2.2 hlegal.1⟩
    · cases h
  | cut p =>
    simp only [Ground.change] at h
    split at h
    · rename_i hlegal
      cases h
      exact ⟨fun _ hp => .inl hp, cut_outside hlegal.ne_nil hlegal⟩
    · cases h
  | move a n p =>
    simp only [Ground.change] at h
    split at h
    · rename_i hlegal
      cases h
      exact ⟨fun _ hp => .inl hp,
        move_outside hlegal.1.ne_nil hlegal.2.2.1 hlegal.2.2.2 hlegal.1 hlegal.2.1⟩
    · cases h

end Performing

def started (tree : FileTree Text) : State := { store := { tree } }

/-- In every run in which no call meets a link, the content operations touch nothing outside the
server's directory. -/
theorem content_stays_inside (root : Path) {tree : FileTree Text} (hroot : tree.IsDirectory root)
    {events : List Event} {t : State}
    (hok : (machine root).Meets (Service.Heeds fun ground _ => Straight root ground)
      (started tree) events)
    (hrun : (machine root).exec (started tree) events = some t) :
    Confined root tree t.store := by
  have hkeeps : ∀ {ground : Ground}, Confined root tree ground → ground.tree.IsDirectory root := by
    intro ground h
    have hsame := h.outside root fun hbelow => hbelow.2 rfl
    rw [FileTree.IsDirectory, hsame]
    exact hroot
  refine Service.run_invariant (I := fun ground _ => Confined root tree ground)
    (fun call => body_aiming call []) ?_ ?_ (fun h => h) ?_ ?_ hok hrun
  · intro ground log history statement env h haimed hstraight
    exact h.kept (kept_execute env (hkeeps h) haimed hstraight)
  · intro ground after log change h hchange
    exact h.kept (kept_change hchange)
  · exact ⟨fun p hp => absurd hp List.not_mem_nil, fun _ _ => rfl⟩
  · exact fun running hrunning => absurd hrunning List.not_mem_nil

/-! An upload goes to the mods directory of a server that stands beside the panel's own files: in
peace, and with a plugin that puts a link in the place of the directory once it was looked at. -/

def bare : FileTree Text where
  node p := if p = [] then some .directory else none
  top := rfl
  closed := by
    intro n p h
    exact absurd (if_neg (List.cons_ne_nil n p)) h

def srv : Path := ["srv".toList]

def mods : Path := "mods".toList :: srv

def panel : Path := ["panel".toList]

def withServer : FileTree Text :=
  bare.put "srv".toList [] .directory (by decide +kernel) (by decide +kernel)

def withMods : FileTree Text :=
  withServer.put "mods".toList srv .directory (by decide +kernel) (by decide +kernel)

def withPanel : FileTree Text :=
  withMods.put "panel".toList [] .directory (by decide +kernel) (by decide +kernel)

def beside : FileTree Text :=
  withPanel.put "foo.jar".toList panel .file (by decide +kernel) (by decide +kernel)

def upload : Event := .arrives (.adoptUploads "mods".toList [{ fileName := "foo.jar".toList }])

def goesOn : Event := .runs 0 (.works false)

theorem content_stays_inside_upload :
    ∃ t, (machine srv).exec (started beside) (upload :: List.replicate 6 goesOn) = some t ∧
      Confined srv beside t.store := by
  have hends : (machine srv).Ends (started beside) (upload :: List.replicate 6 goesOn)
      fun t => t.store.touched = ["foo.jar".toList :: mods] := by decide +kernel
  obtain ⟨t, hrun, -⟩ := hends
  exact ⟨t, hrun, content_stays_inside srv (by decide +kernel) (by decide +kernel) hrun⟩

def disturbed : List Event :=
  upload :: List.replicate 4 goesOn ++
    [.outside (.cut mods), .outside (.put "mods".toList srv (.link ⟨true, route panel⟩))] ++
      List.replicate 4 goesOn

theorem link_leads_upload_out :
    (machine srv).Ends (started beside) disturbed fun t => ¬ ∀ p ∈ t.store.touched, Below srv p := by
  decide +kernel

end CraftPanel.Content.Paths
