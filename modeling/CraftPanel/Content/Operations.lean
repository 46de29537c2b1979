import CraftPanel.Content.Paths

/-!
# Content operations

What the operations of `content/mod.rs` do in the server's directory, with the paths that the
rows, the request and Modrinth give them, and the tree they do it in. The server's own process
changes the tree below the server's directory at any moment.
-/

namespace CraftPanel.Content.Paths

open Framework

def safeFileName (raw : Text) : Option Text :=
  let name := Settings.trim (raw.reverse.takeWhile fun letter => letter ≠ '/' ∧ letter ≠ '\\').reverse
  if name ≠ [] ∧ name ≠ ".".toList ∧ name ≠ "..".toList ∧ Char.ofNat 0 ∉ name ∧
    byteLength name ≤ maxSegment then some name else none

def allowedUpload (fileName : Text) : Bool :=
  let lower := fileName.map Char.toLower
  (".jar".toList.isSuffixOf lower || ".zip".toList.isSuffixOf lower) &&
    !".mrpack".toList.isSuffixOf lower

/-- One of the files that come: its name, and the path of the row it is to replace. -/
structure Coming where
  fileName : Text
  replaces : Option Text := none

/-- The file of the row that is replaced, unless it is where the new one goes. -/
def takeAwayOld (root : Path) (relative : Text) : Option Text → Asking Unit
  | some old => if old ≠ relative then discard (takeAway root old) else pure ()
  | none => pure ()

def setEnabled (root : Path) (rows : List Text) (enabled : Bool) : Asking Unit :=
  Request.each (fun path => discard (renameWithin root path (toggled path enabled))) rows

def delete (root : Path) (rows : List Text) : Asking Unit :=
  Request.each (fun path => discard (takeAway root path)) rows

/-- One file of `adopt_uploads`: `row_for` clears what the file replaces once it is placed. -/
def adopt (root : Path) (directory : Text) (upload : Coming) : Asking Unit :=
  let relative := directory ++ '/' :: upload.fileName
  place root relative >>= fun _ => takeAwayOld root relative upload.replaces

def adoptUploads (root : Path) (directory : Text) (uploads : List Coming) : Asking Unit :=
  Request.each (fun upload =>
    if allowedUpload upload.fileName then discard (adopt root directory upload) else pure ()) uploads

def layOutOne (root : Path) (directory : Text) (item : Coming) : Asking Unit :=
  match safeFileName item.fileName with
  | none => .fail (.io .other)
  | some name =>
    let relative := directory ++ '/' :: name
    takeAwayOld root relative item.replaces >>= fun _ => place root relative

def layOut (root : Path) (directory : Text) (wanted : List Coming) : Asking Unit :=
  Request.each (layOutOne root directory) wanted

/-- `lay_out_pack`: the rows that are cleared first, the files of the index, the overrides, and
the rows that the pack has no more. -/
def layOutPack (root : Path) (extra files overrides gone : List Text) : Asking Unit :=
  delete root extra >>= fun _ =>
    Request.each (place root) files >>= fun _ =>
      Request.each (place root) overrides >>= fun _ => delete root gone

def moveGameVersion (root : Path) (directory : Text) (wanted : List Coming) (off : List Text) :
    Asking Unit :=
  layOut root directory wanted >>= fun _ => setEnabled root off false

inductive Call
  | setEnabled (rows : List Text) (enabled : Bool)
  | delete (rows : List Text)
  | adoptUploads (directory : Text) (uploads : List Coming)
  | layOut (directory : Text) (wanted : List Coming)
  | layOutPack (extra files overrides gone : List Text)
  | moveGameVersion (directory : Text) (wanted : List Coming) (off : List Text)

def Call.body (root : Path) : Call → Asking Unit
  | setEnabled rows enabled => Paths.setEnabled root rows enabled
  | delete rows => Paths.delete root rows
  | adoptUploads directory uploads => Paths.adoptUploads root directory uploads
  | layOut directory wanted => Paths.layOut root directory wanted
  | layOutPack extra files overrides gone => Paths.layOutPack root extra files overrides gone
  | moveGameVersion directory wanted off => Paths.moveGameVersion root directory wanted off

/-- The tree, and the places where the panel has created, overwritten, renamed or removed
something. -/
structure Ground where
  tree : FileTree Text
  touched : List Path := []

namespace Ground

variable (ground : Ground)

def changed (tree : FileTree Text) (places : List Path) : Ground :=
  ⟨tree, places ++ ground.touched⟩

def kindOf : Node Text → Kind
  | .directory => .directory
  | .file => .file
  | .link _ => .link

def lookAt (path : Path) : Except Errno Kind :=
  match ground.tree.locate path with
  | .error e => .error e
  | .ok p => match ground.tree.node p with
    | none => .error .notFound
    | some node => .ok (kindOf node)

/-- Unlinking what is no directory, or a directory with all that is in it. -/
def takeOut (path : Path) (whole : Bool) : Ground × Except Errno Unit :=
  match ground.tree.locate path with
  | .error e => (ground, .error e)
  | .ok p => match ground.tree.node p with
    | none => (ground, .error .notFound)
    | some .directory =>
      if h : whole = true ∧ p ≠ [] then (ground.changed (ground.tree.cut p h.2) [p], .ok ())
      else (ground, .error .isDirectory)
    | some .file =>
      if h : whole = false ∧ p ≠ [] then (ground.changed (ground.tree.cut p h.2) [p], .ok ())
      else (ground, .error .notDirectory)
    | some (.link _) =>
      if h : p ≠ [] then (ground.changed (ground.tree.cut p h) [p], .ok ())
      else (ground, .error .other)

/-- A file comes to a place in a directory, in place of what is no directory. -/
def bring (n : Text) (p : Path) : Ground × Except Errno Unit :=
  if hp : ground.tree.node p = some .directory then
    if hn : ground.tree.node (n :: p) = some .directory then (ground, .error .isDirectory)
    else (ground.changed (ground.tree.put n p .file hp hn) [n :: p], .ok ())
  else (ground, .error .notDirectory)

/-- `std::fs::rename` of the staged file replaces a link and does not follow it. -/
def moveIn (path : Path) : Ground × Except Errno Unit :=
  match ground.tree.locate path with
  | .ok (n :: p) => ground.bring n p
  | .ok [] => (ground, .error .isDirectory)
  | .error e => (ground, .error e)

/-- `std::fs::copy` opens the destination, over a link at its end too. -/
def copyIn (path : Path) : Ground × Except Errno Unit :=
  match ground.tree.locate path with
  | .ok (n :: p) => match ground.tree.opened linkLimit p n with
    | .ok (m :: q) => ground.bring m q
    | .ok [] => (ground, .error .isDirectory)
    | .error e => (ground, .error e)
  | .ok [] => (ground, .error .isDirectory)
  | .error e => (ground, .error e)

/-- Whether one kind of node can be renamed over another; the environment knows of a directory in
the way whether it is empty. -/
def replaces (empty : Bool) (moved : Node Text) : Option (Node Text) → Except Errno Unit
  | none => .ok ()
  | some .directory =>
    if moved = .directory then if empty then .ok () else .error .exists else .error .isDirectory
  | some _ => if moved = .directory then .error .notDirectory else .ok ()

def renameTo (a : Path) (n : Text) (p : Path) (empty : Bool) : Ground × Except Errno Unit :=
  match ground.tree.node a with
  | none => (ground, .error .notFound)
  | some moved =>
    if a = n :: p then (ground, .ok ())
    else if h : a ≠ [] ∧ ground.tree.node p = some .directory ∧ ¬ a <:+ n :: p then
      if n :: p <:+ a then (ground, .error .exists)
      else match replaces empty moved (ground.tree.node (n :: p)) with
        | .error e => (ground, .error e)
        | .ok _ => (ground.changed (ground.tree.move a n p h.1 h.2.1 h.2.2) [a, n :: p], .ok ())
    else (ground, .error .other)

def rename (source destination : Path) (empty : Bool) : Ground × Except Errno Unit :=
  match ground.tree.locate source, ground.tree.locate destination with
  | .ok a, .ok (n :: p) => ground.renameTo a n p empty
  | .ok _, .ok [] => (ground, .error .exists)
  | .error e, _ => (ground, .error e)
  | .ok _, .error e => (ground, .error e)

def createDir (path : Path) : Ground × Except Errno Unit :=
  match ground.tree.mkdir path with
  | .ok (p, tree) => (ground.changed tree [p], .ok ())
  | .error e => (ground, .error e)

end Ground

/-- What the system makes of a call: it works, it is refused, or it breaks off with a failure when
what it was to do is done. -/
inductive Env
  | works (empty : Bool)
  | refuses (e : Errno)
  | breaks (e : Errno)

def perform (root : Path) (ground : Ground) (empty : Bool) :
    (statement : Statement) → Ground × Except Errno (Answer statement)
  | .canonicalizeRoot =>
    (ground, if ground.tree.node root = some .directory then .ok () else .error .notFound)
  | .canonicalize path => (ground, ground.tree.resolve path)
  | .symlinkMetadata path => (ground, ground.lookAt path)
  | .isDir path => (ground, .ok (ground.tree.isDir path))
  | .createDir path => ground.createDir path
  | .removeFile path => ground.takeOut path false
  | .removeDirAll path => ground.takeOut path true
  | .moveIn path => ground.moveIn path
  | .copyIn path => ground.copyIn path
  | .rename source destination => ground.rename source destination empty

def execute (root : Path) (ground : Ground) (statement : Statement) :
    Env → Ground × Except Fault (Answer statement)
  | .works empty =>
    let (after, answer) := perform root ground empty statement
    (after, answer.mapError .io)
  | .refuses e => (ground, .error (.io e))
  | .breaks e => ((perform root ground false statement).1, .error (.io e))

/-- What the server's process does below the server's directory. -/
inductive Change
  | put (n : Text) (p : Path) (node : Node Text)
  | cut (p : Path)
  | move (a : Path) (n : Text) (p : Path)

def Ground.change (root : Path) (ground : Ground) : Change → Option Ground
  | .put n p node =>
    if h : root <:+ p ∧ ground.tree.node p = some .directory ∧
        ¬ ground.tree.node (n :: p) = some .directory then
      some { ground with tree := ground.tree.put n p node h.2.1 h.2.2 }
    else none
  | .cut p =>
    if h : Below root p then some { ground with tree := ground.tree.cut p h.ne_nil } else none
  | .move a n p =>
    if h : Below root a ∧ root <:+ p ∧ ground.tree.node p = some .directory ∧ ¬ a <:+ n :: p then
      some { ground with tree := ground.tree.move a n p h.1.ne_nil h.2.2.1 h.2.2.2 }
    else none

def service (root : Path) : Service Answer Fault Unit Ground Env Call Change where
  execute := execute root
  spawns := fun _ => []
  body := Call.body root
  outside := Ground.change root
  restart := id

abbrev State := Service.State Answer Fault Unit Ground

abbrev Event := Service.Event Env Call Change

/-- The content operations of one server on their way, beside its process. -/
def machine (root : Path) : Framework.Machine State Event := (service root).machine

end CraftPanel.Content.Paths
