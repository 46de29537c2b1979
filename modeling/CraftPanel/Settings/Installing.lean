import CraftPanel.Settings.Startup

/-!
# A change of loader

`drive` and `work` of `settings/install.rs`, with `put_aside`, `record` and `mark_broken`, over the
columns of the server and the entries of its directory. What comes from outside of the panel, and
what the system has against a call, is given.
-/

namespace CraftPanel.Settings.Installing

open Startup (launchOf)

abbrev Bytes := List UInt8

/-- An `io::Error`, with the number that the system gave it. -/
structure IoError where
  os : Option Nat
  text : String

inductive LoaderError
  | damaged (text : String)
  | write (text : String)
  | other (text : String)

inductive Node
  | file (content : Bytes)
  | directory (entries : List (Text × Node))
  | link (leadsToDirectory : Bool)

/-- `Path::is_dir`, which follows a link. -/
def Node.isDir : Node → Bool
  | directory _ => true
  | link leads => leads
  | file _ => false

/-- The entries of the server's directory. -/
abbrev Dir := Text → Option Node

structure Server where
  status : ServerStatus
  loader : Option LoaderId
  gameVersion : Option Text
  loaderVersion : Option Text
  flowsIntro : Bool
  dir : Dir

inductive ContentPolicy
  | keep | wipeMods
  deriving DecidableEq

structure Plan where
  loader : LoaderId
  gameVersion : Text
  build : Option Text
  policy : ContentPolicy

inductive Job
  | install (plan : Plan) (wipeEverything : Bool)
  | repair

def Job.wipesEverything : Job → Bool
  | install _ wipeEverything => wipeEverything
  | repair => false

structure Build where
  id : Text
  filename : Text

/-- What the system has against the calls of `into_place`. `rest` is what is left in the scratch file
of a copy that failed, where it is not removed. -/
structure Copying where
  reaches : Option IoError := none
  unlinks : Option IoError := none
  creates : Option IoError := none
  fills : Option IoError := none
  renames : Option IoError := none
  rest : Option Bytes := none

/-- All that a run meets. -/
structure Course where
  /-- There was room before the fifteen minutes were up. -/
  room : Bool := true
  reaches : Option IoError := none
  resolve : LoaderId → Text → Option Text → Except Failure Build
  /-- What `clear` fails with, and the entries it leaves then. -/
  clears : Option (IoError × Dir) := none
  stamp : Nat
  moves : Text → Option IoError := fun _ => none
  cached : LoaderId → Text → Build → Option Bytes := fun _ _ _ => none
  isWired : LoaderId → Bool := fun _ => true
  download : LoaderId → Build → Except LoaderError Bytes
  copies : Copying := {}
  config : Plan → Dir → Except IoError Unit × Dir
  chown : Option String := none
  records : Option String := none
  /-- The server could be marked as broken. -/
  marks : Bool := true

/-- `ENOSPC` and `EDQUOT`. -/
def filesystem (e : IoError) : OperationError where
  code := if e.os = some 28 ∨ e.os = some 122 then "no_space" else "loader_install_failed"
  message := e.text
  step := .filesystem

def resolveFailed (failure : Failure) : OperationError :=
  if failure.code = "unsupported_game_version" then
    ⟨"unsupported_game_version", "this version is not yet supported", .modloader⟩
  else if failure.code = "build_not_found" then
    ⟨"invalid_version", "the specified version may be incorrect", .modloader⟩
  else ⟨"upstream_unavailable", failure.code ++ ": " ++ failure.message, .download⟩

def downloadFailed : LoaderError → OperationError
  | .damaged text => ⟨"checksum_mismatch", text, .download⟩
  | .write text => ⟨"no_space", text, .filesystem⟩
  | .other text => ⟨"upstream_unavailable", text, .download⟩

/-- What `rename` has against an entry in the place of another one. -/
def clash : Node → Option Node → Option IoError
  | _, none => none
  | .directory _, some (.directory []) => none
  | .directory _, some (.directory _) => some ⟨some 39, "Directory not empty (os error 39)"⟩
  | .directory _, some _ => some ⟨some 20, "Not a directory (os error 20)"⟩
  | _, some (.directory _) => some ⟨some 21, "Is a directory (os error 21)"⟩
  | _, some _ => none

def CONTENT : List Text := ["mods".toList, "plugins".toList]

def aside (stamp : Nat) (name : Text) : Text := name ++ ".before-".toList ++ Nat.toDigits 10 stamp

def scratch (name : Text) : Text := '.' :: name ++ ".new".toList

/-- The loop of `put_aside`. -/
def putAside (stamp : Nat) (moves : Text → Option IoError) :
    List Text → Dir → Except IoError Unit × Dir
  | [], dir => (.ok (), dir)
  | name :: rest, dir => match (dir name).filter Node.isDir with
    | none => putAside stamp moves rest dir
    | some node => match moves name <|> clash node (dir (aside stamp name)) with
      | some e => (.error e, dir)
      | none => putAside stamp moves rest
          (Function.update (Function.update dir (aside stamp name) (some node)) name none)

/-- `unlink` removes no directory. -/
def unlinkFault : Option Node → Option IoError
  | some (.directory _) => some ⟨some 21, "Is a directory (os error 21)"⟩
  | _ => none

def dropScratch (copies : Copying) (name : Text) (dir : Dir) : Dir :=
  Function.update dir (scratch name) (copies.rest.map Node.file)

/-- `disk::copy`: the bytes go into a scratch file, which then takes the name. -/
def intoPlace (copies : Copying) (name : Text) (bytes : Bytes) (dir : Dir) :
    Except IoError Unit × Dir :=
  match copies.reaches <|> copies.unlinks <|> unlinkFault (dir (scratch name)) with
  | some e => (.error e, dir)
  | none =>
    let bare : Dir := Function.update dir (scratch name) none
    match copies.creates with
    | some e => (.error e, bare)
    | none => match copies.fills <|> copies.renames <|> clash (.file bytes) (dir name) with
      | some e => (.error e, dropScratch copies name dir)
      | none => (.ok (), Function.update bare name (some (.file bytes)))

def planOf (server : Server) : Job → Except OperationError Plan
  | .install plan _ => .ok plan
  | .repair => match server.loader with
    | none => .error ⟨"loader_install_failed", "this server has no loader to repair", .modloader⟩
    | some loader => .ok ⟨loader, server.gameVersion.getD [], server.loaderVersion, .keep⟩

def setAside (course : Course) (job : Job) (plan : Plan) (dir : Dir) : Except IoError Unit × Dir :=
  if job.wipesEverything then
    match course.clears with
    | some (e, left) => (.error e, left)
    | none => (.ok (), fun _ => none)
  else if plan.policy = .wipeMods then putAside course.stamp course.moves CONTENT dir
  else (.ok (), dir)

def fetch (course : Course) (plan : Plan) (build : Build) : Except OperationError Bytes :=
  match course.cached plan.loader plan.gameVersion build with
  | some bytes => .ok bytes
  | none =>
    if course.isWired plan.loader then
      match course.download plan.loader build with
      | .ok bytes => .ok bytes
      | .error e => .error (downloadFailed e)
    else .error ⟨"loader_install_failed", "this loader has no source in this build", .modloader⟩

/-- `work` until the jar is in place. -/
def prepare (course : Course) (job : Job) (server : Server) :
    Except OperationError (Plan × Build) × Dir :=
  match course.reaches with
  | some e => (.error (filesystem e), server.dir)
  | none => match planOf server job with
    | .error e => (.error e, server.dir)
    | .ok plan => match course.resolve plan.loader plan.gameVersion plan.build with
      | .error failure => (.error (resolveFailed failure), server.dir)
      | .ok build => match setAside course job plan server.dir with
        | (.error e, dir) => (.error (filesystem e), dir)
        | (.ok _, dir) => match fetch course plan build with
          | .error e => (.error e, dir)
          | .ok bytes =>
            match intoPlace course.copies (launchOf (some plan.loader)).jar bytes dir with
            | (.error e, dir) => (.error (filesystem e), dir)
            | (.ok _, dir) => (.ok (plan, build), dir)

/-- The columns that `record` writes. -/
def record (plan : Plan) (build : Text) (server : Server) : Server :=
  { server with
    loader := some plan.loader
    gameVersion := some plan.gameVersion
    loaderVersion := if plan.loader = .vanilla then none else some build
    status := .available
    flowsIntro := false }

/-- `work` from there on. -/
def settle (course : Course) (plan : Plan) (build : Build) (server : Server) :
    Server × Option OperationError :=
  match course.config plan server.dir with
  | (.error e, dir) => ({ server with dir }, some (filesystem e))
  | (.ok _, dir) => match course.chown with
    | some text => ({ server with dir }, some ⟨"loader_install_failed", text, .filesystem⟩)
    | none => match course.records with
      | some text => ({ server with dir }, some ⟨"loader_install_failed", text, .internal⟩)
      | none => (record plan build.id { server with dir }, none)

def work (course : Course) (job : Job) (server : Server) : Server × Option OperationError :=
  match prepare course job server with
  | (.error e, dir) => ({ server with dir }, some e)
  | (.ok (plan, build), dir) => settle course plan build { server with dir }

def markBroken (course : Course) (server : Server) : Server :=
  if course.marks then { server with status := .broken } else server

def drive (course : Course) (job : Job) (server : Server) : Server × Option OperationError :=
  if course.room then
    match work course job server with
    | (after, none) => (after, none)
    | (after, some e) => (markBroken course after, some e)
  else
    (server, some ⟨"timeout", "the machine stayed busy for fifteen minutes", .internal⟩)

/-- The directory stands as a whole under its other name. -/
def MovedAside (stamp : Nat) (before after : Dir) (name : Text) : Prop :=
  ∃ node, before name = some node ∧ node.isDir = true ∧ after name = none ∧
    after (aside stamp name) = some node

/-- Nothing has happened to the name or to its other name, or it was moved from one to the other. -/
def KeptOrAside (stamp : Nat) (before after : Dir) (name : Text) : Prop :=
  (after name = before name ∧ after (aside stamp name) = before (aside stamp name)) ∨
    MovedAside stamp before after name

variable {stamp : Nat} {before after later : Dir} {name : Text}

theorem KeptOrAside.congr (h : KeptOrAside stamp before after name)
    (hname : later name = after name) (haside : later (aside stamp name) = after (aside stamp name)) :
    KeptOrAside stamp before later name := by
  rcases h with ⟨hkept, hother⟩ | ⟨node, hnode, hdir, hgone, hthere⟩
  · left
    exact ⟨hname.trans hkept, haside.trans hother⟩
  · right
    use node
    exact ⟨hnode, hdir, hname.trans hgone, haside.trans hthere⟩

theorem KeptOrAside.of_before {first : Dir} (h : KeptOrAside stamp before after name)
    (hname : before name = first name)
    (haside : before (aside stamp name) = first (aside stamp name)) :
    KeptOrAside stamp first after name := by
  rcases h with ⟨hkept, hother⟩ | ⟨node, hnode, hmoved⟩
  · left
    exact ⟨hkept.trans hname, hother.trans haside⟩
  · right
    use node
    exact ⟨hname ▸ hnode, hmoved⟩

theorem apart_rest {rest : List Text}
    (hapart : ((name :: rest) ++ (name :: rest).map (aside stamp)).Nodup) :
    (rest ++ rest.map (aside stamp)).Nodup ∧ name ≠ aside stamp name ∧
      (name ∉ rest ∧ name ∉ rest.map (aside stamp)) ∧
      aside stamp name ∉ rest ∧ aside stamp name ∉ rest.map (aside stamp) := by
  simp only [List.map_cons, List.cons_append, List.nodup_cons, List.mem_append, List.mem_cons,
    List.nodup_append] at hapart ⊢
  grind

theorem putAside_spec (moves : Text → Option IoError) {names : List Text}
    (hapart : (names ++ names.map (aside stamp)).Nodup) (dir : Dir) :
    (∀ k, k ∉ names → k ∉ names.map (aside stamp) →
      (putAside stamp moves names dir).2 k = dir k) ∧
    ∀ name ∈ names, KeptOrAside stamp dir (putAside stamp moves names dir).2 name := by
  induction names generalizing dir with
  | nil => exact ⟨fun _ _ _ => rfl, fun _ hname => absurd hname List.not_mem_nil⟩
  | cons name rest ih =>
    obtain ⟨hrest, hother, ⟨hname, hname'⟩, haside, haside'⟩ := apart_rest hapart
    -- After one turn the rest of the loop goes on from `next`.
    have hturn (next : Dir) (hnext : ∀ k, k ≠ name → k ≠ aside stamp name → next k = dir k)
        (hkept : KeptOrAside stamp dir next name) :
        (∀ k, k ∉ name :: rest → k ∉ (name :: rest).map (aside stamp) →
          (putAside stamp moves rest next).2 k = dir k) ∧
        ∀ k ∈ name :: rest, KeptOrAside stamp dir (putAside stamp moves rest next).2 k := by
      obtain ⟨hothers, hcontent⟩ := ih hrest next
      constructor
      · intro k hk hk'
        rw [List.map_cons] at hk'
        rw [hothers k (fun h => hk (List.mem_cons_of_mem _ h))
          (fun h => hk' (List.mem_cons_of_mem _ h))]
        exact hnext k (fun h => hk (h ▸ List.mem_cons_self)) fun h => hk' (h ▸ List.mem_cons_self)
      · intro k hk
        rcases List.mem_cons.mp hk with rfl | hmem
        · exact hkept.congr (hothers k hname hname') (hothers _ haside haside')
        have hk' : aside stamp k ∈ rest.map (aside stamp) := List.mem_map_of_mem hmem
        apply (hcontent k hmem).of_before
        · exact hnext k (fun h => hname (h ▸ hmem)) fun h => haside (h ▸ hmem)
        · exact hnext _ (fun h => hname' (h ▸ hk')) fun h => haside' (h ▸ hk')
    rw [putAside]
    cases hnode : (dir name).filter Node.isDir with
    | none => exact hturn dir (fun _ _ _ => rfl) (.inl ⟨rfl, rfl⟩)
    | some node =>
      obtain ⟨hthere, hdir⟩ := Option.filter_eq_some_iff.mp hnode
      cases hrename : moves name <|> clash node (dir (aside stamp name)) with
      | some e =>
        simp only [hrename]
        exact ⟨fun _ _ _ => trivial, fun _ _ => .inl ⟨rfl, rfl⟩⟩
      | none =>
        simp only [hrename]
        apply hturn
        · intro k hk hk'
          rw [Function.update_of_ne hk, Function.update_of_ne hk']
        right
        use node
        refine ⟨hthere, hdir, Function.update_self .., ?_⟩
        rw [Function.update_of_ne hother.symm, Function.update_self]

def JARS : List Text := ["server.jar".toList, "quilt-server-launch.jar".toList]

theorem jar_mem (loader : LoaderId) : (launchOf (some loader)).jar ∈ JARS := by
  cases loader <;> decide

theorem content_apart (stamp : Nat) : (CONTENT ++ CONTENT.map (aside stamp)).Nodup := by
  simp [CONTENT, aside]

theorem scratch_apart (stamp : Nat) (jar : Text) :
    scratch jar ∉ CONTENT ∧ scratch jar ∉ CONTENT.map (aside stamp) := by
  simp [scratch, CONTENT, aside]

theorem intoPlace_error {copies : Copying} {bytes : Bytes} {dir : Dir} {e : IoError}
    (h : (intoPlace copies name bytes dir).1 = .error e) (k : Text) (hk : k ≠ scratch name) :
    (intoPlace copies name bytes dir).2 k = dir k := by
  rw [intoPlace] at h ⊢
  cases hopen : copies.reaches <|> copies.unlinks <|> unlinkFault (dir (scratch name)) with
  | some _ => rfl
  | none =>
    simp only [hopen] at h ⊢
    cases hcreate : copies.creates with
    | some _ => exact Function.update_of_ne hk ..
    | none =>
      simp only [hcreate] at h ⊢
      cases hfill : copies.fills <|> copies.renames <|> clash (.file bytes) (dir name) with
      | some _ => exact Function.update_of_ne hk ..
      | none =>
        rw [hfill] at h
        cases h

/-- The run fails, and the new jar is not in place. -/
def FailsEarly (course : Course) (job : Job) (server : Server) : Prop :=
  course.room = false ∨ ∃ e, (prepare course job server).1 = .error e

/-- The build of the plan has been resolved. -/
def Resolved (course : Course) (job : Job) (server : Server) (plan : Plan) (build : Build) : Prop :=
  planOf server job = .ok plan ∧
    course.resolve plan.loader plan.gameVersion plan.build = .ok build

/-- What a run that failed has left of the directory: of the content each directory is where it was
or, once a plan that wipes the mods has been resolved, as a whole under its other name; and once the
new jar has been fetched, its scratch file may be there or gone. -/
structure DirSpared (course : Course) (job : Job) (server : Server) (after : Dir) : Prop where
  entries : ∀ name, name ∉ CONTENT → name ∉ CONTENT.map (aside course.stamp) →
    name ∉ JARS.map scratch → after name = server.dir name
  content : ∀ name ∈ CONTENT, KeptOrAside course.stamp server.dir after name
  wiped : ∀ name ∈ CONTENT, MovedAside course.stamp server.dir after name →
    ∃ plan build, Resolved course job server plan build ∧ plan.policy = .wipeMods
  copied : ∀ name ∈ JARS.map scratch, after name ≠ server.dir name →
    ∃ plan build bytes, Resolved course job server plan build ∧ fetch course plan build = .ok bytes

/-- What a run that failed has left of the server. -/
structure Spared (course : Course) (job : Job) (before after : Server) : Prop where
  columns : after.loader = before.loader ∧ after.gameVersion = before.gameVersion ∧
    after.loaderVersion = before.loaderVersion ∧ after.flowsIntro = before.flowsIntro
  status : after.status = if course.room && course.marks then .broken else before.status
  waiting : course.room = false → after = before
  dir : DirSpared course job before after.dir

variable {course : Course} {job : Job} {server : Server} {plan : Plan} {build : Build}

theorem dirSpared_self : DirSpared course job server server.dir := by
  constructor
  · exact fun _ _ _ _ => rfl
  · exact fun _ _ => .inl ⟨rfl, rfl⟩
  · intro name _ hmoved
    obtain ⟨node, hnode, -, hgone, -⟩ := hmoved
    rw [hnode] at hgone
    cases hgone
  · exact fun _ _ hne => absurd rfl hne

theorem dirSpared_setAside (hkeeps : job.wipesEverything = false)
    (hresolved : Resolved course job server plan build) :
    DirSpared course job server (setAside course job plan server.dir).2 := by
  rw [setAside, if_neg (by simp [hkeeps])]
  split_ifs with hwipes
  · obtain ⟨hothers, hcontent⟩ := putAside_spec course.moves (content_apart course.stamp)
      server.dir
    constructor
    · exact fun name hname haside _ => hothers name hname haside
    · exact hcontent
    · exact fun _ _ _ => ⟨plan, build, hresolved, hwipes⟩
    intro name hname hne
    obtain ⟨jar, -, rfl⟩ := List.mem_map.mp hname
    obtain ⟨hnot, hnot'⟩ := scratch_apart course.stamp jar
    exact absurd (hothers _ hnot hnot') hne
  · exact dirSpared_self

theorem DirSpared.afterCopy {dir : Dir} {bytes : Bytes} {e : IoError} {jar : Text}
    (h : DirSpared course job server dir) (hjar : jar ∈ JARS)
    (hresolved : Resolved course job server plan build) (hfetch : fetch course plan build = .ok bytes)
    (herror : (intoPlace course.copies jar bytes dir).1 = .error e) :
    DirSpared course job server (intoPlace course.copies jar bytes dir).2 := by
  have hsame := intoPlace_error herror
  obtain ⟨hnot, hnot'⟩ := scratch_apart course.stamp jar
  have hname {name : Text} (hname : name ∈ CONTENT) : name ≠ scratch jar := by
    rintro rfl
    exact hnot hname
  have haside {name : Text} (hname : name ∈ CONTENT) : aside course.stamp name ≠ scratch jar := by
    intro heq
    exact hnot' (heq ▸ List.mem_map_of_mem hname)
  constructor
  · intro name hcontent hother hscratch
    rw [hsame name fun heq => hscratch (heq ▸ List.mem_map_of_mem hjar)]
    exact h.entries name hcontent hother hscratch
  · intro name hcontent
    exact (h.content name hcontent).congr (hsame name (hname hcontent)) (hsame _ (haside hcontent))
  · intro name hcontent hmoved
    obtain ⟨node, hnode, hdir, hgone, hthere⟩ := hmoved
    rw [hsame name (hname hcontent)] at hgone
    rw [hsame _ (haside hcontent)] at hthere
    exact h.wiped name hcontent ⟨node, hnode, hdir, hgone, hthere⟩
  · exact fun _ _ _ => ⟨plan, build, bytes, hresolved, hfetch⟩

theorem dirSpared_prepare {e : OperationError} (hkeeps : job.wipesEverything = false)
    (herror : (prepare course job server).1 = .error e) :
    DirSpared course job server (prepare course job server).2 := by
  rw [prepare] at herror ⊢
  cases hreach : course.reaches with
  | some _ => exact dirSpared_self
  | none =>
    cases hplan : planOf server job with
    | error _ => exact dirSpared_self
    | ok plan =>
      cases hresolve : course.resolve plan.loader plan.gameVersion plan.build with
      | error _ =>
        simp only [hresolve]
        exact dirSpared_self
      | ok build =>
        have hresolved : Resolved course job server plan build := ⟨hplan, hresolve⟩
        have hspared := dirSpared_setAside hkeeps hresolved
        simp only [hreach, hplan, hresolve] at herror ⊢
        rcases hset : setAside course job plan server.dir with ⟨moved, dir⟩
        rw [hset] at hspared
        cases moved with
        | error _ => exact hspared
        | ok =>
          simp only [hset] at herror ⊢
          cases hfetch : fetch course plan build with
          | error _ => exact hspared
          | ok bytes =>
            simp only [hfetch] at herror ⊢
            rcases hcopy : intoPlace course.copies (launchOf (some plan.loader)).jar bytes dir
              with ⟨copied, left⟩
            cases copied with
            | error refusal =>
              have hplaced := hspared.afterCopy (jar_mem plan.loader) hresolved hfetch
                (e := refusal) (by rw [hcopy])
              rwa [hcopy] at hplaced
            | ok =>
              rw [hcopy] at herror
              cases herror

/-- A loader change that fails before the new jar is in place spares the server: what it had been
installed with, its jar and its properties, and its mods and plugins, though these may have been put
aside. A run that never found room leaves everything; any other marks the server as broken. -/
theorem failed_change_spares {course : Course} {job : Job} {server : Server}
    (hkeeps : job.wipesEverything = false) (hfails : FailsEarly course job server) :
    (drive course job server).2 ≠ none ∧
      Spared course job server (drive course job server).1 := by
  cases hroom : course.room with
  | false =>
    simp only [drive, hroom, Bool.false_eq_true, if_false]
    refine ⟨by simp, ⟨⟨rfl, rfl, rfl, rfl⟩, by simp [hroom], fun _ => rfl, dirSpared_self⟩⟩
  | true =>
    obtain ⟨e, he⟩ := hfails.resolve_left (by simp [hroom])
    have hdir := dirSpared_prepare hkeeps he
    rcases hprepare : prepare course job server with ⟨outcome, dir⟩
    rw [hprepare] at he hdir
    simp only at he
    subst he
    have hdrive : drive course job server = (markBroken course { server with dir }, some e) := by
      simp [drive, hroom, work, hprepare]
    rw [hdrive]
    refine ⟨by simp, ?_⟩
    unfold markBroken
    cases hmarks : course.marks with
    | false =>
      exact ⟨⟨rfl, rfl, rfl, rfl⟩, by simp [hmarks], fun hnever => by simp [hroom] at hnever, hdir⟩
    | true =>
      exact ⟨⟨rfl, rfl, rfl, rfl⟩, by simp [hroom, hmarks],
        fun hnever => by simp [hroom] at hnever, hdir⟩

def brokenOff : Course where
  resolve _ _ _ := .ok ⟨"60".toList, "paper.jar".toList⟩
  stamp := 7
  download _ _ := .error (.other "the download broke off: timed out")
  config _ dir := (.ok (), dir)

def modded : Server where
  status := .available
  loader := some .fabric
  gameVersion := some "1.21.8".toList
  loaderVersion := none
  flowsIntro := false
  dir name := if name = "mods".toList then some (.directory [("a.jar".toList, .file [])]) else none

def toPaper : Job := .install ⟨.paper, "1.21.8".toList, none, .wipeMods⟩ false

theorem failed_change_spares_modded :
    Spared brokenOff toPaper modded (drive brokenOff toPaper modded).1 :=
  (failed_change_spares (by decide) (.inr ⟨_, rfl⟩)).2

/-- A server that could be started cannot be any more, and its mods are not where they were. -/
theorem failed_change_breaks :
    (drive brokenOff toPaper modded).1.status ≠ modded.status ∧
      (modded.dir "mods".toList).isSome = true ∧
      ((drive brokenOff toPaper modded).1.dir "mods".toList).isSome = false := by
  decide +kernel

end CraftPanel.Settings.Installing
