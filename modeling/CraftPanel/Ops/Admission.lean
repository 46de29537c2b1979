import CraftPanel.Ops.Writes

/-!
# Which requests the write guard lets in

Every request that makes an operation asks `guard_write` first and inserts its row in a later
transaction: `install`, `update`, `install_modpack` and `change_game_version` of `content/mod.rs`,
`Runner::start` of `settings/install.rs`, `extract` of `api/files.rs`, `request`, `restore` and
`retry` of `backups/mod.rs`, `delete` and `power` of `servers/manager.rs`, and `retry` of
`ops/api.rs`. What a request does between the two (Modrinth, the survey of a tree, the quota) may
take any time and may turn it away. The other writers of operations, those that create rows without
the guard among them, are the events of `Ops.machine`.
-/

namespace CraftPanel.Ops.Admission

open Framework

/-- A guarded request: one that writes no operation, or one that makes one. -/
inductive Request
  | writes (server : Id) (gated : Bool)
  /-- `safety` is the backup row of a safety copy, whose run follows on the one of `new`. -/
  | makes (new : NewOperation) (safety : Option Id) (gated : Bool)

namespace Request

def server : Request → Id
  | writes server _ => server
  | makes new _ _ => new.serverId

/-- The request holds the gate of its server from before the guard to its end. -/
def gated : Request → Bool
  | writes _ gated | makes _ _ gated => gated

end Request

/-- `settings::install::Job`. -/
inductive Job
  | install (loader gameVersion : String) (wipeEverything : Bool)
  | repair

namespace Job

def kind : Job → OperationKind
  | install _ _ true => .resetServer
  | install _ _ false => .installLoader
  | repair => .repairContent

/-- `message_of`. -/
def message : Job → String
  | install loader gameVersion true => s!"Resetting to {loader} {gameVersion}"
  | install loader gameVersion false => s!"Installing {loader} {gameVersion}"
  | repair => "Repairing the installation"

end Job

section Requests

variable (server : Id) (startedBy : Option Id)

def start (kind : OperationKind) (total : Nat) : Request :=
  .makes { serverId := server, kind, startedBy, input := some s!"\x7b\"total\":{total}\x7d" }
    none false

def install (entries : Nat) : Request := start server startedBy .installContent entries

def update (wanted : Nat) : Request := start server startedBy .updateContent wanted

def installModpack : Request := start server startedBy .installModpack 1

def changeGameVersion : Request := start server startedBy .changeGameVersion 1

/-- `Runner::start`; `input` is the job as JSON. -/
def run (job : Job) (input : Option String) : Request :=
  .makes { serverId := server, kind := job.kind, startedBy, message := some job.message, input }
    none false

def extract (src : String) : Request :=
  .makes { serverId := server, kind := .unarchive, startedBy, src := some src } none false

/-- `Backups::request`, for the row that it makes. -/
def backUp (backup : Id) : Request :=
  .makes { serverId := server, kind := .backupCreate, startedBy, targetId := some backup }
    none false

/-- `Backups::restore`, which makes a safety copy in any case. -/
def restore (backup safety : Id) : Request :=
  .makes { serverId := server, kind := .backupRestore, startedBy, targetId := some backup }
    (some safety) false

/-- `Backups::retry` of a run that made the backup. -/
def retryCreate (backup : Id) : Request :=
  .makes { serverId := server, kind := .backupCreate, startedBy, targetId := some backup }
    none false

/-- `Backups::retry` of a restore, which makes a safety copy unless one is done. -/
def retryRestore (backup : Id) (safety : Option Id) : Request :=
  .makes { serverId := server, kind := .backupRestore, startedBy, targetId := some backup }
    safety false

def delete (keepBackups : Bool) : Request :=
  .makes { serverId := server, kind := .serverDelete, startedBy
           input := some s!"\x7b\"keep_backups\":{keepBackups}\x7d" } none true

/-- `power`; a start asks for the Java that it does not find. -/
def power (java : Option Nat) : Request := match java with
  | none => .writes server true
  | some major =>
    .makes { serverId := server, kind := .installJava, startedBy
             message := some s!"Java {major}"
             input := some s!"\x7b\"java_major\":{major}\x7d" } none true

/-- `retry` of `ops/api.rs`, with the inputs of the run that failed. -/
def retry (failed : OperationRow) : Request :=
  .makes { inputsOf failed with startedBy } none false

/-- What `create_for` makes for `restore` and `retry`. -/
def safetyCopy (safety restore : Id) : NewOperation where
  serverId := server
  kind := .backupCreate
  startedBy := startedBy
  targetId := some safety
  parentOperationId := some restore

end Requests

inductive Stage
  | asks
  | admitted
  | copies (restore : Id)
  /-- The safety copy was refused, and the restore is called off. -/
  | cancels (restore : Id)
  deriving DecidableEq

structure Pending where
  request : Request
  stage : Stage := .asks
  /-- Since the guard let it in, another has made an operation with a busy reason here. -/
  raced : Bool := false

/-- What the guard said, and which operations with a busy reason were open then. -/
structure Verdict where
  request : Request
  passed : Bool
  beside : List OperationRow

/-- An operation that was accepted, and those with a busy reason that were open then. -/
structure Accepted where
  request : Request
  new : NewOperation
  /-- The restore that this is the safety copy of. -/
  restore : Option Id
  raced : Bool
  beside : List OperationRow

structure System where
  base : Ops.System
  pending : List Pending := []
  verdicts : List Verdict := []
  accepted : List Accepted := []

inductive Event
  | base (e : Ops.Event)
  | arrives (request : Request)
  | guards (i : Nat)
  | creates (i : Nat) (id : Id) (now : Timestamp)
  /-- The request is turned away by something else, or given up. -/
  | gone (i : Nat)

def busyOn (db : Database) (server : Id) : List OperationRow :=
  (db.operations.select (openOn server)).filter (·.kind.busyReason.isSome)

def opened (before after : Database) (server : Id) : Bool :=
  (busyOn after server).any fun row => (before.operations.find? row.id).isNone

def Pending.sees (before after : Database) (pending : Pending) : Pending :=
  if opened before after pending.request.server then { pending with raced := true } else pending

namespace System

variable (s : System)

def holdsGate (server : Id) : Bool := s.pending.any fun pending =>
  pending.request.gated && pending.request.server = server && pending.stage ≠ .asks

/-- `guard_write`, once the gate is free where the request takes it. -/
def guards (i : Nat) : Option System := match s.pending[i]? with
  | some pending =>
    let server := pending.request.server
    if pending.stage ≠ .asks || pending.request.gated && s.holdsGate server then none
    else
      let beside := busyOn s.base.db server
      match guardWrite s.base.db server with
      | .ok () => some { s with
          pending := s.pending.set i { pending with stage := .admitted, raced := false }
          verdicts := ⟨pending.request, true, beside⟩ :: s.verdicts }
      | .error _ => some { s with
          pending := s.pending.eraseIdx i
          verdicts := ⟨pending.request, false, beside⟩ :: s.verdicts }
  | none => none

/-- The row of `new` is in the table, and the request goes on with `next`. -/
def accepts (i : Nat) (pending : Pending) (new : NewOperation) (restore : Option Id)
    (db : Database) (next : Option Stage) : System :=
  let seen := s.pending.map (Pending.sees s.base.db db)
  { s with
    base := { s.base with db }
    pending := match next with
      | some stage => seen.set i { pending with stage }
      | none => seen.eraseIdx i
    accepted := ⟨pending.request, new, restore, pending.raced,
      busyOn s.base.db pending.request.server⟩ :: s.accepted }

def creates (i : Nat) (id : Id) (now : Timestamp) : Option System := match s.pending[i]? with
  | some pending => match pending.stage, pending.request with
    | .admitted, .makes new safety _ => match insert new id now s.base.db with
      | .ok (db, row) => some (s.accepts i pending new none db (safety.map fun _ => .copies row.id))
      | .error _ => some { s with pending := s.pending.eraseIdx i }
    | .copies restore, .makes new (some safety) _ =>
      let copy := safetyCopy new.serverId new.startedBy safety restore
      match insert copy id now s.base.db with
      | .ok (db, _) => some (s.accepts i pending copy (some restore) db none)
      | .error _ => some { s with
          pending := s.pending.set i { pending with stage := .cancels restore } }
    | .cancels restore, _ =>
      let db := after s.base.db (cancelled restore now)
      some { s with
        base := { s.base with db }
        pending := (s.pending.map (Pending.sees s.base.db db)).eraseIdx i }
    | _, _ => none
  | none => none

def step : Event → Option System
  | .base e => (s.base.step e).map fun base => { s with
      base
      pending := s.pending.map (Pending.sees s.base.db base.db) }
  | .arrives request => some { s with pending := s.pending ++ [{ request }] }
  | .guards i => s.guards i
  | .creates i id now => s.creates i id now
  | .gone i => if i < s.pending.length then some { s with pending := s.pending.eraseIdx i } else none

/-- The panel has come up, and no request has reached it. -/
structure Started : Prop where
  pending : s.pending = []
  verdicts : s.verdicts = []
  accepted : s.accepted = []

end System

def machine : Machine System Event := ⟨System.step⟩

section Busy

variable {db db' : Database} {server : Id} {row : OperationRow}

theorem mem_busyOn : row ∈ busyOn db server ↔ db.operations.find? row.id = some row ∧
    row.serverId = server ∧ row.state.isOpen = true ∧ row.kind.busyReason.isSome = true := by
  rw [busyOn, List.mem_filter, Table.select, List.mem_filter, Table.mem_iff_find?]
  simp [openOn, and_assoc]

theorem mem_busyReasons {reason : BusyReasonCode} : reason ∈ busyReasons db server ↔
    ∃ row ∈ busyOn db server, row.kind.busyReason = some reason := by
  have hall : reason ∈ [BusyReasonCode.installing, .syncingContent, .backupCreating,
      .backupRestoring, .deleting] := by
    cases reason <;> decide
  simp only [busyReasons, List.mem_filter, decide_eq_true_eq, hall, true_and, List.mem_filterMap,
    busyOn]
  constructor
  · rintro ⟨row, hrow, hreason⟩
    exact ⟨row, ⟨hrow, by rw [hreason]; rfl⟩, hreason⟩
  · rintro ⟨row, ⟨hrow, -⟩, hreason⟩
    exact ⟨row, hrow, hreason⟩

theorem guardWrite_ok : guardWrite db server = .ok () ↔ busyOn db server = [] := by
  have hnil : busyReasons db server = [] ↔ busyOn db server = [] := by
    constructor
    · intro hnone
      apply List.eq_nil_iff_forall_not_mem.mpr
      intro row hrow
      obtain ⟨reason, hreason⟩ := Option.isSome_iff_exists.mp (mem_busyOn.mp hrow).2.2.2
      have hmem := mem_busyReasons.mpr ⟨row, hrow, hreason⟩
      rw [hnone] at hmem
      cases hmem
    · intro hnone
      apply List.eq_nil_iff_forall_not_mem.mpr
      intro reason hreason
      obtain ⟨row, hrow, -⟩ := mem_busyReasons.mp hreason
      rw [hnone] at hrow
      cases hrow
  rw [← hnil, guardWrite]
  cases busyReasons db server <;> simp

/-- What makes the server busy afterwards did so before, or it is new. -/
def Keeps (before after : Database) : Prop :=
  ∀ server, ∀ row ∈ busyOn after server, (∃ old ∈ busyOn before server, old.id = row.id) ∨
    before.operations.find? row.id = none

theorem keeps_step {s t : Ops.System} {e : Ops.Event} (h : s.step e = some t) :
    Keeps s.db t.db := by
  intro server row hrow
  obtain ⟨hfind, hserver, hopen, hbusy⟩ := mem_busyOn.mp hrow
  cases hold : s.db.operations.find? row.id with
  | none => exact .inr rfl
  | some old =>
    obtain ⟨row', hrow', hserver', hkind, hstate, -⟩ := rowAfter_step h hold
    obtain rfl : row' = row := Option.some.inj (hrow'.symm.trans hfind)
    have hid : old.id = row'.id := Table.find?_key hold
    left
    refine ⟨old, mem_busyOn.mpr ⟨hid ▸ hold, ?_, hstate.isOpen hopen, ?_⟩, hid⟩
    · rw [← hserver', hserver]
    · rw [← hkind, hbusy]

theorem keeps_insert {new : NewOperation} {id : Id} {now : Timestamp}
    (h : insert new id now db = .ok (db', row)) : Keeps db db' := by
  have hstep : Ops.System.step ⟨db, [], [], .idle, []⟩ (.create new id now) =
      some ⟨db', [], [], .idle, []⟩ := by
    simp only [Ops.System.step, after, h]
  exact keeps_step hstep

theorem busyOn_insert {new : NewOperation} {id : Id} {now : Timestamp} {made : OperationRow}
    (h : insert new id now db = .ok (db', made)) (hrow : row ∈ busyOn db' server) :
    row ∈ busyOn db server ∨ row.id = id := by
  obtain ⟨hfind, hrest⟩ := mem_busyOn.mp hrow
  rw [find?_insert_of_ok h] at hfind
  split at hfind
  · next hsame => exact .inr hsame
  · exact .inl (mem_busyOn.mpr ⟨hfind, hrest⟩)

theorem kind_ne_of_insert {new : NewOperation} {id : Id} {now : Timestamp} {made : OperationRow}
    (h : insert new id now db = .ok (db', made))
    (hkind : new.kind = .backupCreate ∨ new.kind = .backupRestore)
    (hrow : row ∈ busyOn db new.serverId) : row.kind ≠ new.kind := by
  intro hsame
  obtain ⟨hfind, hserver, hopen, -⟩ := mem_busyOn.mp hrow
  have hcollides : collides db new = true := by
    simp only [collides, Bool.and_eq_true, List.any_eq_true, Bool.or_eq_true, decide_eq_true_eq]
    exact ⟨hkind, row, Table.find?_mem hfind, ⟨hserver, hsame⟩, hopen⟩
  simp only [insert, hcollides, if_true] at h
  cases h

end Busy

/-- The guard has let the request in. -/
def System.Passed (s : System) (request : Request) : Prop :=
  ∃ verdict ∈ s.verdicts, verdict.request = request ∧ verdict.passed = true

/-- An operation was accepted as the guard is there to see to. -/
structure Accepted.Sound (accepted : Accepted) : Prop where
  alone : accepted.raced = false → ∀ row ∈ accepted.beside, accepted.restore = some row.id
  copy : ∀ restore, accepted.restore = some restore →
    accepted.new.kind = .backupCreate ∧ accepted.new.parentOperationId = some restore
  index : accepted.new.kind = .backupCreate ∨ accepted.new.kind = .backupRestore →
    ∀ row ∈ accepted.beside, row.kind ≠ accepted.new.kind

/-- What a request that was let in, and that nobody raced, knows of its server. -/
def Pending.Stands (db : Database) (pending : Pending) : Prop :=
  pending.raced = false → ∀ row ∈ busyOn db pending.request.server, match pending.stage with
    | .asks => True
    | .admitted => False
    | .copies restore | .cancels restore => row.id = restore

structure Inv (s : System) : Prop where
  verdicts : ∀ verdict ∈ s.verdicts, verdict.passed = true ↔ verdict.beside = []
  accepted : ∀ accepted ∈ s.accepted, s.Passed accepted.request ∧ accepted.Sound
  passed : ∀ pending ∈ s.pending, pending.stage ≠ .asks → s.Passed pending.request
  stands : ∀ pending ∈ s.pending, pending.Stands s.base.db

section Steps

variable {s t : System} {db : Database} {i : Nat} {pending : Pending}

@[simp] theorem sees_request (before after : Database) (pending : Pending) :
    (pending.sees before after).request = pending.request := by
  unfold Pending.sees
  split <;> rfl

@[simp] theorem sees_stage (before after : Database) (pending : Pending) :
    (pending.sees before after).stage = pending.stage := by
  unfold Pending.sees
  split <;> rfl

theorem Pending.Stands.sees {before after : Database} (h : pending.Stands before)
    (hkeeps : Keeps before after) : (pending.sees before after).Stands after := by
  intro hraced row hrow
  rw [sees_request] at hrow
  rw [sees_stage]
  have hclosed : opened before after pending.request.server = false := by
    cases hopened : opened before after pending.request.server with
    | false => rfl
    | true => simp [Pending.sees, hopened] at hraced
  have hcalm : pending.raced = false := by simpa [Pending.sees, hclosed] using hraced
  obtain ⟨old, hold, hid⟩ | hnew := hkeeps _ row hrow
  · have hstands := h hcalm old hold
    cases hstage : pending.stage <;> simp_all
  have hopened : opened before after pending.request.server = true := by
    apply List.any_eq_true.mpr
    exact ⟨row, hrow, by rw [hnew]; rfl⟩
  rw [hclosed] at hopened
  cases hopened

theorem Inv.sees (h : Inv s) {base : Ops.System} (hkeeps : Keeps s.base.db base.db) :
    Inv { s with base, pending := s.pending.map (Pending.sees s.base.db base.db) } := by
  constructor
  · exact h.verdicts
  · exact h.accepted
  · intro after hafter hstage
    obtain ⟨before, hbefore, rfl⟩ := List.mem_map.mp hafter
    rw [sees_stage] at hstage
    rw [sees_request]
    exact h.passed before hbefore hstage
  · intro after hafter
    obtain ⟨before, hbefore, rfl⟩ := List.mem_map.mp hafter
    exact (h.stands before hbefore).sees hkeeps

theorem Inv.erases (h : Inv s) (i : Nat) : Inv { s with pending := s.pending.eraseIdx i } := by
  constructor
  · exact h.verdicts
  · exact h.accepted
  · exact fun after hafter => h.passed after (List.mem_of_mem_eraseIdx hafter)
  · exact fun after hafter => h.stands after (List.mem_of_mem_eraseIdx hafter)

theorem Inv.sets (h : Inv s) (i : Nat) (hpassed : pending.stage ≠ .asks → s.Passed pending.request)
    (hstands : pending.Stands s.base.db) :
    Inv { s with pending := s.pending.set i pending } := by
  constructor
  · exact h.verdicts
  · exact h.accepted
  · intro after hafter hstage
    rcases List.mem_or_eq_of_mem_set hafter with hold | rfl
    · exact h.passed after hold hstage
    · exact hpassed hstage
  · intro after hafter
    rcases List.mem_or_eq_of_mem_set hafter with hold | rfl
    · exact h.stands after hold
    · exact hstands

theorem Inv.hears (h : Inv s) {verdict : Verdict}
    (hverdict : verdict.passed = true ↔ verdict.beside = []) :
    Inv { s with verdicts := verdict :: s.verdicts } := by
  have hmono {request : Request} (hpassed : s.Passed request) :
      System.Passed { s with verdicts := verdict :: s.verdicts } request := by
    obtain ⟨earlier, hearlier, hrest⟩ := hpassed
    exact ⟨earlier, List.mem_cons_of_mem _ hearlier, hrest⟩
  constructor
  · intro other hother
    rcases List.mem_cons.mp hother with rfl | hold
    · exact hverdict
    · exact h.verdicts other hold
  · intro accepted haccepted
    exact ⟨hmono (h.accepted accepted haccepted).1, (h.accepted accepted haccepted).2⟩
  · exact fun pending hpending hstage => hmono (h.passed pending hpending hstage)
  · exact h.stands

theorem Inv.records (h : Inv s) {accepted : Accepted} (hpassed : s.Passed accepted.request)
    (hsound : accepted.Sound) : Inv { s with accepted := accepted :: s.accepted } := by
  constructor
  · exact h.verdicts
  · intro other hother
    rcases List.mem_cons.mp hother with rfl | hold
    · exact ⟨hpassed, hsound⟩
    · exact h.accepted other hold
  · exact h.passed
  · exact h.stands

theorem Inv.guards (h : Inv s) (hstep : s.guards i = some t) : Inv t := by
  unfold System.guards at hstep
  split at hstep
  · next pending hpending =>
    dsimp only at hstep
    split at hstep
    · cases hstep
    split at hstep
    · next hok =>
      have hnone := guardWrite_ok.mp hok
      cases hstep
      have hheard : Inv { s with verdicts := ⟨pending.request, true,
          busyOn s.base.db pending.request.server⟩ :: s.verdicts } := by
        apply h.hears
        simp [hnone]
      apply hheard.sets
      · intro _
        exact ⟨_, List.mem_cons_self, rfl, rfl⟩
      · intro _ row hrow
        rw [hnone] at hrow
        cases hrow
    · next fault hfault =>
      have hbusy : busyOn s.base.db pending.request.server ≠ [] := by
        intro hnone
        rw [guardWrite_ok.mpr hnone] at hfault
        cases hfault
      cases hstep
      have hheard : Inv { s with verdicts := ⟨pending.request, false,
          busyOn s.base.db pending.request.server⟩ :: s.verdicts } := by
        apply h.hears
        simp [hbusy]
      exact hheard.erases i
  · cases hstep

theorem Inv.accepts (h : Inv s) {new : NewOperation} {restore : Option Id} {id : Id}
    {now : Timestamp} {row : OperationRow} {next : Option Stage}
    (hpending : pending ∈ s.pending) (hstage : pending.stage ≠ .asks)
    (hinsert : insert new id now s.base.db = .ok (db, row))
    (hserver : new.serverId = pending.request.server)
    (hcopy : ∀ r, restore = some r → new.kind = .backupCreate ∧ new.parentOperationId = some r)
    (halone : pending.raced = false → ∀ other ∈ busyOn s.base.db pending.request.server,
      restore = some other.id)
    (hnext : ∀ stage, next = some stage → stage = .copies id ∧ pending.stage = .admitted) :
    Inv (s.accepts i pending new restore db next) := by
  have hpassed := h.passed pending hpending hstage
  have hrecorded : Inv { s with accepted := ⟨pending.request, new, restore, pending.raced,
      busyOn s.base.db pending.request.server⟩ :: s.accepted } := by
    apply h.records hpassed
    constructor
    · exact halone
    · exact hcopy
    · intro hkind other hother
      exact kind_ne_of_insert hinsert hkind (hserver ▸ hother)
  have hkeeps : Keeps s.base.db { s.base with db }.db := keeps_insert hinsert
  have hseen := hrecorded.sees hkeeps
  cases next with
  | none => exact hseen.erases i
  | some stage =>
    obtain ⟨rfl, hadmitted⟩ := hnext stage rfl
    apply hseen.sets i
    · exact fun _ => hpassed
    intro hcalm other hother
    rcases busyOn_insert hinsert hother with hold | hsame
    · have hfalse := h.stands pending hpending hcalm other hold
      rw [hadmitted] at hfalse
      exact hfalse.elim
    · exact hsame

theorem Inv.creates (h : Inv s) {id : Id} {now : Timestamp}
    (hstep : s.creates i id now = some t) : Inv t := by
  unfold System.creates at hstep
  split at hstep
  · next pending hpending =>
    have hmem := List.mem_of_getElem? hpending
    have hstands := h.stands pending hmem
    split at hstep
    · next new safety gated hstage hrequest =>
      split at hstep
      · next db row hinsert =>
        cases hstep
        have hrow : row = new.row id now := (insert_ok hinsert).2.2
        apply h.accepts hmem (by simp [hstage]) hinsert
        · rw [hrequest]
          rfl
        · exact fun _ hnone => nomatch hnone
        · intro hcalm other hother
          have hfalse := hstands hcalm other hother
          rw [hstage] at hfalse
          exact hfalse.elim
        · intro stage hsome
          obtain ⟨_, -, rfl⟩ := Option.map_eq_some_iff.mp hsome
          rw [hrow]
          exact ⟨rfl, hstage⟩
      · cases hstep
        exact h.erases i
    · next restore new safety gated hstage hrequest =>
      dsimp only at hstep
      split at hstep
      · next db row hinsert =>
        cases hstep
        apply h.accepts hmem (by simp [hstage]) hinsert
        · rw [hrequest]
          rfl
        · intro r hr
          cases hr
          exact ⟨rfl, rfl⟩
        · intro hcalm other hother
          have hsame := hstands hcalm other hother
          rw [hstage] at hsame
          exact congrArg some hsame.symm
        · exact fun _ hnone => nomatch hnone
      · cases hstep
        apply h.sets
        · exact fun _ => h.passed pending hmem (by simp [hstage])
        intro hcalm other hother
        have hsame := hstands hcalm other hother
        rw [hstage] at hsame
        exact hsame
    · next restore _ =>
      cases hstep
      have hseen := h.sees (keeps_step (s := s.base) (e := .cancelled restore now) rfl)
      exact hseen.erases i
    · cases hstep
  · cases hstep

theorem Inv.step (h : Inv s) {e : Event} (hstep : s.step e = some t) : Inv t := by
  cases e with
  | base e =>
    obtain ⟨base, hbase, rfl⟩ := Option.map_eq_some_iff.mp hstep
    exact h.sees (keeps_step hbase)
  | arrives request =>
    cases hstep
    constructor
    · exact h.verdicts
    · exact h.accepted
    · intro pending hpending hstage
      rcases List.mem_append.mp hpending with hold | hnew
      · exact h.passed pending hold hstage
      · rw [List.mem_singleton.mp hnew] at hstage
        exact absurd rfl hstage
    · intro pending hpending
      rcases List.mem_append.mp hpending with hold | hnew
      · exact h.stands pending hold
      · rw [List.mem_singleton.mp hnew]
        exact fun _ _ _ => trivial
  | guards i => exact h.guards hstep
  | creates i id now => exact h.creates hstep
  | gone i =>
    simp only [System.step] at hstep
    split at hstep
    · cases hstep
      exact h.erases i
    · cases hstep

theorem Inv.of_started (hs : s.Started) : Inv s := by
  constructor
  · intro verdict hverdict
    rw [hs.verdicts] at hverdict
    cases hverdict
  · intro accepted haccepted
    rw [hs.accepted] at haccepted
    cases haccepted
  · intro pending hpending
    rw [hs.pending] at hpending
    cases hpending
  · intro pending hpending
    rw [hs.pending] at hpending
    cases hpending

def idle : System where
  base := { db := { servers := ⟨[{ id := 1, ownerId := 2 }], by decide⟩ } }

def restores : List Event :=
  [.arrives (restore 1 (some 2) 5 6), .guards 0, .creates 0 10 0, .creates 0 11 0]

def updates : List Event := [.arrives (update 1 (some 2) 3), .guards 0]

end Steps

end CraftPanel.Ops.Admission
