import Mathlib.Order.Bounds.Basic
import CraftPanel.Settings.Allocations

/-!
# Choosing a port

`next_free_port` of `servers/manager.rs`, and the transactions of `create` statement by statement.
`BEGIN IMMEDIATE` takes the one write lock of the database; what a transaction writes shows when it
commits, and is gone when it ends in any other way.
-/

namespace CraftPanel.Settings.Allocations

open Framework

/-- The ports that stand in `allocations`. -/
def Database.ports (db : Database) : List Port := db.allocations.rows.map AllocationRow.port

def Database.free (db : Database) (pool : PortRange) : Set Port :=
  {port | pool.contains port = true ∧ port ∉ db.ports}

section Walk

variable {start last n port : Nat} {used : List Nat} {db : Database} {pool : PortRange}

theorem firstGap_some (hused : used.Pairwise (· < ·)) (hstart : ∀ p ∈ used, start ≤ p)
    (h : firstGap (List.range' start n) used = some port) :
    IsLeast {p : Nat | start ≤ p ∧ p < start + n ∧ p ∉ used} port := by
  induction n generalizing start used with
  | zero => simp [firstGap] at h
  | succ n ih =>
    rw [List.range'_succ] at h
    cases used with
    | nil =>
      cases h
      exact ⟨by simp, fun p hp => hp.1⟩
    | cons next used =>
      have hrest := List.pairwise_cons.mp hused
      have hnext : start ≤ next := hstart next (by simp)
      by_cases hsame : next = start
      · rw [firstGap, if_pos hsame] at h
        have hafter : ∀ p ∈ used, start + 1 ≤ p := by
          intro p hp
          have := hrest.1 p hp
          omega
        obtain ⟨hin, hleast⟩ := ih hrest.2 hafter h
        simp only [Set.mem_ofPred_eq] at hin
        constructor
        · simp only [Set.mem_ofPred_eq, List.mem_cons, not_or]
          exact ⟨by omega, by omega, by omega, hin.2.2⟩
        · intro p hp
          simp only [Set.mem_ofPred_eq, List.mem_cons, not_or] at hp
          exact hleast ⟨by omega, by omega, hp.2.2.2⟩
      · rw [firstGap, if_neg hsame] at h
        cases h
        constructor
        · simp only [Set.mem_ofPred_eq, List.mem_cons, not_or]
          refine ⟨by omega, by omega, by omega, ?_⟩
          intro hmem
          have := hrest.1 _ hmem
          omega
        · exact fun p hp => hp.1

theorem firstGap_none (hused : used.Pairwise (· < ·)) (hstart : ∀ p ∈ used, start ≤ p)
    (h : firstGap (List.range' start n) used = none) :
    ∀ p, start ≤ p → p < start + n → p ∈ used := by
  induction n generalizing start used with
  | zero => omega
  | succ n ih =>
    rw [List.range'_succ] at h
    cases used with
    | nil => simp [firstGap] at h
    | cons next used =>
      have hrest := List.pairwise_cons.mp hused
      by_cases hsame : next = start
      · rw [firstGap, if_pos hsame] at h
        have hafter : ∀ p ∈ used, start + 1 ≤ p := by
          intro p hp
          have := hrest.1 p hp
          omega
        intro p hlow hhigh
        by_cases hp : p = next
        · simp [hp]
        · exact List.mem_cons_of_mem _ (ih hrest.2 hafter h p (by omega) (by omega))
      · rw [firstGap, if_neg hsame] at h
        cases h

def takenPorts (db : Database) (pool : PortRange) : List Port :=
  ((db.allocations.select fun row => pool.contains row.port).map AllocationRow.port).insertionSort
    (· ≤ ·)

theorem mem_takenPorts : port ∈ takenPorts db pool ↔ port ∈ db.ports ∧ pool.contains port = true := by
  simp only [takenPorts, List.mem_insertionSort, List.mem_map, Table.select, List.mem_filter,
    Database.ports]
  constructor
  · rintro ⟨row, ⟨hrow, hin⟩, rfl⟩
    exact ⟨⟨row, hrow, rfl⟩, hin⟩
  · rintro ⟨⟨row, hrow, rfl⟩, hin⟩
    exact ⟨row, ⟨hrow, hin⟩, rfl⟩

theorem takenPorts_ascending : (takenPorts db pool).Pairwise (· < ·) := by
  have hsorted : (takenPorts db pool).Pairwise (· ≤ ·) := List.pairwise_insertionSort _ _
  have hnodup : (takenPorts db pool).Nodup := by
    apply (List.perm_insertionSort _ _).nodup_iff.mpr
    exact db.allocations.unique.sublist (List.filter_sublist.map _)
  apply (hsorted.and hnodup).imp
  intro a b ⟨hle, hne⟩
  exact Nat.lt_of_le_of_ne hle hne

theorem contains_iff : (PortRange.mk start last).contains port = true ↔
    start ≤ port ∧ port ≤ last := by
  simp [PortRange.contains]

theorem lt_of_contains (h : start ≤ port ∧ port ≤ last) : port < start + (last + 1 - start) := by
  omega

theorem nextFreePort_eq : nextFreePort db pool = match firstGap pool.ports (takenPorts db pool) with
    | some port => .ok port
    | none => .error (.conflict "port_pool_exhausted" "the port pool has nothing free left") := rfl

theorem takenPorts_start : ∀ p ∈ takenPorts db ⟨start, last⟩, start ≤ p := fun _ hp =>
  (contains_iff.mp (mem_takenPorts.mp hp).2).1

theorem free_eq : db.free ⟨start, last⟩ = {p : Nat | start ≤ p ∧
    p < start + (last + 1 - start) ∧ p ∉ takenPorts db ⟨start, last⟩} := by
  ext p
  simp only [Database.free, Set.mem_ofPred_eq, mem_takenPorts, contains_iff]
  constructor
  · rintro ⟨hin, hfree⟩
    exact ⟨hin.1, by omega, fun htaken => hfree htaken.1⟩
  · rintro ⟨hlow, hhigh, hfree⟩
    exact ⟨⟨hlow, by omega⟩, fun hheld => hfree ⟨hheld, hlow, by omega⟩⟩

theorem nextFreePort_ok : nextFreePort db pool = .ok port ↔ IsLeast (db.free pool) port := by
  obtain ⟨start, last⟩ := pool
  rw [nextFreePort_eq, free_eq]
  cases h : firstGap (PortRange.mk start last).ports (takenPorts db ⟨start, last⟩) with
  | some found =>
    have hleast := firstGap_some takenPorts_ascending takenPorts_start h
    constructor
    · intro hok
      cases hok
      exact hleast
    · intro hport
      exact congrArg Except.ok (hleast.unique hport)
  | none =>
    have hall := firstGap_none takenPorts_ascending takenPorts_start h
    constructor
    · intro hok
      cases hok
    · intro hport
      exact absurd (hall port hport.1.1 hport.1.2.1) hport.1.2.2

theorem nextFreePort_error : (∃ e, nextFreePort db pool = .error e) ↔
    ∀ port, pool.contains port = true → port ∈ db.ports := by
  obtain ⟨start, last⟩ := pool
  constructor
  · rintro ⟨e, herror⟩ port hin
    cases h : firstGap (PortRange.mk start last).ports (takenPorts db ⟨start, last⟩) with
    | some found => simp [nextFreePort_eq, h] at herror
    | none =>
      have hbounds := contains_iff.mp hin
      exact (mem_takenPorts.mp (firstGap_none takenPorts_ascending takenPorts_start h port
        hbounds.1 (lt_of_contains hbounds))).1
  · intro hall
    cases h : nextFreePort db ⟨start, last⟩ with
    | error e => exact ⟨e, rfl⟩
    | ok port =>
      have hfree := (nextFreePort_ok.mp h).1
      exact absurd (hall port hfree.1) hfree.2

end Walk

namespace Choosing

inductive Phase
  | waiting
  | begun
  | chosen (port : Port)
  | listed (port : Port)
  | allotted (port : Port)
  | committed (port : Port)
  | failed
  deriving DecidableEq

structure Creation where
  server : Id
  wish : Option Port := none
  phase : Phase := .waiting
  deriving DecidableEq

/-- The creation that has the write lock, and the database as it sees it. -/
structure Writing where
  creation : Nat
  draft : Database

/-- `given` are the ports that committed creations came out with, the first one first. -/
structure System where
  db : Database := {}
  pool : PortRange
  creations : List Creation := []
  writing : Option Writing := none
  given : List (Id × Port) := []

inductive Event
  | asks (server : Id) (wish : Option Port)
  /-- The settings take another pool. -/
  | sets (pool : PortRange)
  | begins (i : Nat)
  | chooses (i : Nat)
  | lists (i : Nat)
  | allots (i : Nat)
  | commits (i : Nat)
  /-- The transaction is dropped: the budget is exceeded, a statement fails, or the panel stops. -/
  | drops (i : Nat)

namespace System

variable (s : System)

def moves (i : Nat) (phase : Phase) (writing : Option Writing) : System :=
  { s with creations := s.creations.modify i fun creation => { creation with phase }, writing }

/-- The creation whose turn it is, which holds the lock in the phase asked for. -/
def holds (i : Nat) : Option (Creation × Database) :=
  match s.creations[i]?, s.writing with
  | some creation, some writing =>
    if writing.creation = i then some (creation, writing.draft) else none
  | _, _ => none

def writes {ε : Type} (i : Nat) (next : Phase) (outcome : Except ε Database) : System :=
  match outcome with
  | .ok draft => s.moves i next (some ⟨i, draft⟩)
  | .error _ => s.moves i .failed none

def step : Event → Option System
  | .asks server wish => some { s with creations := s.creations ++ [{ server, wish }] }
  | .sets pool => if s.writing.isNone then some { s with pool } else none
  | .begins i => match s.creations[i]?, s.writing with
    | some { phase := .waiting, .. }, none => some (s.moves i .begun (some ⟨i, s.db⟩))
    | _, _ => none
  | .chooses i => match s.holds i with
    | some ({ phase := .begun, wish, .. }, draft) =>
      match wish.elim (nextFreePort draft s.pool) .ok with
      | .ok port => some (s.moves i (.chosen port) (some ⟨i, draft⟩))
      | .error _ => some (s.moves i .failed none)
    | _ => none
  | .lists i => match s.holds i with
    | some ({ phase := .chosen port, server, .. }, draft) =>
      some (s.writes i (.listed port) (draft.insertServer { id := server }))
    | _ => none
  | .allots i => match s.holds i with
    | some ({ phase := .listed port, server, .. }, draft) =>
      some (s.writes i (.allotted port) (draft.insertAllocation
        { port, serverId := server, name := "primary".toList, isPrimary := true }))
    | _ => none
  | .commits i => match s.holds i with
    | some ({ phase := .allotted port, server, .. }, draft) =>
      some { s.moves i (.committed port) none with
        db := draft
        given := s.given ++ [(server, port)] }
    | _ => none
  | .drops i => match s.holds i with
    | some _ => some (s.moves i .failed none)
    | none => none

end System

def machine : Machine System Event := ⟨System.step⟩

def started (db : Database) (pool : PortRange) : System := { db, pool }

/-- The phase of the creation that holds the lock, against what it has written. -/
def Drafted (db draft : Database) (creation : Creation) : Prop :=
  match creation.phase with
  | .begun => draft = db
  | .chosen port => draft = db ∧ (creation.wish = none → port ∉ db.ports)
  | .listed port => draft.ports = db.ports ∧ (creation.wish = none → port ∉ db.ports)
  | .allotted port => draft.ports = db.ports ++ [port]
  | _ => False

structure Inv (start : Database) (s : System) : Prop where
  ports : s.db.ports = start.ports ++ s.given.map Prod.snd
  drafted : ∀ writing, s.writing = some writing → ∃ creation,
    s.creations[writing.creation]? = some creation ∧ Drafted s.db writing.draft creation

section Turns

variable {start : Database} {s t : System} {i : Nat} {e : Event} {creation : Creation}
  {draft : Database} {port : Port}

theorem insertServer_ports {row : ServerRow} {db after : Database}
    (h : db.insertServer row = .ok after) : after.ports = db.ports := by
  rw [Database.ports, (insertServer_ok h).2, Database.ports]

theorem insertAllocation_ports {row : AllocationRow} {db after : Database}
    (h : db.insertAllocation row = .ok after) : after.ports = db.ports ++ [row.port] := by
  rw [Database.ports, Table.rows_of_insert (insertAllocation_ok h).2, List.map_append]
  rfl

theorem holds_some (h : s.holds i = some (creation, draft)) :
    s.creations[i]? = some creation ∧ s.writing = some ⟨i, draft⟩ := by
  unfold System.holds at h
  split at h
  · next found writing hfound hwriting =>
    split at h
    · next hsame =>
      cases h
      subst hsame
      exact ⟨hfound, hwriting⟩
    · cases h
  · cases h

theorem Inv.moves (h : Inv start s) (hcreation : s.creations[i]? = some creation) {next : Phase}
    (hdrafted : Drafted s.db draft { creation with phase := next }) :
    Inv start (s.moves i next (some ⟨i, draft⟩)) where
  ports := h.ports
  drafted := by
    intro writing hwriting
    cases hwriting
    exact ⟨_, by simp [System.moves, hcreation], hdrafted⟩

theorem Inv.released (h : Inv start s) (next : Phase) : Inv start (s.moves i next none) where
  ports := h.ports
  drafted := by
    intro writing hwriting
    cases hwriting

theorem Inv.held (h : Inv start s) (hholds : s.holds i = some (creation, draft)) :
    s.creations[i]? = some creation ∧ Drafted s.db draft creation := by
  obtain ⟨hcreation, hwriting⟩ := holds_some hholds
  obtain ⟨found, hfound, hdrafted⟩ := h.drafted _ hwriting
  obtain rfl := Option.some.inj (hcreation.symm.trans hfound)
  exact ⟨hcreation, hdrafted⟩

theorem Inv.writes {ε : Type} {outcome : Except ε Database} {next : Phase} (h : Inv start s)
    (hcreation : s.creations[i]? = some creation)
    (hdrafted : ∀ after, outcome = .ok after →
      Drafted s.db after { creation with phase := next }) :
    Inv start (s.writes i next outcome) := by
  cases houtcome : outcome with
  | ok after => exact h.moves hcreation (hdrafted after houtcome)
  | error e => exact h.released .failed

theorem Inv.step (h : Inv start s) (hstep : machine.step s e = some t) : Inv start t := by
  cases e with
  | asks server wish =>
    cases hstep
    refine ⟨h.ports, fun writing hwriting => ?_⟩
    obtain ⟨creation, hcreation, hdrafted⟩ := h.drafted writing hwriting
    have hlt := (List.getElem?_eq_some_iff.mp hcreation).1
    exact ⟨creation, by simpa [List.getElem?_append_left hlt] using hcreation, hdrafted⟩
  | sets pool =>
    simp only [machine, System.step] at hstep
    split at hstep
    · cases hstep
      exact ⟨h.ports, h.drafted⟩
    · cases hstep
  | begins i =>
    simp only [machine, System.step] at hstep
    split at hstep
    · next hcreation hwriting =>
      cases hstep
      exact h.moves hcreation rfl
    · cases hstep
  | chooses i =>
    simp only [machine, System.step] at hstep
    split at hstep
    · next server wish draft hholds =>
      obtain ⟨hcreation, hdrafted⟩ := h.held hholds
      obtain rfl : draft = s.db := hdrafted
      cases hport : wish.elim (nextFreePort s.db s.pool) .ok with
      | error e =>
        simp only [hport, Option.some.injEq] at hstep
        rw [← hstep]
        exact h.released .failed
      | ok port =>
        simp only [hport, Option.some.injEq] at hstep
        rw [← hstep]
        apply h.moves hcreation
        refine ⟨rfl, fun hwish => ?_⟩
        have hnone : wish = none := hwish
        rw [hnone] at hport
        exact (nextFreePort_ok.mp hport).1.2
    · cases hstep
  | lists i =>
    simp only [machine, System.step] at hstep
    split at hstep
    · next server wish port draft hholds =>
      obtain ⟨hcreation, hdraft, hfree⟩ := h.held hholds
      cases hstep
      apply h.writes hcreation
      intro after hafter
      exact ⟨(insertServer_ports hafter).trans (congrArg Database.ports hdraft), hfree⟩
    · cases hstep
  | allots i =>
    simp only [machine, System.step] at hstep
    split at hstep
    · next server wish port draft hholds =>
      obtain ⟨hcreation, hdraft, hfree⟩ := h.held hholds
      cases hstep
      apply h.writes hcreation
      intro after hafter
      have hports := insertAllocation_ports hafter
      rw [hdraft] at hports
      exact hports
    · cases hstep
  | commits i =>
    simp only [machine, System.step] at hstep
    split at hstep
    · next server wish port draft hholds =>
      obtain ⟨hcreation, hdraft⟩ := h.held hholds
      have hports : draft.ports = s.db.ports ++ [port] := hdraft
      cases hstep
      constructor
      · simp [hports, h.ports]
      · intro writing hwriting
        cases hwriting
    · cases hstep
  | drops i =>
    simp only [machine, System.step] at hstep
    split at hstep
    · cases hstep
      exact h.released .failed
    · cases hstep

theorem inv_started (db : Database) (pool : PortRange) : Inv db (started db pool) where
  ports := by simp [started]
  drafted := by
    intro writing hwriting
    cases hwriting

end Turns

/-- `next_free_port` gives the least free port of the pool, and fails exactly where there is none.
Whatever creations interleave, the ports they come out with are different ones, none of them held
before; and a port that was chosen is still free when the row is inserted. -/
theorem ports_are_chosen :
    (∀ (db : Database) (pool : PortRange),
      (∀ port, nextFreePort db pool = .ok port ↔ IsLeast (db.free pool) port) ∧
      ((∃ e, nextFreePort db pool = .error e) ↔
        ∀ port, pool.contains port = true → port ∈ db.ports)) ∧
    ∀ (db : Database) (pool : PortRange) (events : List Event) (s : System),
      machine.exec (started db pool) events = some s →
      (s.given.map Prod.snd).Nodup ∧ (∀ given ∈ s.given, given.2 ∉ db.ports) ∧
      ∀ i creation draft port, s.holds i = some (creation, draft) →
        creation.phase = .listed port → creation.wish = none → port ∉ draft.ports := by
  refine ⟨fun db pool => ⟨fun port => nextFreePort_ok, nextFreePort_error⟩, ?_⟩
  intro db pool events s hrun
  have hinv : Inv db s := machine.always (fun h hstep => h.step hstep) (inv_started db pool) hrun
  have hnodup : (db.ports ++ s.given.map Prod.snd).Nodup := by
    rw [← hinv.ports]
    exact s.db.allocations.unique
  obtain ⟨-, hgiven, hapart⟩ := List.nodup_append.mp hnodup
  refine ⟨hgiven, ?_, ?_⟩
  · intro given hmem hheld
    exact hapart given.2 hheld given.2 (List.mem_map_of_mem hmem) rfl
  intro i creation draft port hholds hphase hwish
  have hdrafted := (hinv.held hholds).2
  rw [Drafted, hphase] at hdrafted
  rw [hdrafted.1]
  exact hdrafted.2 hwish

/-- Two creations at the upper border, the second of which begins once the first has committed. -/
def bordering : List Event :=
  [.asks 1 none, .asks 2 none, .begins 0, .chooses 0, .lists 0, .allots 0, .commits 0, .begins 1,
    .chooses 1, .lists 1]

theorem ports_are_chosen_bordering :
    ∃ s, machine.exec (started {} ⟨65534, 65535⟩) bordering = some s ∧
      s.given = [(1, 65534)] ∧ (s.given.map Prod.snd).Nodup ∧
      ∃ creation draft, s.holds 1 = some (creation, draft) ∧ 65535 ∉ draft.ports := by
  obtain ⟨s, hrun, hgiven, hsome⟩ : machine.Ends (started {} ⟨65534, 65535⟩) bordering fun s =>
      s.given = [(1, 65534)] ∧ (s.holds 1).map Prod.fst = some ⟨2, none, .listed 65535⟩ := by
    decide +kernel
  obtain ⟨⟨creation, draft⟩, hholds, hcreation⟩ := Option.map_eq_some_iff.mp hsome
  obtain rfl : creation = ⟨2, none, .listed 65535⟩ := hcreation
  have hall := ports_are_chosen.2 {} ⟨65534, 65535⟩ bordering s hrun
  exact ⟨s, hrun, hgiven, hall.1, _, draft, hholds, hall.2.2 1 _ draft 65535 hholds rfl rfl⟩

end Choosing

end CraftPanel.Settings.Allocations
