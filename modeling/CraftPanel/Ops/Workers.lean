import CraftPanel.Ops.Settling

/-!
# Acting workers

`begin` counts rows that are ongoing, not tasks that act. The two agree as long as no run is
begun beside a task whose row was settled under it: then a server has one acting worker at most,
and the panel never more of a kind than its width.
-/

namespace CraftPanel.Ops

open Framework

namespace System

variable (s : System)

def isOngoingAt (id : Id) : Bool := (s.db.operations.find? id).any isOngoing

def leftovers : List Worker := s.workers.filter fun w => !s.isOngoingAt w.id

def width : Nat := s.db.settings.maxConcurrentOperations

end System

/-- At most one worker acts on a server, and at most the panel's width of them on one kind. -/
structure Exclusive (s : System) : Prop where
  server : ∀ server, s.workers.countP (·.server = server) ≤ 1
  kind : ∀ kind, s.workers.countP (·.kind = kind) ≤ s.width

/-- The leftover tasks leave room for the row: none on its server, and with those of its kind the
ongoing runs still do not fill the width. -/
def LeaveRoom (s : System) (row : OperationRow) : Prop :=
  (∀ w ∈ s.leftovers, w.server ≠ row.serverId) ∧
    s.leftovers.countP (·.kind = row.kind) + s.db.operations.count isOngoing < s.width

def BeginsInRoom (s : System) : Event → Prop
  | .begin id _ => ∀ row ∈ s.db.operations.find? id, mayBegin s.db row → LeaveRoom s row
  | _ => True

instance (s : System) (row : OperationRow) : Decidable (LeaveRoom s row) :=
  inferInstanceAs (Decidable (_ ∧ _))

instance (s : System) : ∀ e, Decidable (BeginsInRoom s e)
  | .begin id _ =>
    inferInstanceAs (Decidable (∀ row ∈ s.db.operations.find? id, mayBegin s.db row → _))
  | .create .. | .advance .. | .finish .. | .fail .. | .cancelled .. | .requestCancel _
  | .returns _ | .cancelReads _ | .retryReads .. | .handlerMoves .. | .sweepReadsStalled _
  | .sweepReadsUnpaid _ | .sweepSettles _ | .recoveryReads | .recoveryMoves _ => isTrue trivial

/-- Each worker acts on a row of its own, of the server and the kind it was begun with. -/
structure Tracked (s : System) : Prop where
  distinct : (s.workers.map (·.id)).Nodup
  rows : ∀ w ∈ s.workers, ∃ row, s.db.operations.find? w.id = some row ∧
    row.serverId = w.server ∧ row.kind = w.kind
  exclusive : Exclusive s

section Steps

variable {s t : System} {e : Event}

theorem countP_workers_le (h : Tracked s) (p : Worker → Bool) :
    s.workers.countP p ≤ s.leftovers.countP p + s.db.operations.count isOngoing := by
  have hsplit : s.workers.countP p = s.leftovers.countP p +
      (s.workers.filter fun w => s.isOngoingAt w.id).countP p := by
    unfold System.leftovers
    generalize s.workers = workers
    induction workers with
    | nil => rfl
    | cons w workers ih =>
      by_cases hw : s.isOngoingAt w.id = true
      · simp [hw, List.countP_cons, ih]
        omega
      · simp [hw, List.countP_cons, ih]
        omega
  have hongoing : ((s.workers.filter fun w => s.isOngoingAt w.id).map (·.id)).length ≤
      s.db.operations.count isOngoing := by
    refine Table.length_le_count (h.distinct.sublist (List.filter_sublist.map _)) ?_
    intro id hid
    obtain ⟨w, hw, rfl⟩ := List.mem_map.mp hid
    have hongoing := (List.mem_filter.mp hw).2
    cases hrow : s.db.operations.find? w.id with
    | none => simp [System.isOngoingAt, hrow] at hongoing
    | some row => exact ⟨row, rfl, by simpa [System.isOngoingAt, hrow] using hongoing⟩
  have hle := List.countP_le_length (p := p) (l := s.workers.filter fun w => s.isOngoingAt w.id)
  rw [List.length_map] at hongoing
  omega

theorem no_worker_on_server {row : OperationRow} (hmay : mayBegin s.db row)
    (hroom : LeaveRoom s row) (htracked : Tracked s) : s.workers.countP (·.server = row.serverId) = 0 := by
  rw [List.countP_eq_zero]
  intro w hw
  simp only [decide_eq_true_eq]
  intro hserver
  by_cases hongoing : s.isOngoingAt w.id = true
  · obtain ⟨old, hold, hold', -⟩ := htracked.rows w hw
    have hzero := Table.count_eq_zero.mp hmay.2.2.1 old (Table.find?_mem hold)
    simp [System.isOngoingAt, hold] at hongoing
    simp [hold', hserver, hongoing] at hzero
  · exact hroom.1 w (List.mem_filter.mpr ⟨hw, by simpa using hongoing⟩) hserver

theorem tracked_begin {id : Id} {now : Timestamp} (htracked : Tracked s)
    (hok : BeginsInRoom s (.begin id now)) (h : s.step (.begin id now) = some t) : Tracked t := by
  have hrows : ∀ w ∈ s.workers, ∃ row, t.db.operations.find? w.id = some row ∧
      row.serverId = w.server ∧ row.kind = w.kind := by
    intro w hw
    obtain ⟨row, hrow, hserver, hkind⟩ := htracked.rows w hw
    obtain ⟨row', hrow', hserver', hkind', -⟩ := rowAfter_step h hrow
    exact ⟨row', hrow', hserver'.trans hserver, hkind'.trans hkind⟩
  simp only [System.step] at h
  cases htx : begin id now s.db with
  | error fault =>
    simp only [htx, Option.some.injEq] at h
    exact h ▸ htracked
  | ok answer =>
    obtain ⟨db', started⟩ := answer
    rcases begin_ok htx with ⟨rfl, rfl⟩ | ⟨old, hold, hmay, rfl, hsettings, hfind⟩
    · simp only [htx, Option.some.injEq] at h
      exact h ▸ htracked
    have hroom := hok old hold hmay
    have hkey : old.id = id := Table.find?_key hold
    simp only [htx, Option.some.injEq] at h
    subst h
    have hbegun : begunRow now old =
        { old with state := .ongoing, startedAt := some now, progressedAt := some now } := by
      simp [begunRow, hmay.1]
    refine ⟨?_, ?_, fun server => ?_, fun kind => ?_⟩
    · rw [List.map_cons, List.nodup_cons]
      refine ⟨fun hmem => ?_, htracked.distinct⟩
      -- a worker of the same row would be a leftover on its own server
      obtain ⟨w, hw, hid⟩ := List.mem_map.mp hmem
      obtain ⟨row, hrow, hserver, -⟩ := htracked.rows w hw
      obtain rfl : row = old := by
        rw [hid, hbegun] at hrow
        simpa [hkey, hold] using hrow.symm
      have hzero := no_worker_on_server hmay hroom htracked
      exact List.countP_eq_zero.mp hzero w hw (by simp [hserver])
    · intro w hw
      rcases List.mem_cons.mp hw with rfl | hw
      · exact ⟨begunRow now old, by simp [hbegun, hkey, hfind, hold], rfl, rfl⟩
      · exact hrows w hw
    · rw [List.countP_cons]
      by_cases hserver : (begunRow now old).serverId = server
      · have hzero := no_worker_on_server hmay hroom htracked
        have hserver' : old.serverId = server := by simpa [hbegun] using hserver
        simp [hserver, ← hserver', hzero]
      · simpa [hserver] using htracked.exclusive.server server
    have hwidth : db'.settings.maxConcurrentOperations = s.width := by
      rw [hsettings, System.width]
    rw [List.countP_cons, System.width, hwidth]
    by_cases hkind : (begunRow now old).kind = kind
    · have hkind' : old.kind = kind := by simpa [hbegun] using hkind
      have hle := countP_workers_le htracked (·.kind = kind)
      have hlt := hroom.2
      rw [hkind'] at hlt
      simp only [hkind, decide_true, if_true]
      omega
    · simpa [hkind] using htracked.exclusive.kind kind

theorem tracked_step (htracked : Tracked s) (hok : BeginsInRoom s e) (h : s.step e = some t) :
    Tracked t := by
  by_cases hbegin : ∃ id now, e = .begin id now
  · obtain ⟨id, now, rfl⟩ := hbegin
    exact tracked_begin htracked hok h
  obtain ⟨hsub, hsettings⟩ := workers_step h fun id now he => hbegin ⟨id, now, he⟩
  have hwidth : t.width = s.width := by rw [System.width, System.width, hsettings]
  refine ⟨htracked.distinct.sublist (hsub.map _), fun w hw => ?_,
    fun server => Nat.le_trans hsub.countP_le (htracked.exclusive.server server),
    fun kind => hwidth ▸ Nat.le_trans hsub.countP_le (htracked.exclusive.kind kind)⟩
  obtain ⟨row, hrow, hserver, hkind⟩ := htracked.rows w (hsub.subset hw)
  obtain ⟨row', hrow', hserver', hkind', -⟩ := rowAfter_step h hrow
  exact ⟨row', hrow', hserver'.trans hserver, hkind'.trans hkind⟩

end Steps

theorem tracked_of_no_workers {s : System} (h : s.workers = []) : Tracked s :=
  ⟨by simp [h], by simp [h], by simp [h], by simp [h]⟩

/-- As long as no run is begun where a task of a settled run takes its room, the acting workers
exclude each other on a server and stay within the width, over all orders of statements. -/
theorem acting_workers_exclusive {s t : System} {es : List Event} (hs : s.workers = [])
    (hok : machine.Meets BeginsInRoom s es) (hrun : machine.exec s es = some t) : Exclusive t :=
  (machine.invariant tracked_step (tracked_of_no_workers hs) hok hrun).exclusive

theorem acting_workers_exclusive_serial :
    machine.Ends { db := oneServer } serialRun Exclusive := by
  have hok : machine.Meets BeginsInRoom { db := oneServer } serialRun := by decide
  exact ⟨_, rfl, acting_workers_exclusive rfl hok rfl⟩

/-- The sweep settles a run whose worker still acts, and the next run of the same server begins. -/
theorem swept_worker_is_joined :
    ¬ ∀ (db : Database) (es : List Event) (t : System),
      machine.exec { db } es = some t → Exclusive t := by
  intro hall
  have hboth := (hall oneServer (sweptRun ++ [.create contentRun 8 1200002, .begin 8 1200003]) _
    rfl).server 1
  exact absurd hboth (by decide)

end CraftPanel.Ops
