import Mathlib.Algebra.GroupWithZero.Nat
import CraftPanel.Framework.Checked
import CraftPanel.Framework.Machine
import CraftPanel.Framework.Moving
import CraftPanel.Framework.Table
import CraftPanel.Settings.Failure

/-!
# The memory budget of an owner

`create` and `allocated_mib` of `servers/manager.rs`, `write_startup`, `spoken_for` and
`check_budget` of `api/settings.rs`, for callers who are not administrators. A creation sums, checks
and inserts in one immediate transaction; a startup patch reads its row, sums, checks and writes in
statements of their own. Of the owner's limits only the one for memory is kept.
-/

namespace CraftPanel.Settings.Memory

open Framework

def MIN_MEMORY_MIB : UInt32 := 512

inductive Budget
  | unlimited
  | held (memoryMib : UInt32)

def saturatingAdd (a b : UInt32) : UInt32 := .ofNat (min (a.toNat + b.toNat) (2 ^ 32 - 1))

namespace Budget

def memoryMib : Budget → Option UInt32
  | unlimited => none
  | held limit => some limit

def exceededBy (budget : Budget) (allocated : UInt32) : Bool :=
  budget.memoryMib.any (· < allocated)

def hasRoomFor (budget : Budget) (allocated wanted : UInt32) : Bool :=
  budget.memoryMib.all (saturatingAdd allocated wanted ≤ ·)

end Budget

structure ServerRow where
  id : Id
  ownerId : Id
  status : ServerStatus := .available
  memoryMib : UInt32

structure OwnedServer where
  id : Id
  memoryMib : UInt32

/-- A startup patch on its way: the row it has read, and once it is checked, the memory it is going
to write and the servers it has summed for that, where the patch names a memory. -/
structure Patch where
  server : Id
  ownerId : Id
  memoryMib : UInt32
  wanted : Option UInt32
  planned : Option (UInt32 × List OwnedServer) := none

structure System where
  servers : Table ServerRow.id := Table.empty
  budget : Id → Budget := fun _ => .unlimited
  patches : List Patch := []

inductive Event
  | creates (owner server : Id) (memoryMib : UInt32)
  | deletes (server : Id)
  | reads (server : Id) (wanted : Option UInt32)
  | checks (k : Nat)
  | writes (k : Nat)

def weight (owner : Id) (row : ServerRow) : Nat :=
  if row.ownerId = owner ∧ row.status ≠ .deleting then row.memoryMib.toNat else 0

namespace System

variable (s : System)

/-- `SELECT coalesce(sum(memory_mib), 0) … WHERE owner_id = ? AND status <> 'deleting'`. -/
def total (owner : Id) : Nat := s.servers.sum (weight owner)

def others (owner server : Id) : Nat :=
  s.servers.sum fun row => if row.id = server then 0 else weight owner row

/-- `allocated_mib`: the 64-bit sum, `as u32`. -/
def allocatedMib (owner : Id) : UInt32 := .ofNat (s.total owner)

def ownedServers (owner : Id) : List OwnedServer :=
  (s.servers.select (·.ownerId = owner)).map fun row => ⟨row.id, row.memoryMib⟩

end System

def spokenFor (owned : List OwnedServer) (memoryMib : UInt32) : UInt32 :=
  let allocated := owned.foldl (fun sum server => saturatingAdd sum server.memoryMib) 0
  .ofNat (allocated.toNat - memoryMib.toNat)

def checkBudget (budget : Budget) (owned : List OwnedServer) (memoryMib wanted : UInt32) :
    Except Failure UInt32 := do
  refuse (wanted < MIN_MEMORY_MIB) (.badRequest "memory_too_small"
    s!"a server needs at least {MIN_MEMORY_MIB} MiB")
  match budget.memoryMib with
  | none => .ok wanted
  | some limit => do
    let others := spokenFor owned memoryMib
    refuse (limit < others) (.conflict "over_limit" "this account is already over its memory limit")
    refuse (limit < saturatingAdd others wanted) (.conflict "budget_exceeded"
      s!"{limit} MiB is the whole budget, and {others} MiB of it is spoken for")
    return wanted

/-- The transaction of `create`. -/
def create (s : System) (owner server : Id) (memoryMib : UInt32) : Except Failure System := do
  refuse (memoryMib < MIN_MEMORY_MIB) (.invalidRequest "memory_mib is at least 512")
  let allocated := s.allocatedMib owner
  refuse ((s.budget owner).exceededBy allocated)
    (.conflict "over_limit" "the owner is already over the memory he was given")
  refuse (!(s.budget owner).hasRoomFor allocated memoryMib)
    (.conflict "budget_exceeded" "this server does not fit in the owner's memory budget")
  match s.servers.insert ⟨server, owner, .installing, memoryMib⟩ with
  | none => .error .internal
  | some servers => .ok { s with servers }

namespace System

variable (s : System)

def withStatus (status : ServerStatus) (row : ServerRow) : ServerRow := { row with status }

def withMemory (memoryMib : UInt32) (row : ServerRow) : ServerRow := { row with memoryMib }

theorem withStatus_id (status : ServerStatus) (row : ServerRow) :
    (withStatus status row).id = row.id := rfl

theorem withMemory_id (memoryMib : UInt32) (row : ServerRow) :
    (withMemory memoryMib row).id = row.id := rfl

/-- `seen`: the row of the server, as the patch goes on with it. -/
def reads (server : Id) (wanted : Option UInt32) : System :=
  match s.servers.find? server with
  | none => s
  | some row =>
    { s with patches := s.patches ++ [⟨server, row.ownerId, row.memoryMib, wanted, none⟩] }

def checks (k : Nat) : Option System :=
  match s.patches[k]? with
  | some ⟨server, ownerId, memoryMib, wanted, none⟩ =>
    match wanted with
    | none => some { s with
        patches := s.patches.set k ⟨server, ownerId, memoryMib, wanted, some (memoryMib, [])⟩ }
    | some mib =>
      let owned := s.ownedServers ownerId
      match checkBudget (s.budget ownerId) owned memoryMib mib with
      | .ok mib => some { s with
          patches := s.patches.set k ⟨server, ownerId, memoryMib, wanted, some (mib, owned)⟩ }
      | .error _ => some { s with patches := s.patches.eraseIdx k }
  | _ => none

/-- `UPDATE servers SET …, memory_mib = ?, … WHERE id = ?`. -/
def writes (k : Nat) : Option System :=
  match s.patches[k]? with
  | some ⟨server, _, _, _, some (mib, _)⟩ => some { s with
      servers := s.servers.modify server (withMemory mib) (withMemory_id mib)
      patches := s.patches.eraseIdx k }
  | _ => none

def step : Event → Option System
  | .creates owner server memoryMib => match create s owner server memoryMib with
    | .ok t => some t
    | .error _ => some s
  | .deletes server => some { s with
      servers := s.servers.modify server (withStatus .deleting) (withStatus_id _) }
  | .reads server wanted => some (s.reads server wanted)
  | .checks k => s.checks k
  | .writes k => s.writes k

end System

def machine : Machine System Event := ⟨System.step⟩

def othersRead (owned : List OwnedServer) (server : Id) : Nat :=
  ((owned.filter (·.id ≠ server)).map fun other => other.memoryMib.toNat).sum

def takenRead (owned : List OwnedServer) : Nat :=
  (owned.map fun server => server.memoryMib.toNat).sum

/-- The sums fit in 32 bits; the row of a patch is what it was when the servers are summed; and when
the patch writes, the other servers take no more than was summed, or the server itself no less than
was read if the patch names no memory. -/
def heeds (s : System) : Event → Bool
  | .creates owner _ memoryMib => s.total owner + memoryMib.toNat < 2 ^ 32
  | .checks k => s.patches[k]?.all fun patch => patch.wanted.all fun wanted =>
      let owned := s.ownedServers patch.ownerId
      takenRead owned < 2 ^ 32 && othersRead owned patch.server + wanted.toNat < 2 ^ 32 &&
        (s.servers.find? patch.server).any fun row => row.memoryMib = patch.memoryMib
  | .writes k => s.patches[k]?.all fun patch => patch.planned.all fun planned =>
      if patch.wanted.isNone then
        (s.servers.find? patch.server).all fun row => planned.1 ≤ row.memoryMib
      else s.others patch.ownerId patch.server ≤ othersRead planned.2 patch.server
  | _ => true

theorem toNat_saturatingAdd (a b : UInt32) :
    (saturatingAdd a b).toNat = min (a.toNat + b.toNat) (2 ^ 32 - 1) := by
  unfold saturatingAdd
  rw [UInt32.toNat_ofNat']
  apply Nat.mod_eq_of_lt
  omega

theorem toNat_foldl (owned : List OwnedServer) (sum : UInt32) :
    (owned.foldl (fun sum server => saturatingAdd sum server.memoryMib) sum).toNat =
      min (sum.toNat + takenRead owned) (2 ^ 32 - 1) := by
  induction owned generalizing sum with
  | nil =>
    have := sum.toNat_lt
    simp [takenRead]
    omega
  | cons server owned ih =>
    rw [List.foldl_cons, ih, toNat_saturatingAdd]
    simp only [takenRead, List.map_cons, List.sum_cons]
    omega

theorem toNat_spokenFor (owned : List OwnedServer) (memoryMib : UInt32) :
    (spokenFor owned memoryMib).toNat =
      min (takenRead owned) (2 ^ 32 - 1) - memoryMib.toNat := by
  unfold spokenFor
  simp only [toNat_foldl]
  rw [UInt32.toNat_ofNat']
  simp only [UInt32.toNat_zero, Nat.zero_add]
  apply Nat.mod_eq_of_lt
  omega

theorem allocatedMib_iff (s : System) (owner : Id) :
    (s.allocatedMib owner).toNat = s.total owner ↔ s.total owner < 2 ^ 32 := by
  unfold System.allocatedMib
  rw [UInt32.toNat_ofNat']
  exact Nat.mod_eq_iff_lt (by decide)

section Sums

variable {s : System} {owner server : Id} {row : ServerRow}

theorem sum_filter {α : Type*} (l : List α) (p : α → Bool) (w : α → Nat) :
    ((l.filter p).map w).sum = (l.map fun a => if p a then w a else 0).sum := by
  induction l with
  | nil => rfl
  | cons a l ih =>
    cases hp : p a with
    | true => simp [hp, ih]
    | false => simp [hp, ih]

theorem takenRead_eq (hfind : s.servers.find? server = some row) (howner : row.ownerId = owner) :
    takenRead (s.ownedServers owner) =
      othersRead (s.ownedServers owner) server + row.memoryMib.toNat := by
  have htaken : takenRead (s.ownedServers owner) =
      s.servers.sum fun a => if a.ownerId = owner then a.memoryMib.toNat else 0 := by
    unfold takenRead System.ownedServers Table.select Table.sum
    rw [List.map_map, sum_filter]
    simp
  have hothers : othersRead (s.ownedServers owner) server = s.servers.sum fun a =>
      if a.id = server then 0 else if a.ownerId = owner then a.memoryMib.toNat else 0 := by
    unfold othersRead System.ownedServers Table.select Table.sum
    rw [List.filter_map, List.map_map, List.filter_filter, sum_filter]
    congr 1
    apply List.map_congr_left
    intro a _
    by_cases hid : a.id = server
    · simp [hid]
    · simp [hid]
  rw [htaken, hothers, Table.sum_except hfind, if_pos howner]

theorem total_eq (hfind : s.servers.find? server = some row) :
    s.total owner = s.others owner server + weight owner row := Table.sum_except hfind

theorem weight_withMemory_le (mib : UInt32) : weight owner (System.withMemory mib row) ≤ mib.toNat := by
  unfold weight System.withMemory
  split
  · exact Nat.le_refl _
  · exact Nat.zero_le _

end Sums

/-- What a checked patch is going to write fits into the budget beside the servers it has summed. -/
def Fits (budget : Id → Budget) (patch : Patch) : Prop :=
  ∀ mib owned limit, patch.planned = some (mib, owned) → patch.wanted.isSome →
    budget patch.ownerId = .held limit → othersRead owned patch.server + mib.toNat ≤ limit.toNat

structure Inv (s : System) : Prop where
  row : ∀ patch ∈ s.patches, ∃ row, s.servers.find? patch.server = some row ∧
    row.ownerId = patch.ownerId
  fits : ∀ patch ∈ s.patches, Fits s.budget patch

/-- No owner has come to take more than his budget and more than he took. -/
def Grows (s t : System) : Prop :=
  t.budget = s.budget ∧ ∀ owner limit, s.budget owner = .held limit →
    t.total owner ≤ max limit.toNat (s.total owner)

section Steps

variable {s t : System} {owner server : Id}

theorem Grows.refl (s : System) : Grows s s :=
  ⟨rfl, fun _ _ _ => le_max_right _ _⟩

theorem Grows.trans {u : System} (h : Grows s t) (h' : Grows t u) : Grows s u := by
  refine ⟨h'.1.trans h.1, fun owner limit hlimit => ?_⟩
  have hst := h.2 owner limit hlimit
  have htu := h'.2 owner limit (h.1 ▸ hlimit)
  omega

theorem grows_of_le (hbudget : t.budget = s.budget) (h : ∀ owner, t.total owner ≤ s.total owner) :
    Grows s t := by
  refine ⟨hbudget, fun owner limit _ => ?_⟩
  have := h owner
  omega

theorem Inv.of_rows (h : Inv s) (hbudget : t.budget = s.budget)
    (hpatches : ∀ patch ∈ t.patches, patch ∈ s.patches)
    (hrows : ∀ server row, s.servers.find? server = some row →
      ∃ after, t.servers.find? server = some after ∧ after.ownerId = row.ownerId) : Inv t := by
  constructor
  · intro patch hpatch
    obtain ⟨row, hrow, howner⟩ := h.row patch (hpatches patch hpatch)
    obtain ⟨after, hafter, hsame⟩ := hrows _ _ hrow
    exact ⟨after, hafter, hsame.trans howner⟩
  · intro patch hpatch
    rw [hbudget]
    exact h.fits patch (hpatches patch hpatch)

theorem rows_modify {f : ServerRow → ServerRow} (hf : ∀ r, (f r).id = r.id)
    (howner : ∀ r, (f r).ownerId = r.ownerId) (id : Id) (row : ServerRow)
    (h : s.servers.find? id = some row) :
    ∃ after, (s.servers.modify server f hf).find? id = some after ∧
      after.ownerId = row.ownerId := by
  rw [Table.find?_modify, h]
  by_cases hid : id = server
  · exact ⟨f row, by simp [hid], howner row⟩
  · exact ⟨row, by simp [hid], rfl⟩

theorem create_ok {memoryMib : UInt32} (h : create s owner server memoryMib = .ok t) :
    (s.budget owner).hasRoomFor (s.allocatedMib owner) memoryMib = true ∧
      t.budget = s.budget ∧ t.patches = s.patches ∧
      s.servers.insert ⟨server, owner, .installing, memoryMib⟩ = some t.servers := by
  obtain ⟨-, -, h⟩ := bind_ok.mp h
  obtain ⟨-, -, h⟩ := bind_ok.mp h
  obtain ⟨_, hroom, h⟩ := bind_ok.mp h
  have hroom' := refuse_ok.mp hroom
  split at h
  · cases h
  · next servers hinsert =>
    cases h
    exact ⟨by simpa using hroom', rfl, rfl, hinsert⟩

theorem grows_create {memoryMib : UInt32} (h : create s owner server memoryMib = .ok t)
    (hfits : s.total owner + memoryMib.toNat < 2 ^ 32) : Grows s t := by
  obtain ⟨hroom, hbudget, -, hinsert⟩ := create_ok h
  refine ⟨hbudget, fun other limit hlimit => ?_⟩
  have htotal : t.total other = s.total other + weight other ⟨server, owner, .installing, memoryMib⟩ :=
    Table.sum_insert hinsert
  by_cases hother : owner = other
  · subst hother
    have hallocated := (allocatedMib_iff s owner).mpr (by omega)
    have hle : (saturatingAdd (s.allocatedMib owner) memoryMib).toNat ≤ limit.toNat := by
      rw [hlimit] at hroom
      simpa [Budget.hasRoomFor, Budget.memoryMib, UInt32.le_iff_toNat_le] using hroom
    rw [toNat_saturatingAdd, hallocated] at hle
    have hweight : weight owner ⟨server, owner, .installing, memoryMib⟩ = memoryMib.toNat := by
      simp [weight]
    omega
  · have hweight : weight other ⟨server, owner, .installing, memoryMib⟩ = 0 := by
      simp [weight, hother]
    omega

theorem checkBudget_ok {limit memoryMib wanted mib : UInt32} {owned : List OwnedServer}
    (h : checkBudget (.held limit) owned memoryMib wanted = .ok mib) :
    mib = wanted ∧ saturatingAdd (spokenFor owned memoryMib) wanted ≤ limit := by
  obtain ⟨-, -, h⟩ := bind_ok.mp h
  obtain ⟨-, -, h⟩ := bind_ok.mp h
  obtain ⟨_, hroom, h⟩ := bind_ok.mp h
  exact ⟨(pure_ok.mp h).symm, UInt32.not_lt.mp (refuse_ok.mp hroom)⟩

theorem grows_deletes (hbudget : t.budget = s.budget) (hservers : t.servers =
      s.servers.modify server (System.withStatus .deleting) (System.withStatus_id _)) :
    Grows s t := by
  apply grows_of_le hbudget
  intro owner
  unfold System.total
  rw [hservers, Table.modify, Table.sum_map]
  apply Table.sum_le_sum
  intro row _
  split
  · simp [weight, System.withStatus]
  · exact Nat.le_refl _

theorem grows_withMemory {mib : UInt32} (hfits : ∀ row owner limit,
      s.servers.find? server = some row → row.ownerId = owner → s.budget owner = .held limit →
        s.others owner server + mib.toNat ≤ limit.toNat ∨ mib ≤ row.memoryMib)
    (hbudget : t.budget = s.budget) (hservers : t.servers =
      s.servers.modify server (System.withMemory mib) (System.withMemory_id mib)) :
    Grows s t := by
  refine ⟨hbudget, fun owner limit hlimit => ?_⟩
  rw [show t.total owner = t.servers.sum (weight owner) from rfl, hservers]
  cases hfind : s.servers.find? server with
  | none =>
    rw [Table.sum_modify_of_none hfind]
    exact le_max_right _ _
  | some row =>
    rw [Table.sum_modify hfind]
    show s.others owner server + weight owner (System.withMemory mib row) ≤ _
    have htotal : s.total owner = _ := total_eq hfind
    by_cases howner : row.ownerId = owner
    · rcases hfits row owner limit hfind howner hlimit with hroom | hless
      · have : weight owner (System.withMemory mib row) ≤ mib.toNat := weight_withMemory_le mib
        omega
      have hle : weight owner (System.withMemory mib row) ≤ weight owner row := by
        unfold weight System.withMemory
        have := UInt32.le_iff_toNat_le.mp hless
        split <;> omega
      omega
    · have hnone : weight owner (System.withMemory mib row) = 0 := by
        simp [weight, System.withMemory, howner]
      omega

theorem inv_reads {wanted : Option UInt32} (h : Inv s) : Inv (s.reads server wanted) := by
  unfold System.reads
  cases hfind : s.servers.find? server with
  | none => exact h
  | some row =>
    constructor
    · intro patch hpatch
      rcases List.mem_append.mp hpatch with hold | hnew
      · exact h.row patch hold
      · obtain rfl := List.mem_singleton.mp hnew
        exact ⟨row, hfind, rfl⟩
    · intro patch hpatch
      rcases List.mem_append.mp hpatch with hold | hnew
      · exact h.fits patch hold
      · obtain rfl := List.mem_singleton.mp hnew
        intro mib owned limit hplanned
        cases hplanned

theorem reads_servers {wanted : Option UInt32} :
    (s.reads server wanted).servers = s.servers ∧ (s.reads server wanted).budget = s.budget := by
  unfold System.reads
  split <;> exact ⟨rfl, rfl⟩

theorem inv_plans {k : Nat} {patch : Patch} {planned : UInt32 × List OwnedServer} (h : Inv s)
    (hk : s.patches[k]? = some patch) (hfits : Fits s.budget { patch with planned := some planned }) :
    Inv { s with patches := s.patches.set k { patch with planned := some planned } } := by
  constructor
  · intro other hother
    rcases List.mem_or_eq_of_mem_set hother with hold | rfl
    · exact h.row other hold
    · exact h.row patch (List.mem_of_getElem? hk)
  · intro other hother
    rcases List.mem_or_eq_of_mem_set hother with hold | rfl
    · exact h.fits other hold
    · exact hfits

theorem inv_drops {k : Nat} (h : Inv s) : Inv { s with patches := s.patches.eraseIdx k } :=
  h.of_rows rfl (fun _ hmem => List.mem_of_mem_eraseIdx hmem) fun _ row hrow => ⟨row, hrow, rfl⟩

theorem fits_of_check {patch : Patch} {wanted mib : UInt32} {row : ServerRow}
    (hfind : s.servers.find? patch.server = some row) (howner : row.ownerId = patch.ownerId)
    (hsame : row.memoryMib = patch.memoryMib)
    (htaken : takenRead (s.ownedServers patch.ownerId) < 2 ^ 32)
    (hfits : othersRead (s.ownedServers patch.ownerId) patch.server + wanted.toNat < 2 ^ 32)
    (h : checkBudget (s.budget patch.ownerId) (s.ownedServers patch.ownerId) patch.memoryMib
      wanted = .ok mib) :
    Fits s.budget { patch with planned := some (mib, s.ownedServers patch.ownerId) } := by
  rintro _ _ limit ⟨⟩ - hlimit
  rw [show s.budget patch.ownerId = .held limit from hlimit] at h
  obtain ⟨rfl, hle⟩ := checkBudget_ok h
  have hbound := UInt32.le_iff_toNat_le.mp hle
  rw [toNat_saturatingAdd, toNat_spokenFor] at hbound
  have hsum := takenRead_eq hfind howner
  rw [hsame] at hsum
  show othersRead (s.ownedServers patch.ownerId) patch.server + mib.toNat ≤ limit.toNat
  omega

theorem inv_checks {k : Nat} (h : Inv s) (hheeds : heeds s (.checks k) = true)
    (hstep : s.checks k = some t) : Inv t := by
  unfold System.checks at hstep
  split at hstep
  · next id ownerId memoryMib wanted hk =>
    simp only at hstep
    cases wanted with
    | none =>
      cases hstep
      apply inv_plans h hk
      intro _ _ _ _ hwanted
      cases hwanted
    | some wanted =>
      simp only at hstep
      split at hstep
      · next mib hcheck =>
        cases hstep
        obtain ⟨row, hfind, howner⟩ := h.row _ (List.mem_of_getElem? hk)
        have hcond : (takenRead (s.ownedServers ownerId) < 2 ^ 32 ∧
            othersRead (s.ownedServers ownerId) id + wanted.toNat < 2 ^ 32) ∧
            row.memoryMib = memoryMib := by
          simpa [heeds, hk, hfind] using hheeds
        exact inv_plans h hk (fits_of_check hfind howner hcond.2 hcond.1.1 hcond.1.2 hcheck)
      · cases hstep
        exact inv_drops h
  · cases hstep

theorem checks_servers {k : Nat} (hstep : s.checks k = some t) :
    t.servers = s.servers ∧ t.budget = s.budget := by
  unfold System.checks at hstep
  split at hstep
  · split at hstep
    · cases hstep
      exact ⟨rfl, rfl⟩
    · simp only at hstep
      split at hstep <;> obtain rfl := Option.some.inj hstep <;> exact ⟨rfl, rfl⟩
  · cases hstep

theorem writes_keeps {k : Nat} (h : Inv s) (hheeds : heeds s (.writes k) = true)
    (hstep : s.writes k = some t) : Inv t ∧ Grows s t := by
  unfold System.writes at hstep
  split at hstep
  · next id ownerId memoryMib wanted mib owned hk =>
    cases hstep
    have hmem := List.mem_of_getElem? hk
    obtain ⟨row, hfind, howner⟩ := h.row _ hmem
    have hfits := h.fits _ hmem
    constructor
    · exact h.of_rows rfl (fun _ hin => List.mem_of_mem_eraseIdx hin)
        (rows_modify (System.withMemory_id mib) fun _ => rfl)
    · refine grows_withMemory ?_ rfl rfl
      rintro _ _ limit hrow rfl hlimit
      rw [hfind] at hrow
      cases hrow
      cases wanted with
      | none =>
        right
        simpa [heeds, hk, hfind] using hheeds
      | some wanted =>
        left
        have hothers : s.others ownerId id ≤ othersRead owned id := by
          simpa [heeds, hk] using hheeds
        rw [howner] at hlimit ⊢
        have hroom := hfits mib owned limit rfl rfl hlimit
        simp only at hroom ⊢
        omega
  · cases hstep

theorem step_keeps {e : Event} (h : Inv s) (hheeds : heeds s e = true)
    (hstep : machine.step s e = some t) : Inv t ∧ Grows s t := by
  cases e with
  | creates owner server memoryMib =>
    simp only [machine, System.step] at hstep
    split at hstep
    · next after hcreate =>
      cases hstep
      obtain ⟨-, hbudget, hpatches, hinsert⟩ := create_ok hcreate
      refine ⟨h.of_rows hbudget (fun _ hmem => hpatches ▸ hmem) fun id row hrow => ?_,
        grows_create hcreate (by simpa [heeds] using hheeds)⟩
      exact ⟨row, Table.find?_of_insert hinsert hrow, rfl⟩
    · cases hstep
      exact ⟨h, Grows.refl s⟩
  | deletes server =>
    cases hstep
    exact ⟨h.of_rows rfl (fun _ hmem => hmem) (rows_modify (System.withStatus_id _) fun _ => rfl),
      grows_deletes rfl rfl⟩
  | reads server wanted =>
    cases hstep
    obtain ⟨hservers, hbudget⟩ : (s.reads server wanted).servers = s.servers ∧
        (s.reads server wanted).budget = s.budget := reads_servers
    refine ⟨inv_reads h, grows_of_le hbudget fun owner => ?_⟩
    unfold System.total
    rw [hservers]
  | checks k =>
    obtain ⟨hservers, hbudget⟩ := checks_servers hstep
    refine ⟨inv_checks h hheeds hstep, grows_of_le hbudget fun owner => ?_⟩
    unfold System.total
    rw [hservers]
  | writes k => exact writes_keeps h hheeds hstep

end Steps

theorem spokenFor_iff {s : System} {owner server : Id} {row : ServerRow}
    (hfind : s.servers.find? server = some row) (howner : row.ownerId = owner) :
    (spokenFor (s.ownedServers owner) row.memoryMib).toNat =
        othersRead (s.ownedServers owner) server ↔
      takenRead (s.ownedServers owner) < 2 ^ 32 := by
  have hsum := takenRead_eq hfind howner
  have hlt := row.memoryMib.toNat_lt
  rw [toNat_spokenFor]
  omega

/-- Whatever creations and startup changes interleave, on whatever servers there are: no owner comes
to take more than both his budget and what he took at first, in every run that meets `heeds`; and
the sums of both are the true ones just where they fit in 32 bits. -/
theorem memory_stays_in_budget {s t : System} {es : List Event} (hfresh : s.patches = [])
    (hrun : machine.exec s es = some t) :
    (machine.Meets (fun s e => heeds s e = true) s es → ∀ owner limit,
      s.budget owner = .held limit → t.total owner ≤ max limit.toNat (s.total owner)) ∧
    (∀ owner, (t.allocatedMib owner).toNat = t.total owner ↔ t.total owner < 2 ^ 32) ∧
    ∀ server row, t.servers.find? server = some row →
      ((spokenFor (t.ownedServers row.ownerId) row.memoryMib).toNat =
          othersRead (t.ownedServers row.ownerId) server ↔
        takenRead (t.ownedServers row.ownerId) < 2 ^ 32) := by
  refine ⟨fun hheeds => ?_, allocatedMib_iff t, fun _ _ hfind => spokenFor_iff hfind rfl⟩
  have hstart : Inv s := by
    constructor <;> rw [hfresh] <;> intro patch hpatch <;> cases hpatch
  have hkeeps := machine.invariant (I := fun u => Inv u ∧ Grows s u)
    (fun hu hok hstep =>
      let hnext := step_keeps hu.1 hok hstep
      ⟨hnext.1, hu.2.trans hnext.2⟩) ⟨hstart, Grows.refl s⟩ hheeds hrun
  exact hkeeps.2.2

def panel : System := { budget := fun _ => .held 4096 }

def inTurn : List Event :=
  [.creates 1 10 1024, .creates 1 11 1024, .reads 10 (some 2048), .checks 0, .writes 0,
    .reads 11 (some 2048), .checks 0, .writes 0]

theorem memory_stays_in_budget_in_turn :
    ∃ t, machine.exec panel inTurn = some t ∧ t.total 1 = 4096 ∧
      t.total 1 ≤ max (4096 : UInt32).toNat (panel.total 1) := by
  have hok : machine.Meets (fun s e => heeds s e = true) panel inTurn := by decide +kernel
  have hend : machine.Ends panel inTurn fun t => t.total 1 = 4096 := by decide +kernel
  obtain ⟨t, hrun, htotal⟩ := hend
  exact ⟨t, hrun, htotal, (memory_stays_in_budget rfl hrun).1 hok 1 4096 rfl⟩

/-- Two patches are both checked before either writes. -/
theorem two_patches_exceed_the_budget :
    ¬ ∀ (s t : System) (es : List Event), s.patches = [] → machine.exec s es = some t →
      ∀ owner limit, s.budget owner = .held limit → s.total owner ≤ limit.toNat →
        t.total owner ≤ limit.toNat := by
  intro hall
  have hend : machine.Ends panel [.creates 1 10 1024, .creates 1 11 1024, .reads 10 (some 3072),
      .reads 11 (some 3072), .checks 0, .checks 1, .writes 0, .writes 0]
      fun t => t.total 1 = 6144 := by decide +kernel
  obtain ⟨t, hrun, htotal⟩ := hend
  have hle := hall panel t _ rfl hrun 1 4096 rfl (by decide)
  rw [htotal] at hle
  exact absurd hle (by decide)

end CraftPanel.Settings.Memory
