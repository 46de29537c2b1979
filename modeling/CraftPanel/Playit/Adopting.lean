import Mathlib.Data.List.Sort
import CraftPanel.Model

/-!
# The panel-wide key

`adopt` and `heir` of `playit/legacy.rs`, as `pick_up` runs them at every start, with the rows and
the key directories they move, and the starts that stop in between.
-/

namespace CraftPanel.Playit

abbrev Key := String

structure User where
  id : Id
  isAdmin : Bool
  createdAt : Timestamp

/-- The columns that `playit_account` and `playit_accounts` have in common. -/
structure Account where
  agentId : Option String := none
  accountStatus : Option String := none
  isSelfManaged : Bool := false
  hasPremium : Bool := false
  claimCode : Option String := none
  claimState : Option String := none
  claimStartedAt : Option Timestamp := none
  checkedAt : Option Timestamp := none
  lastError : Option String := none

/-- `made` is history: the key that the tunnel was made with, and can be handed back with. -/
structure Tunnel where
  serverId : Id
  userId : Id
  made : Key
  deriving DecidableEq

/-- A row of `playit_released`. -/
structure Debt where
  tunnelId : String
  userId : Id
  made : Key

structure Directory where
  mode : Nat
  secret : Option Key := none

/-- `ownerOf` is the column of `servers`; `secret` and `socket` are the files beside the directories
of the users. -/
structure System where
  users : List User
  ownerOf : Id → Option Id
  account : Option Account
  accounts : Id → Option (Account × Timestamp) := fun _ => none
  tunnels : List Tunnel
  released : List Debt
  secret : Option Key
  socket : Bool
  directories : Id → Option Directory := fun _ => none

structure Adopted where
  admin : Id
  tunnels : Nat

namespace System

variable (s : System)

def isAdmin (id : Id) : Bool := s.users.any fun user => user.id = id && user.isAdmin

/-- `ORDER BY created_at, id LIMIT 1`. -/
def oldestAdmin : Option Id :=
  (((s.users.filter (·.isAdmin)).insertionSort fun a b =>
    a.createdAt < b.createdAt ∨ a.createdAt = b.createdAt ∧ a.id ≤ b.id).head?).map (·.id)

/-- The heir, and whether the tunnels say so. -/
def heir : Option (Id × Bool) :=
  let oldest := s.oldestAdmin.map fun admin => (admin, false)
  match (s.tunnels.filterMap fun tunnel => s.ownerOf tunnel.serverId).dedup with
  | [owner] => if s.isAdmin owner then some (owner, true) else oldest
  | _ => oldest

def keyOf (id : Id) : Option Key := (s.directories id).bind (·.secret)

def adoptAccount (admin : Id) (now : Timestamp) : System :=
  match s.account with
  | none => s
  | some account => { s with accounts := Function.update s.accounts admin (some (account, now)) }

def adoptTunnels (admin : Id) : System :=
  { s with tunnels := s.tunnels.map fun tunnel => { tunnel with userId := admin } }

def adoptReleased (admin : Id) : System :=
  { s with released := s.released.map fun debt => { debt with userId := admin } }

/-- `create_dir_all`, with what the umask leaves. -/
def makeDirectory (admin : Id) : System :=
  match s.directories admin with
  | some _ => s
  | none => { s with directories := Function.update s.directories admin (some { mode := 0o755 }) }

def setMode (admin : Id) : System :=
  { s with
    directories := Function.update s.directories admin
      ((s.directories admin).map fun directory => { directory with mode := 0o700 }) }

def renameKey (admin : Id) : System :=
  { s with
    secret := none
    directories := Function.update s.directories admin
      ((s.directories admin).map fun directory => { directory with secret := s.secret }) }

def removeSocket : System := { s with socket := false }

end System

/-- What follows the checks of `adopt`, one statement or one call after the other. -/
def steps (admin : Id) (now : Timestamp) : List (System → System) :=
  [(·.adoptAccount admin now), (·.adoptTunnels admin), (·.adoptReleased admin),
    (·.makeDirectory admin), (·.setMode admin), (·.renameKey admin), (·.removeSocket)]

/-- The user who is going to have the key. -/
def System.adopter (s : System) : Option Id :=
  match s.secret, s.heir with
  | some _, some (admin, _) => if (s.keyOf admin).isSome then none else some admin
  | _, _ => none

/-- `adopt`, which stops behind `count` of its steps: at the next one it fails, or the panel ends. -/
def adoptUpTo (count : Nat) (now : Timestamp) (s : System) : System :=
  match s.adopter with
  | none => s
  | some admin => ((steps admin now).take count).foldl (fun s step => step s) s

def adopt (now : Timestamp) (s : System) : System × Option Adopted :=
  match s.adopter with
  | none => (s, none)
  | some admin => ((steps admin now).foldl (fun s step => step s) s,
      some ⟨admin, s.tunnels.length⟩)

/-! ## Whose the rows are -/

/-- Every row can be handed back with the key of its user. -/
structure Payable (s : System) : Prop where
  tunnels : ∀ tunnel ∈ s.tunnels, s.keyOf tunnel.userId = some tunnel.made
  released : ∀ debt ∈ s.released, s.keyOf debt.userId = some debt.made

/-- The rows, the accounts and the keys; the socket of the old agent is none of them. -/
def SameResult (s t : System) : Prop :=
  s.tunnels = t.tunnels ∧ s.released = t.released ∧ s.accounts = t.accounts ∧
    s.secret = t.secret ∧ s.directories = t.directories

/-- A start that stops in `adopt` and one that goes through it come to what one alone comes to. -/
def Repeats (s : System) : Prop :=
  ∀ count first second, ∃ time, (time = first ∨ time = second) ∧
    SameResult (adopt second (adoptUpTo count first s)).1 (adopt time s).1

/-- All rows were made with the key that is adopted, or where none is, with that of their user. -/
def OwnKeyOnly (s : System) : Prop :=
  match s.adopter with
  | none => Payable s
  | some _ => (∀ tunnel ∈ s.tunnels, s.secret = some tunnel.made) ∧
      ∀ debt ∈ s.released, s.secret = some debt.made

variable {s : System} {admin : Id} {now : Timestamp}

theorem adopter_some (h : s.adopter = some admin) :
    (∃ key, s.secret = some key) ∧ (∃ measured, s.heir = some (admin, measured)) ∧
      s.keyOf admin = none := by
  unfold System.adopter at h
  split at h
  · next key heir measured hsecret hheir =>
    split at h
    · cases h
    · next hnone =>
      cases h
      exact ⟨⟨key, hsecret⟩, ⟨measured, hheir⟩, by simpa using hnone⟩
  · cases h

theorem adopter_congr {t : System} (h : s.adopter = some admin) (hsecret : t.secret = s.secret)
    (hheir : t.heir = s.heir) (hkey : t.keyOf admin = none) : t.adopter = some admin := by
  obtain ⟨⟨key, hkey'⟩, ⟨measured, hmeasured⟩, -⟩ := adopter_some h
  rw [System.adopter, hsecret, hheir, hkey', hmeasured]
  simp [hkey]

/-- The heir is measured by the servers, and these are not touched. -/
theorem heir_adoptTunnels (admin : Id) : (s.adoptTunnels admin).heir = s.heir := by
  have howners : ((s.adoptTunnels admin).tunnels.filterMap fun tunnel => s.ownerOf tunnel.serverId) =
      s.tunnels.filterMap fun tunnel => s.ownerOf tunnel.serverId := by
    rw [System.adoptTunnels, List.filterMap_map]
    rfl
  unfold System.heir
  rw [show (s.adoptTunnels admin).ownerOf = s.ownerOf from rfl, howners]
  rfl

/-- What the rows, the accounts and the files are behind the last step. -/
theorem steps_fold (admin : Id) (now : Timestamp) (s : System) :
    (steps admin now).foldl (fun s step => step s) s =
      { s with
        accounts := match s.account with
          | none => s.accounts
          | some account => Function.update s.accounts admin (some (account, now))
        tunnels := s.tunnels.map fun tunnel => { tunnel with userId := admin }
        released := s.released.map fun debt => { debt with userId := admin }
        secret := none
        socket := false
        directories := Function.update s.directories admin (some ⟨0o700, s.secret⟩) } := by
  simp only [steps, List.foldl_cons, List.foldl_nil, System.adoptAccount, System.makeDirectory]
  cases haccount : s.account <;> cases hdir : s.directories admin <;>
    simp [haccount, System.adoptTunnels, System.adoptReleased, System.setMode, System.renameKey,
      System.removeSocket, hdir]

/-- What a start that has stopped in front of the renaming may have changed. -/
structure Underway (admin : Id) (s t : System) : Prop where
  account : t.account = s.account
  secret : t.secret = s.secret
  heir : t.heir = s.heir
  keyless : t.keyOf admin = none
  accounts : ∀ id, id ≠ admin ∨ s.account = none → t.accounts id = s.accounts id
  tunnels : (t.adoptTunnels admin).tunnels = (s.adoptTunnels admin).tunnels
  released : (t.adoptReleased admin).released = (s.adoptReleased admin).released
  directories : ∀ id, id ≠ admin → t.directories id = s.directories id

theorem Underway.step {t : System} {step : System → System} (h : Underway admin s t)
    (hstep : step ∈ (steps admin now).take 5) : Underway admin s (step t) := by
  simp only [steps, List.take_succ_cons, List.take_zero, List.mem_cons, List.not_mem_nil,
    or_false] at hstep
  rcases hstep with rfl | rfl | rfl | rfl | rfl
  · simp only [System.adoptAccount]
    cases haccount : t.account with
    | none => exact h
    | some account =>
      refine ⟨haccount.symm.trans h.account, h.secret, h.heir, h.keyless, fun id hid => ?_,
        h.tunnels, h.released, h.directories⟩
      have hne : id ≠ admin := hid.resolve_right (by simp [← h.account, haccount])
      simpa [hne] using h.accounts id (.inl hne)
  · refine ⟨h.account, h.secret, (heir_adoptTunnels admin).trans h.heir, h.keyless, h.accounts, ?_,
      h.released, h.directories⟩
    rw [← h.tunnels]
    simp [System.adoptTunnels]
  · refine ⟨h.account, h.secret, h.heir, h.keyless, h.accounts, h.tunnels, ?_, h.directories⟩
    rw [← h.released]
    simp [System.adoptReleased]
  · simp only [System.makeDirectory]
    cases t.directories admin with
    | some _ => exact h
    | none =>
      refine ⟨h.account, h.secret, h.heir, by simp [System.keyOf], h.accounts, h.tunnels,
        h.released, fun id hid => ?_⟩
      simpa [hid] using h.directories id hid
  · refine ⟨h.account, h.secret, h.heir, ?_, h.accounts, h.tunnels, h.released, fun id hid => ?_⟩
    · have hkeyless := h.keyless
      cases hdir : t.directories admin <;> simp_all [System.keyOf, System.setMode]
    · simpa [System.setMode, hid] using h.directories id hid

theorem Underway.fold {list : List (System → System)} (h : s.keyOf admin = none)
    (hlist : ∀ step ∈ list, step ∈ (steps admin now).take 5) :
    Underway admin s (list.foldl (fun s step => step s) s) := by
  suffices hall : ∀ t, Underway admin s t →
      Underway admin s (list.foldl (fun s step => step s) t) from
    hall s ⟨rfl, rfl, rfl, h, fun _ _ => rfl, rfl, rfl, fun _ _ => rfl⟩
  induction list with
  | nil => exact fun _ ht => ht
  | cons step list ih =>
    intro t ht
    exact ih (fun other hother => hlist other (List.mem_cons_of_mem _ hother)) _
      (ht.step (hlist step List.mem_cons_self))

theorem Underway.same {t : System} (h : Underway admin s t) (hadopter : s.adopter = some admin)
    (now : Timestamp) : SameResult (adopt now t).1 (adopt now s).1 := by
  have hadopter' := adopter_congr hadopter h.secret h.heir h.keyless
  simp only [adopt, hadopter, hadopter', steps_fold]
  refine ⟨h.tunnels, h.released, ?_, rfl, ?_⟩
  · simp only [h.account]
    cases haccount : s.account with
    | none => exact funext fun id => h.accounts id (.inr haccount)
    | some account =>
      funext id
      by_cases hid : id = admin
      · simp [hid]
      · simpa [hid] using h.accounts id (.inl hid)
  · funext id
    by_cases hid : id = admin
    · simp [hid, h.secret]
    · simpa [hid] using h.directories id hid

theorem repeats (s : System) : Repeats s := by
  intro count first second
  cases hadopter : s.adopter with
  | none => exact ⟨second, .inr rfl, by simp [adoptUpTo, hadopter, SameResult]⟩
  | some admin =>
    rcases Nat.lt_or_ge count 6 with hfew | hmost
    · refine ⟨second, .inr rfl, ?_⟩
      simp only [adoptUpTo, hadopter]
      have hearly : ∀ step ∈ (steps admin first).take count, step ∈ (steps admin first).take 5 := by
        intro step hstep
        refine List.mem_of_mem_take (i := count) ?_
        rwa [List.take_take, Nat.min_eq_left (by omega)]
      exact (Underway.fold (adopter_some hadopter).2.2 hearly).same hadopter second
    refine ⟨first, .inl rfl, ?_⟩
    have hstopped : ∀ t : System, t.secret = none → (adopt second t).1 = t := by
      intro t ht
      simp [adopt, System.adopter, ht]
    have hsecret := congrArg System.secret (steps_fold admin first s)
    simp only [adoptUpTo, hadopter]
    rcases Nat.eq_or_lt_of_le hmost with rfl | hall
    · have hsix : (((steps admin first).take 6).foldl (fun s step => step s) s).secret = none :=
        hsecret
      rw [hstopped _ hsix]
      simp only [adopt, hadopter]
      exact ⟨rfl, rfl, rfl, rfl, rfl⟩
    · rw [List.take_of_length_le hall, hstopped _ hsecret]
      simp only [adopt, hadopter]
      exact ⟨rfl, rfl, rfl, rfl, rfl⟩

/-- Adopting the panel-wide key takes only what it made exactly where there is nothing else to take:
the rows of every user become those of the heir. Stopped at any step and begun again, it comes to
the same. -/
theorem adopts_what_it_made_iff (s : System) :
    (∀ now, Payable (adopt now s).1) ∧ Repeats s ↔ OwnKeyOnly s := by
  rw [and_iff_left (repeats s), OwnKeyOnly]
  cases hadopter : s.adopter with
  | none => simp [adopt, hadopter]
  | some admin =>
    simp only [adopt, hadopter, steps_fold]
    constructor
    · intro h
      refine ⟨fun tunnel htunnel => ?_, fun debt hdebt => ?_⟩
      · simpa [System.keyOf] using (h 0).tunnels _ (List.mem_map_of_mem htunnel)
      · simpa [System.keyOf] using (h 0).released _ (List.mem_map_of_mem hdebt)
    · rintro ⟨htunnels, hreleased⟩ now
      constructor
      · intro row hrow
        obtain ⟨tunnel, htunnel, rfl⟩ := List.mem_map.mp hrow
        simpa [System.keyOf] using htunnels tunnel htunnel
      · intro row hrow
        obtain ⟨debt, hdebt, rfl⟩ := List.mem_map.mp hrow
        simpa [System.keyOf] using hreleased debt hdebt

/-- An administrator, for whom the key has waited, and a user with a key and a tunnel of his own. -/
def connected : System where
  users := [⟨1, true, 0⟩, ⟨2, false, 0⟩]
  ownerOf := fun _ => some 2
  account := some {}
  tunnels := [⟨7, 2, "his"⟩]
  released := []
  secret := some "panel's"
  socket := true
  directories := fun id => if id = 2 then some ⟨0o700, some "his"⟩ else none

/-- The tunnel was payable, and the panel ends up with a key that cannot hand it back. -/
theorem his_tunnel_is_taken :
    Payable connected ∧ ¬ ((∀ now, Payable (adopt now connected).1) ∧ Repeats connected) := by
  refine ⟨⟨by decide, by decide⟩, fun h => ?_⟩
  have htaken := (h.1 0).tunnels ⟨7, 1, "his"⟩ (by decide)
  exact absurd htaken (by decide)

end CraftPanel.Playit
