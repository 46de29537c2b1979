import CraftPanel.Accounts.Handlers
import CraftPanel.Framework.Played

/-!
# What a sign-up gives away

`apply` and `resend` of `registration/mod.rs`, each by itself, in databases that know different
things of one address: the answer and the runs of argon2 are the same.
-/

namespace CraftPanel.Accounts

open Framework Settings
open Request (ends_bind ends_run ends_attempt)

namespace Neutral

/-- What comes from elsewhere while a request is on its way: the brake, the mail service, and an
index that refuses the row of an application because somebody else was faster. -/
structure Outside where
  brake : Except Failure Unit
  mail : Except Failure Unit
  collides : Bool

def Outside.perform (outside : Outside) (store : Store) :
    (statement : Statement) → Store × Except Failure (Answer statement)
  | .world .brake => (store, outside.brake)
  | .world .mail => (store, outside.mail)
  | .registrations (.insert new now) =>
    execute store (.registrations (.insert new now)) outside.collides
  | .registrations (.takeOver id new now) =>
    execute store (.registrations (.takeOver id new now)) outside.collides
  | statement => execute store statement false

def argon2 : Statement → Nat
  | .draw | .verify _ _ => 1
  | _ => 0

/-- What a caller sees of a request: how much is hashed for it, and the answer. -/
def seen (outside : Outside) (store : Store) (request : Asking Unit) : Nat × Except Failure Unit :=
  (request.play outside.perform argon2 store 0).2

/-- The databases know the same, but for the accounts, applications and blocks of one address. -/
structure DifferAt (email : Text) (a b : Store) : Prop where
  users : ∀ row, row.email ≠ some email → (row ∈ a.users.rows ↔ row ∈ b.users.rows)
  registrations : ∀ row, row.email ≠ email →
    (row ∈ a.registrations.rows ↔ row ∈ b.registrations.rows)
  blocks : ∀ block, block.email ≠ email → (block ∈ a.blocks ↔ block ∈ b.blocks)
  switches : a.switches = b.switches

/-- No account has the name, and no open application but one of the address that is not confirmed
yet and would be taken over. -/
structure NameFree (store : Store) (username email : Text) : Prop where
  accounts : ∀ row ∈ store.users.rows, row.username ≠ username
  applications : ∀ row ∈ store.registrations.rows, row.username = username →
    row.email = email ∧ row.state = .emailUnverified

def closed : Failure :=
  .conflict "registration_disabled" "this panel does not take sign-ups at the moment"

/-- What `check_strength` has against a password. -/
def weakness (password : Text) : Option Failure :=
  if password.length < MIN_LENGTH then
    some (.badRequest "weak_password" "a password needs at least 10 characters")
  else none

/-- What `check_username` has against a name. -/
def nameFault (name : Text) : Option Failure :=
  if name.length < 3 || 39 < name.length then
    some (.invalidRequest "a username is 3 to 39 characters")
  else if !name.all isNameLetter then
    some (.invalidRequest "a username holds lower case letters, digits, '-' and '_'")
  else none

section Steps

variable {outside : Outside} {store : Store} {spent : Nat} {α : Type}

abbrev Ends (outside : Outside) (post : Store → Nat → Except Failure α → Prop)
    (request : Asking α) (store : Store) (spent : Nat) : Prop :=
  request.Ends outside.perform argon2 post store spent

variable {post : Store → Nat → Except Failure α → Prop}

theorem ends_look {query : Query} {f : query.Answer → Asking α} :
    Ends outside post (look query >>= f) store spent ↔
      Ends outside post (f (query.answer store)) store spent :=
  ends_bind

variable {f : Unit → Asking α}

theorem ends_brake :
    Ends outside post (ask (.world .brake) >>= f) store spent ↔
      match outside.brake with
      | .ok _ => Ends outside post (f ()) store spent
      | .error failure => post store spent (.error failure) := by
  apply ends_bind.trans
  cases hbrake : outside.brake <;> simp only [ends_run, Outside.perform, hbrake] <;> rfl

theorem ends_tried {statement : Statement} {f : Except Failure (Answer statement) → Asking α} :
    Ends outside post ((ask statement).attempt >>= f) store spent ↔
      Ends outside post (f (outside.perform store statement).2) (outside.perform store statement).1
        (spent + argon2 statement) :=
  ends_bind.trans ends_attempt

theorem ends_requireOpen {f : Bool → Asking α} :
    Ends outside post (requireOpen >>= f) store spent ↔
      if store.switches.registrationEnabled && store.switches.mailCanLink then
        Ends outside post (f store.switches.registrationRequiresApproval) store spent
      else post store spent (.error closed) := by
  apply ends_bind.trans
  apply ends_look.trans
  cases hopen : store.switches.registrationEnabled && store.switches.mailCanLink <;>
    simp [Query.answer, hopen] <;> rfl

theorem ends_checkStrength {chosen : Text} :
    Ends outside post (checkStrength chosen >>= f) store spent ↔
      match weakness chosen with
      | some failure => post store spent (.error failure)
      | none => Ends outside post (f ()) store spent := by
  apply ends_bind.trans
  unfold checkStrength weakness
  split_ifs <;> rfl

theorem ends_checkUsername {name : Text} :
    Ends outside post (checkUsername name >>= f) store spent ↔
      match nameFault name with
      | some failure => post store spent (.error failure)
      | none => Ends outside post (f ()) store spent := by
  apply ends_bind.trans
  unfold checkUsername nameFault
  split_ifs <;> rfl

theorem ends_hash {chosen : Text} {f : Hash → Asking α} (hstrong : weakness chosen = none) :
    Ends outside post (hash chosen >>= f) store spent ↔
      Ends outside post (f ⟨chosen, store.counter⟩) { store with counter := store.counter + 1 }
        (spent + 1) := by
  apply ends_bind.trans
  unfold hash
  apply ends_checkStrength.trans
  rw [hstrong]
  exact ends_bind

theorem find?_of_nodup {β γ : Type} [DecidableEq γ] {rows : List β} {key : β → γ} {row : β}
    (hnodup : (rows.map key).Nodup) (hrow : row ∈ rows) :
    rows.find? (fun other => key other = key row) = some row := by
  induction rows with
  | nil => cases hrow
  | cons first rows ih =>
    obtain ⟨hfirst, hrest⟩ := List.nodup_cons.mp hnodup
    rcases List.mem_cons.mp hrow with rfl | hmem
    · simp
    · have hne : key first ≠ key row := fun heq => hfirst (heq ▸ List.mem_map_of_mem hmem)
      rw [List.find?_cons_of_neg (by simpa using hne)]
      exact ih hrest hmem

/-- The application that `apply` may replace. -/
def unconfirmed (store : Store) (email : Text) : Option Id :=
  (((store.registrations.byEmail email).map fun row => row.toRow).filter fun row =>
    row.state = .emailUnverified).map Row.id

theorem ends_claimNameInUsers {username : Text}
    (hnone : store.users.byName username = none) (hname : nameFault username = none) :
    Ends outside post (claimNameInUsers username none >>= f) store spent ↔
      Ends outside post (f ()) store spent := by
  apply ends_bind.trans
  unfold claimNameInUsers
  apply ends_checkUsername.trans
  rw [hname]
  apply ends_look.trans
  rw [Query.answer, hnone]
  rfl

theorem ends_claimNameInApplications {username : Text} {replacing : Option Id}
    (hown : ∀ row, store.registrations.byName username = some row → some row.id = replacing) :
    Ends outside post (claimNameInApplications username replacing >>= f) store spent ↔
      Ends outside post (f ()) store spent := by
  apply ends_bind.trans
  unfold claimNameInApplications
  apply ends_look.trans
  rw [Query.answer]
  cases hrow : store.registrations.byName username with
  | none => rfl
  | some row =>
    obtain rfl := hown row hrow
    simp only [Option.map_some, ne_eq, not_true_eq_false, if_false]
    rfl

theorem ends_claimNameForSignUp {username email : Text}
    (hfree : NameFree store username email) (hname : nameFault username = none) :
    Ends outside post (claimNameForSignUp username (unconfirmed store email) >>= f) store spent ↔
      Ends outside post (f ()) store spent := by
  have hnone : store.users.byName username = none := by
    apply List.find?_eq_none.mpr
    intro row hrow
    simpa using hfree.accounts row hrow
  have hown (row : RegistrationRow) (hrow : store.registrations.byName username = some row) :
      some row.id = unconfirmed store email := by
    have hmem := List.mem_of_find?_eq_some hrow
    have hcalled : row.username = username := by simpa using List.find?_some hrow
    obtain ⟨hemail, hstate⟩ := hfree.applications row hmem hcalled
    have hfound : store.registrations.byEmail email = some row := by
      rw [← hemail]
      exact find?_of_nodup store.registrations.emails hmem
    simp [unconfirmed, hfound, hstate]
  apply ends_bind.trans
  unfold claimNameForSignUp
  apply (ends_claimNameInUsers hnone hname).trans
  exact ends_bind.symm.trans (ends_claimNameInApplications hown)

theorem refused_ofTable {table : Table fun row : RegistrationRow => row.id} {failure : Failure}
    (h : RegistrationTable.ofTable table = .error failure) : failure = .internal := by
  unfold RegistrationTable.ofTable at h
  split_ifs at h
  exact (Except.error.inj h).symm

theorem refused_write {registrations : RegistrationTable} {fresh : Nat}
    {write : RegistrationWrite} {failure : Failure}
    (h : registrations.write fresh write = .error failure) : failure = .internal := by
  have hmap {α β : Type} {x : Except Failure α} {g : α → β} (hx : x.map g = .error failure) :
      x = .error failure := by
    cases x with
    | ok a => cases hx
    | error e => exact congrArg Except.error (Except.error.inj hx)
  cases write with
  | insert new now =>
    have hinsert := hmap h
    unfold RegistrationTable.insert at hinsert
    split at hinsert
    · exact (Except.error.inj hinsert).symm
    · exact refused_ofTable hinsert
  | takeOver | replaceToken | markVerified => exact refused_ofTable (hmap h)
  | remove | sweep => cases h

theorem refused_execute {write : RegistrationWrite} {fails : Bool} {failure : Failure}
    (h : (execute store (.registrations write) fails).2 = .error failure) : failure = .internal := by
  unfold execute at h
  split at h
  · exact (Except.error.inj h).symm
  rw [Store.perform] at h
  cases hwrite : store.registrations.write store.counter write with
  | ok done =>
    rw [hwrite] at h
    cases h
  | error refusal =>
    rw [hwrite] at h
    cases h
    exact refused_write hwrite

theorem ends_file {own : Option Id} {new : NewApplication} {now : Timestamp}
    {f : Except Failure (Option Id) → Asking α}
    (hf : ∀ after written, (∀ failure, written = .error failure → failure = .internal) →
      Ends outside post (f written) after spent) :
    Ends outside post ((file own new now).attempt >>= f) store spent := by
  apply ends_bind.mpr
  apply ends_attempt.mpr
  cases own with
  | none =>
    apply ends_bind.mpr
    apply ends_run.mpr
    cases hwritten : (outside.perform store (.registrations (.insert new now))).2 with
    | ok id =>
      apply hf
      intro failure hfailure
      cases hfailure
    | error refusal =>
      apply hf
      intro failure hfailure
      cases hfailure
      exact refused_execute hwritten
  | some id =>
    apply ends_bind.mpr
    apply ends_run.mpr
    cases hwritten : (outside.perform store (.registrations (.takeOver id new now))).2 with
    | ok taken =>
      apply hf
      intro failure hfailure
      cases hfailure
    | error refusal =>
      apply hf
      intro failure hfailure
      cases hfailure
      exact refused_execute hwritten

theorem ends_isBlocked {email : Text} {now : Timestamp} {f : Bool → Asking α}
    (hf : ∀ blocked, Ends outside post (f blocked) store spent) :
    Ends outside post (isBlocked email now >>= f) store spent := by
  apply ends_bind.mpr
  unfold isBlocked
  apply ends_look.mpr
  split
  · exact hf true
  · exact hf _
  · exact hf false

theorem ends_mintAndSend {row : Row} {now : Timestamp}
    {post : Store → Nat → Except Failure Unit → Prop}
    (hpost : ∀ after, post after spent (.ok ())) :
    Ends outside post (mintAndSend row now) store spent := by
  unfold mintAndSend
  apply ends_tried.mpr
  split
  · exact hpost store
  split
  · exact hpost store
  apply ends_tried.mpr
  split
  · exact ends_tried.mpr (hpost _)
  · exact hpost _

end Steps

/-- What is seen of an application for a free name: it goes by the switches, the brake and what was
filled in. -/
def told (switches : Switches) (brake : Except Failure Unit) (username chosen : Text) :
    Nat × Except Failure Unit :=
  if switches.registrationEnabled && switches.mailCanLink then
    match weakness chosen with
    | some failure => (0, .error failure)
    | none => match nameFault (trim username) with
      | some failure => (0, .error failure)
      | none => match brake with
        | .error failure => (0, .error failure)
        | .ok _ => (1, .ok ())
  else (0, .error closed)

theorem seen_apply {outside : Outside} {store : Store} {username email chosen : Text}
    {now : Timestamp} (hfree : NameFree store (trim username) email) :
    seen outside store (apply username email chosen now) =
      told store.switches outside.brake username chosen := by
  suffices hends : Ends outside
      (fun _ spent outcome => (spent, outcome) = told store.switches outside.brake username chosen)
      (apply username email chosen now) store 0 from hends
  unfold apply told
  apply ends_requireOpen.mpr
  split_ifs with hopen
  · apply ends_checkStrength.mpr
    cases hweak : weakness chosen with
    | some failure => rfl
    | none =>
      apply ends_checkUsername.mpr
      cases hfault : nameFault (trim username) with
      | some failure => rfl
      | none =>
        apply ends_brake.mpr
        cases hbrake : outside.brake with
        | error failure => rfl
        | ok =>
          apply ends_look.mpr
          apply (ends_claimNameForSignUp hfree hfault).mpr
          apply (ends_hash hweak).mpr
          apply ends_isBlocked
          intro blocked
          -- From here on every way ends in the one answer.
          change Ends outside (fun _ spent outcome => (spent, outcome) = (1, .ok ())) _ _ _
          split
          · rfl
          apply ends_look.mpr
          split
          · exact ends_tried.mpr rfl
          split
          · rfl
          apply ends_file
          intro after written hrefused
          cases written with
          | error failure =>
            obtain rfl := hrefused failure rfl
            rfl
          | ok id =>
            cases id with
            | none => rfl
            | some id =>
              apply ends_tried.mpr
              split <;> rfl
  · rfl

theorem seen_resend {outside : Outside} {store : Store} {email : Text} {now : Timestamp} :
    seen outside store (resend email now) =
      if store.switches.registrationEnabled && store.switches.mailCanLink then (0, .ok ())
      else (0, .error closed) := by
  suffices hends : Ends outside
      (fun _ spent outcome => (spent, outcome) =
        if store.switches.registrationEnabled && store.switches.mailCanLink then (0, .ok ())
        else (0, .error closed))
      (resend email now) store 0 from hends
  unfold resend
  apply ends_requireOpen.mpr
  split_ifs
  · apply ends_look.mpr
    split
    · rfl
    split
    · rfl
    · exact ends_mintAndSend fun _ => rfl
  · rfl

/-- Whatever two databases know of an address, an application for it with a name that is free in both
is answered alike and costs as many hashes, and so does asking for another mail. The mail service
may do as it likes in each, and so may the brake on another mail, which goes by the address. -/
theorem sign_up_is_neutral {a b : Store} {username email chosen : Text} {now : Timestamp}
    (hdiffer : DifferAt email a b) (ha : NameFree a (trim username) email)
    (hb : NameFree b (trim username) email) :
    (∀ outside outside' : Outside, outside.brake = outside'.brake →
      seen outside a (apply username email chosen now) =
        seen outside' b (apply username email chosen now)) ∧
    ∀ outside outside' : Outside,
      seen outside a (resend email now) = seen outside' b (resend email now) := by
  constructor
  · intro outside outside' hbrake
    rw [seen_apply ha, seen_apply hb, hdiffer.switches, hbrake]
  · intro outside outside'
    rw [seen_resend, seen_resend, hdiffer.switches]

def strange : Store where
  switches := { registrationEnabled := true, mailCanLink := true }

def known : Store where
  users :=
    { table :=
        { rows :=
            [{ id := 1, username := "carla".toList, email := some "carl@example.org".toList
               passwordHash := ⟨"correct horse".toList, 0⟩ }]
          unique := by decide } }
  blocks := [⟨"carl@example.org".toList, none⟩]
  switches := { registrationEnabled := true, mailCanLink := true }
  counter := 7

def refusing : Outside := ⟨.ok (), .error .internal, false⟩

def taking : Outside := ⟨.ok (), .ok (), false⟩

def carlApplies : Asking Unit :=
  apply "carl".toList "carl@example.org".toList "battery staple".toList 10

theorem sign_up_is_neutral_carl :
    seen refusing strange carlApplies = seen taking known carlApplies := by
  have hdiffer : DifferAt "carl@example.org".toList strange known := by
    constructor
    · intro row hrow
      simp only [strange, known, UserTable.rows, Table.empty, List.not_mem_nil, List.mem_singleton,
        false_iff]
      rintro rfl
      exact hrow rfl
    · intro row _
      rfl
    · intro block hblock
      simp only [strange, known, List.not_mem_nil, List.mem_singleton, false_iff]
      rintro rfl
      exact hblock rfl
    · rfl
  have ha : NameFree strange (trim "carl".toList) "carl@example.org".toList := by
    constructor <;> (intro row hrow; cases hrow)
  have hb : NameFree known (trim "carl".toList) "carl@example.org".toList := by
    constructor
    · intro row hrow
      rw [List.mem_singleton.mp hrow]
      decide
    · intro row hrow
      cases hrow
  exact (sign_up_is_neutral hdiffer ha hb).1 refusing taking rfl

end Neutral

end CraftPanel.Accounts
