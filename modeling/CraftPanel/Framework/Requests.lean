import CraftPanel.Framework.Machine
import CraftPanel.Framework.Moving

/-!
# Requests over a shared store

A request is what it has still to do: a statement that the store executes at once and, for every
answer, what the request does with it. Requests interleave between statements. What a request has
been told stays in its history, and a look is stale when the store would answer it otherwise by
now. The log of a run keeps every statement executed, with the history of its request.
-/

namespace Framework

inductive Request {Statement : Type} (Answer : Statement → Type) (ε α : Type) where
  | done (outcome : Except ε α)
  | ask (statement : Statement) (next : Except ε (Answer statement) → Request Answer ε α)

/-- The statements a request has made and what came back, the last one first. -/
abbrev History {Statement : Type} (Answer : Statement → Type) (ε : Type) :=
  List ((statement : Statement) × Except ε (Answer statement))

abbrev Log {Statement : Type} (Answer : Statement → Type) (ε : Type) := List (History Answer ε)

namespace Request

variable {Statement : Type} {Answer : Statement → Type} {ε α β : Type}

def bind : Request Answer ε α → (α → Request Answer ε β) → Request Answer ε β
  | done (.ok a), f => f a
  | done (.error e), _ => done (.error e)
  | ask statement next, f => ask statement fun answer => (next answer).bind f

instance : Monad (Request Answer ε) where
  pure a := done (.ok a)
  bind := bind

/-- One statement, whose failure is the request's. -/
def run (statement : Statement) : Request Answer ε (Answer statement) := ask statement done

def fail (e : ε) : Request Answer ε α := done (.error e)

/-- A failure is looked at and not passed on. -/
def attempt : Request Answer ε α → Request Answer ε (Except ε α)
  | done outcome => done (.ok outcome)
  | ask statement next => ask statement fun answer => (next answer).attempt

/-- One request for each element, in their order. -/
def each (f : β → Request Answer ε Unit) : List β → Request Answer ε Unit
  | [] => pure ()
  | x :: xs => f x >>= fun _ => each f xs

/-- The statement that comes next is as it should be. -/
def Asks (P : Statement → Prop) : Request Answer ε α → Prop
  | done _ => True
  | ask statement _ => P statement

instance decidableAsks (P : Statement → Prop) [DecidablePred P] :
    ∀ request : Request Answer ε α, Decidable (request.Asks P)
  | done _ => isTrue trivial
  | ask statement _ => inferInstanceAs (Decidable (P statement))

/-- What a request ends in that is answered like this. -/
def alone (answer : (statement : Statement) → Except ε (Answer statement)) :
    Request Answer ε α → Except ε α
  | done outcome => outcome
  | ask statement next => (next (answer statement)).alone answer

def isDone : Request Answer ε α → Bool
  | done _ => true
  | ask .. => false

/-! ### What a request knows when it makes a statement -/

/-- Whatever the request is told, it makes a statement with `pre` alone and ends in `post`. -/
def Guarded (pre : History Answer ε → Statement → Prop)
    (post : History Answer ε → Except ε α → Prop) :
    Request Answer ε α → History Answer ε → Prop
  | done outcome, history => post history outcome
  | ask statement next, history => pre history statement ∧
    ∀ answer, (next answer).Guarded pre post (⟨statement, answer⟩ :: history)

/-- What has to hold after the first of two requests. -/
def Before (pre : History Answer ε → Statement → Prop)
    (post : History Answer ε → Except ε β → Prop) (f : α → Request Answer ε β)
    (history : History Answer ε) : Except ε α → Prop
  | .ok a => (f a).Guarded pre post history
  | .error e => post history (.error e)

variable {pre pre' : History Answer ε → Statement → Prop}
  {post post' : History Answer ε → Except ε α → Prop}
  {last : History Answer ε → Except ε β → Prop} {history : History Answer ε}

theorem guarded_run {statement : Statement}
    {post : History Answer ε → Except ε (Answer statement) → Prop} :
    (run statement).Guarded pre post history ↔
      pre history statement ∧ ∀ answer, post (⟨statement, answer⟩ :: history) answer := Iff.rfl

theorem guarded_bind (x : Request Answer ε α) (f : α → Request Answer ε β) :
    (x >>= f).Guarded pre last history ↔ x.Guarded pre (Before pre last f) history := by
  induction x generalizing history with
  | done outcome =>
    cases outcome with
    | ok a => rfl
    | error e => rfl
  | ask statement next ih =>
    apply and_congr_right
    intro _
    exact forall_congr' fun answer => ih answer

/-- A statement and what follows its answer. -/
theorem guarded_run_bind {statement : Statement} {f : Answer statement → Request Answer ε β} :
    (run statement >>= f).Guarded pre last history ↔ pre history statement ∧
      (∀ answer, (f answer).Guarded pre last (⟨statement, .ok answer⟩ :: history)) ∧
      ∀ e, last (⟨statement, .error e⟩ :: history) (.error e) := by
  rw [guarded_bind, guarded_run]
  apply and_congr_right
  intro _
  constructor
  · intro h
    exact ⟨fun answer => h (.ok answer), fun e => h (.error e)⟩
  · rintro ⟨hok, herror⟩ (e | answer)
    · exact herror e
    · exact hok answer

theorem guarded_attempt (x : Request Answer ε α)
    {post : History Answer ε → Except ε (Except ε α) → Prop} :
    x.attempt.Guarded pre post history ↔
      x.Guarded pre (fun history outcome => post history (.ok outcome)) history := by
  induction x generalizing history with
  | done outcome => rfl
  | ask statement next ih =>
    apply and_congr_right
    intro _
    exact forall_congr' fun answer => ih answer

/-- A statement whose failure is looked at, and what follows it. -/
theorem guarded_attempt_bind {statement : Statement}
    {f : Except ε (Answer statement) → Request Answer ε β} :
    ((run statement).attempt >>= f).Guarded pre last history ↔ pre history statement ∧
      ∀ answer, (f answer).Guarded pre last (⟨statement, answer⟩ :: history) := by
  rw [guarded_bind, guarded_attempt, guarded_run]
  rfl

variable {x : Request Answer ε α}

theorem Guarded.mono (h : x.Guarded pre post history)
    (hpre : ∀ history statement, pre history statement → pre' history statement)
    (hpost : ∀ history outcome, post history outcome → post' history outcome) :
    x.Guarded pre' post' history := by
  induction x generalizing history with
  | done outcome => exact hpost _ _ h
  | ask statement next ih =>
    refine ⟨hpre _ _ h.1, ?_⟩
    intro answer
    exact ih answer (h.2 answer)

theorem Guarded.and (h : x.Guarded pre post history)
    (h' : x.Guarded pre' post' history) :
    x.Guarded (fun history statement => pre history statement ∧ pre' history statement)
      (fun history outcome => post history outcome ∧ post' history outcome) history := by
  induction x generalizing history with
  | done outcome => exact ⟨h, h'⟩
  | ask statement next ih =>
    refine ⟨⟨h.1, h'.1⟩, ?_⟩
    intro answer
    exact ih answer (h.2 answer) (h'.2 answer)

variable {f : α → Request Answer ε β}

/-- Two requests in a row, the first of which is known by what it ends in. -/
theorem Guarded.bind
    (h : x.Guarded pre post history)
    (hok : ∀ history a, post history (.ok a) → (f a).Guarded pre last history)
    (herror : ∀ history e, post history (.error e) → last history (.error e)) :
    (x >>= f).Guarded pre last history := by
  rw [guarded_bind]
  apply h.mono (fun _ _ hpre => hpre)
  intro history outcome hpost
  cases outcome with
  | ok a => exact hok history a hpost
  | error e => exact herror history e hpost

/-! ### Histories grow -/

/-- What was known before a request is known after it. -/
theorem Guarded.grows (h : x.Guarded pre post history) :
    x.Guarded pre (fun later outcome => history <:+ later ∧ post later outcome) history := by
  suffices hall : ∀ earlier, earlier <:+ history →
      x.Guarded pre (fun later outcome => earlier <:+ later ∧ post later outcome) history from
    hall history List.suffix_rfl
  intro earlier hearlier
  induction x generalizing history with
  | done outcome => exact ⟨hearlier, h⟩
  | ask statement next ih =>
    refine ⟨h.1, ?_⟩
    intro answer
    exact ih answer (h.2 answer) (hearlier.trans (List.suffix_cons _ _))

/-- None of the statements of the request matters, whatever it is told. -/
def Avoids (critical : Statement → Bool) : Request Answer ε α → Prop
  | done _ => True
  | ask statement next => critical statement = false ∧ ∀ answer, (next answer).Avoids critical

variable {critical : Statement → Bool}

@[simp] theorem avoids_run (statement : Statement) :
    (run statement : Request Answer ε (Answer statement)).Avoids critical ↔
      critical statement = false :=
  ⟨And.left, fun h => ⟨h, fun _ => trivial⟩⟩

theorem Avoids.bind
    (hx : x.Avoids critical) (hf : ∀ a, (f a).Avoids critical) : (x >>= f).Avoids critical := by
  induction x with
  | done outcome =>
    cases outcome with
    | ok a => exact hf a
    | error e => trivial
  | ask statement next ih => exact ⟨hx.1, fun answer => ih answer (hx.2 answer)⟩

theorem Avoids.attempt (hx : x.Avoids critical) :
    x.attempt.Avoids critical := by
  induction x with
  | done outcome => trivial
  | ask statement next ih => exact ⟨hx.1, fun answer => ih answer (hx.2 answer)⟩

theorem Avoids.mono {critical' : Statement → Bool} (hx : x.Avoids critical)
    (himp : ∀ statement, critical statement = false → critical' statement = false) :
    x.Avoids critical' := by
  induction x with
  | done outcome => trivial
  | ask statement next ih => exact ⟨himp _ hx.1, fun answer => ih answer (hx.2 answer)⟩

theorem Avoids.each {f : β → Request Answer ε Unit} {xs : List β}
    (hf : ∀ x, (f x).Avoids critical) : (Request.each f xs).Avoids critical := by
  induction xs with
  | nil => trivial
  | cons x xs ih => exact (hf x).bind fun _ => ih

/-- The later history is the earlier one and statements that do not matter. -/
def Extends (critical : Statement → Bool) (history later : History Answer ε) : Prop :=
  ∃ new, later = new ++ history ∧ ∀ entry ∈ new, critical entry.1 = false

theorem Extends.refl (history : History Answer ε) : Extends critical history history :=
  ⟨[], rfl, fun _ h => absurd h List.not_mem_nil⟩

theorem Extends.cons {history later : History Answer ε} (h : Extends critical history later)
    {entry} (hentry : critical entry.1 = false) : Extends critical history (entry :: later) := by
  obtain ⟨new, rfl, hnew⟩ := h
  exact ⟨entry :: new, rfl, List.forall_mem_cons.mpr ⟨hentry, hnew⟩⟩

theorem Extends.trans {first second third : History Answer ε}
    (h : Extends critical first second) (h' : Extends critical second third) :
    Extends critical first third := by
  obtain ⟨new, rfl, hnew⟩ := h
  obtain ⟨newer, rfl, hnewer⟩ := h'
  refine ⟨newer ++ new, (List.append_assoc _ _ _).symm, ?_⟩
  intro entry hentry
  rcases List.mem_append.mp hentry with hmem | hmem
  · exact hnewer entry hmem
  · exact hnew entry hmem

theorem Extends.suffix {history later : History Answer ε} (h : Extends critical history later) :
    history <:+ later := by
  obtain ⟨new, rfl, -⟩ := h
  exact List.suffix_append new history

/-- Of what was known before a request that avoids what matters, all is known after it. -/
theorem guarded_since (h : x.Avoids critical)
    (hpre : ∀ later statement, Extends critical history later → critical statement = false →
      pre later statement) :
    x.Guarded pre (fun later _ => Extends critical history later) history := by
  suffices hall : ∀ later, Extends critical history later →
      x.Guarded pre (fun later _ => Extends critical history later) later from
    hall history (.refl history)
  induction x with
  | done outcome => exact fun later hlater => hlater
  | ask statement next ih =>
    intro later hlater
    refine ⟨hpre _ _ hlater h.1, ?_⟩
    intro answer
    exact ih answer (h.2 answer) _ (hlater.cons h.1)

theorem guarded_of_avoids (h : x.Avoids critical)
    (hpre : ∀ history statement, critical statement = false → pre history statement) :
    x.Guarded pre (fun later _ => Extends critical history later) history :=
  guarded_since h fun later statement _ => hpre later statement

theorem Avoids.guarded_bind
    (h : x.Avoids critical)
    (hpre : ∀ history statement, critical statement = false → pre history statement)
    (hf : ∀ later a, Extends critical history later → (f a).Guarded pre last later)
    (herror : ∀ later e, Extends critical history later → last later (.error e)) :
    (x >>= f).Guarded pre last history :=
  (guarded_of_avoids h hpre).bind (fun later a => hf later a) fun later e => herror later e

end Request

/-! ### The service -/

/-- What executes the statements of requests: the store, what it answers, the requests that start
others by a statement, and what else happens to the store. -/
structure Service {Statement : Type} (Answer : Statement → Type)
    (ε α Store Env Call Outside : Type) where
  execute : Store → (statement : Statement) → Env → Store × Except ε (Answer statement)
  spawns : Statement → List Call
  body : Call → Request Answer ε α
  outside : Store → Outside → Option Store
  restart : Store → Store

/-- A request on its way, with its history. -/
structure Running {Statement : Type} (Answer : Statement → Type) (ε α : Type) where
  history : History Answer ε
  request : Request Answer ε α

namespace Service

variable {Statement : Type} {Answer : Statement → Type} {ε α Store Env Call Outside : Type}

structure State (Answer : Statement → Type) (ε α Store : Type) where
  store : Store
  running : List (Running Answer ε α) := []
  log : Log Answer ε := []

inductive Event (Env Call Outside : Type) where
  | arrives (call : Call)
  | runs (k : Nat) (env : Env)
  | drops (k : Nat)
  | restarts
  | outside (event : Outside)

variable (service : Service Answer ε α Store Env Call Outside)

def begin (call : Call) : Running Answer ε α := ⟨[], service.body call⟩

/-- The state once the `k`th request has made its next statement. -/
def asked (s : State Answer ε α Store) (k : Nat) (history : History Answer ε)
    (statement : Statement) (next : Except ε (Answer statement) → Request Answer ε α)
    (env : Env) : State Answer ε α Store :=
  let (store, answer) := service.execute s.store statement env
  { store
    running := s.running.set k ⟨⟨statement, answer⟩ :: history, next answer⟩ ++
      (service.spawns statement).map service.begin
    log := (⟨statement, answer⟩ :: history) :: s.log }

def step (s : State Answer ε α Store) : Event Env Call Outside → Option (State Answer ε α Store)
  | .arrives call => some { s with running := s.running ++ [service.begin call] }
  | .runs k env => match s.running[k]? with
    | some ⟨history, .ask statement next⟩ => some (service.asked s k history statement next env)
    | _ => none
  | .drops k => match s.running[k]? with
    | some ⟨_, .ask _ _⟩ => some { s with running := s.running.eraseIdx k }
    | _ => none
  | .restarts => some
    { s with
      store := service.restart s.store
      running := s.running.filter fun running => running.request.isDone }
  | .outside event => (service.outside s.store event).map fun store => { s with store }

def machine : Machine (State Answer ε α Store) (Event Env Call Outside) := ⟨service.step⟩

/-- The condition on a step that looks at the store, at what the request has been told and at the
statement it makes. -/
def Heeds (fresh : Store → History Answer ε → Statement → Prop) (s : State Answer ε α Store) :
    Event Env Call Outside → Prop
  | .runs k _ => ∀ running ∈ s.running[k]?, running.request.Asks (fresh s.store running.history)
  | _ => True

instance decidableHeeds (fresh : Store → History Answer ε → Statement → Prop)
    [∀ store history statement, Decidable (fresh store history statement)]
    (s : State Answer ε α Store) :
    ∀ event : Event Env Call Outside, Decidable (Heeds fresh s event)
  | .runs k _ => inferInstanceAs (Decidable (∀ running ∈ s.running[k]?, _))
  | .arrives _ | .drops _ | .restarts | .outside _ => isTrue trivial

/-- No condition at all. -/
theorem heeds_trivial (s : State Answer ε α Store) (event : Event Env Call Outside) :
    Heeds (fun _ _ _ => True) s event := by
  cases event with
  | runs k env =>
    rintro ⟨history, request⟩ -
    cases request <;> trivial
  | arrives | drops | restarts | outside => trivial

/-- Each request on its way is guarded from here on. -/
def Secured (pre : History Answer ε → Statement → Prop)
    (post : History Answer ε → Except ε α → Prop) (s : State Answer ε α Store) : Prop :=
  ∀ running ∈ s.running, running.request.Guarded pre post running.history

variable {service} {pre : History Answer ε → Statement → Prop}
  {post : History Answer ε → Except ε α → Prop} {s t : State Answer ε α Store}
  {event : Event Env Call Outside} {k : Nat} {env : Env}

theorem step_runs (h : service.step s (.runs k env) = some t) :
    ∃ history statement next, s.running[k]? = some ⟨history, .ask statement next⟩ ∧
      t = service.asked s k history statement next env := by
  simp only [step] at h
  split at h
  · next history statement next hk => exact ⟨history, statement, next, hk, by simpa using h.symm⟩
  · cases h

theorem step_drops (h : service.step s (.drops k) = some t) :
    t = { s with running := s.running.eraseIdx k } := by
  simp only [step] at h
  split at h
  · simpa using h.symm
  · cases h

theorem step_outside {o : Outside} (h : service.step s (.outside o) = some t) :
    ∃ store, service.outside s.store o = some store ∧ t = { s with store } := by
  simpa [step, eq_comm] using h

theorem Secured.step (hbody : ∀ call, (service.body call).Guarded pre post [])
    (h : Secured pre post s) (hstep : service.step s event = some t) : Secured pre post t := by
  cases event with
  | arrives call =>
    cases hstep
    intro running hrunning
    rcases List.mem_append.mp hrunning with hold | hnew
    · exact h running hold
    · rw [List.mem_singleton.mp hnew]
      exact hbody call
  | runs k env =>
    obtain ⟨history, statement, next, hk, rfl⟩ := step_runs hstep
    have hasks := h _ (List.mem_of_getElem? hk)
    intro running hrunning
    rcases List.mem_append.mp hrunning with hold | hnew
    · rcases List.mem_or_eq_of_mem_set hold with hmem | rfl
      · exact h running hmem
      · exact hasks.2 _
    · obtain ⟨call, -, rfl⟩ := List.mem_map.mp hnew
      exact hbody call
  | drops k =>
    rw [step_drops hstep]
    exact fun running hrunning => h running (List.mem_of_mem_eraseIdx hrunning)
  | restarts =>
    cases hstep
    exact fun running hrunning => h running (List.mem_of_mem_filter hrunning)
  | outside o =>
    obtain ⟨store, -, rfl⟩ := step_outside hstep
    exact h

/-- Whatever a request on its way has been told stands in the log, at every stage. -/
def Logged (s : State Answer ε α Store) : Prop :=
  ∀ running ∈ s.running, ∀ stage, stage <:+ running.history → stage ≠ [] → stage ∈ s.log

theorem Logged.step (h : Logged s) (hstep : service.step s event = some t) : Logged t := by
  have hnone : ∀ call stage, stage <:+ (service.begin call).history → stage ≠ [] → stage ∈ t.log :=
    fun call stage hstage hne => absurd (List.suffix_nil.mp hstage) hne
  cases event with
  | arrives call =>
    cases hstep
    intro running hrunning
    rcases List.mem_append.mp hrunning with hold | hnew
    · exact h running hold
    · rw [List.mem_singleton.mp hnew]
      exact hnone call
  | runs k env =>
    obtain ⟨history, statement, next, hk, rfl⟩ := step_runs hstep
    have hold := h _ (List.mem_of_getElem? hk)
    intro running hrunning stage hstage hne
    rcases List.mem_append.mp hrunning with hset | hnew
    · rcases List.mem_or_eq_of_mem_set hset with hmem | rfl
      · exact List.mem_cons_of_mem _ (h running hmem stage hstage hne)
      · rcases List.suffix_cons_iff.mp hstage with rfl | htail
        · exact List.mem_cons_self
        · exact List.mem_cons_of_mem _ (hold stage htail hne)
    · obtain ⟨call, -, rfl⟩ := List.mem_map.mp hnew
      exact hnone call stage hstage hne
  | drops k =>
    obtain rfl := step_drops hstep
    exact fun running hrunning => h running (List.mem_of_mem_eraseIdx hrunning)
  | restarts =>
    cases hstep
    exact fun running hrunning => h running (List.mem_of_mem_filter hrunning)
  | outside o =>
    obtain ⟨store, -, rfl⟩ := step_outside hstep
    exact h

/-- The run rule: where each statement keeps `I` as long as the request that makes it knows what
`pre` says and its looks are fresh, every run whose looks are fresh keeps `I`. -/
theorem run_invariant {I : Store → Log Answer ε → Prop}
    {fresh : Store → History Answer ε → Statement → Prop}
    (hbody : ∀ call, (service.body call).Guarded pre post [])
    (hexecute : ∀ {store log history statement} env, I store log → pre history statement →
      fresh store history statement →
      I (service.execute store statement env).1
        ((⟨statement, (service.execute store statement env).2⟩ :: history) :: log))
    (houtside : ∀ {store store' log o}, I store log → service.outside store o = some store' →
      I store' log)
    (hrestart : ∀ {store log}, I store log → I (service.restart store) log)
    {events : List (Event Env Call Outside)} (hs : I s.store s.log) (hsecured : Secured pre post s)
    (hmeets : service.machine.Meets (Heeds fresh) s events)
    (hrun : service.machine.exec s events = some t) : I t.store t.log := by
  have hone : ∀ {s event t}, Secured pre post s ∧ I s.store s.log → Heeds fresh s event →
      service.step s event = some t → I t.store t.log := by
    intro s event t ⟨hsecured, hI⟩ hok hstep
    cases event with
    | arrives call =>
      cases hstep
      exact hI
    | runs k env =>
      obtain ⟨history, statement, next, hk, rfl⟩ := step_runs hstep
      have hasks := hsecured _ (List.mem_of_getElem? hk)
      exact hexecute env hI hasks.1 (hok _ hk)
    | drops k =>
      obtain rfl := step_drops hstep
      exact hI
    | restarts =>
      cases hstep
      exact hrestart hI
    | outside o =>
      obtain ⟨store, hstore, rfl⟩ := step_outside hstep
      exact houtside hI hstore
  have hboth := service.machine.invariant (I := fun s => Secured pre post s ∧ I s.store s.log)
    (fun hinv hok hstep => ⟨hinv.1.step hbody hstep, hone hinv hok hstep⟩) ⟨hsecured, hs⟩
    hmeets hrun
  exact hboth.2

/-! ### What a run keeps of the requests -/

/-- `I` holds of the store, and `J` of the store and what each request has been told. -/
structure Known (I : Store → Prop) (J : Store → History Answer ε → Prop)
    (s : State Answer ε α Store) : Prop where
  store : I s.store
  told : ∀ running ∈ s.running, J s.store running.history

/-- No two requests have been told what `R` does not allow. -/
def Apart (R : History Answer ε → History Answer ε → Prop) (s : State Answer ε α Store) : Prop :=
  s.running.Pairwise fun a b => R a.history b.history

variable {I : Store → Prop} {J : Store → History Answer ε → Prop}
  {R : History Answer ε → History Answer ε → Prop}
  {fresh : Store → History Answer ε → Statement → Prop}

theorem Known.step (hnil : ∀ store, I store → J store [])
    (hexecute : ∀ {store history statement} env, I store → J store history →
      pre history statement → fresh store history statement →
      I (service.execute store statement env).1 ∧
      J (service.execute store statement env).1
        (⟨statement, (service.execute store statement env).2⟩ :: history) ∧
      ∀ other, J store other → J (service.execute store statement env).1 other)
    (houtside : ∀ {store store' o}, I store → service.outside store o = some store' →
      I store' ∧ ∀ history, J store history → J store' history)
    (hrestart : ∀ {store}, I store →
      I (service.restart store) ∧ ∀ history, J store history → J (service.restart store) history)
    (hsecured : Secured pre post s) (h : Known I J s) (hheeds : Heeds fresh s event)
    (hstep : service.step s event = some t) : Known I J t := by
  cases event with
  | arrives call =>
    cases hstep
    refine ⟨h.store, ?_⟩
    intro running hrunning
    rcases List.mem_append.mp hrunning with hold | hnew
    · exact h.told running hold
    · rw [List.mem_singleton.mp hnew]
      exact hnil _ h.store
  | runs k env =>
    obtain ⟨history, statement, next, hk, rfl⟩ := step_runs hstep
    have hmem := List.mem_of_getElem? hk
    obtain ⟨hstore, hasked, hothers⟩ :=
      hexecute env h.store (h.told _ hmem) (hsecured _ hmem).1 (hheeds _ hk)
    refine ⟨hstore, ?_⟩
    intro running hrunning
    rcases List.mem_append.mp hrunning with hset | hnew
    · rcases List.mem_or_eq_of_mem_set hset with hold | rfl
      · exact hothers _ (h.told running hold)
      · exact hasked
    · obtain ⟨call, -, rfl⟩ := List.mem_map.mp hnew
      exact hnil _ hstore
  | drops k =>
    obtain rfl := step_drops hstep
    exact ⟨h.store, fun running hrunning => h.told running (List.mem_of_mem_eraseIdx hrunning)⟩
  | restarts =>
    cases hstep
    obtain ⟨hstore, hothers⟩ := hrestart h.store
    refine ⟨hstore, ?_⟩
    intro running hrunning
    exact hothers _ (h.told running (List.mem_of_mem_filter hrunning))
  | outside o =>
    obtain ⟨store, hstore, rfl⟩ := step_outside hstep
    obtain ⟨hI, hothers⟩ := houtside h.store hstore
    exact ⟨hI, fun running hrunning => hothers _ (h.told running hrunning)⟩

/-- What is written in the place of one element goes with the others as that one did. -/
theorem pairwise_set {β : Type} {R : β → β → Prop} {l : List β} {a b : β}
    (hsymm : ∀ {x y}, R x y → R y x) (hk : l[k]? = some a) (h : l.Pairwise R)
    (hb : ∀ x ∈ l, R a x → R b x) : (l.set k b).Pairwise R := by
  induction l generalizing k with
  | nil => cases hk
  | cons x l ih =>
    obtain ⟨hx, hl⟩ := List.pairwise_cons.mp h
    cases k with
    | zero =>
      cases hk
      exact List.pairwise_cons.mpr ⟨fun y hy => hb y (List.mem_cons_of_mem _ hy) (hx y hy), hl⟩
    | succ k =>
      have hrest := ih hk hl fun y hy => hb y (List.mem_cons_of_mem _ hy)
      refine List.pairwise_cons.mpr ⟨?_, hrest⟩
      intro y hy
      rcases List.mem_or_eq_of_mem_set hy with hold | rfl
      · exact hx y hold
      · exact hsymm (hb x List.mem_cons_self (hsymm (hx a (List.mem_of_getElem? hk))))

theorem Apart.step (hsymm : ∀ {a b}, R a b → R b a) (hnil : ∀ history, R history [])
    (hexecute : ∀ {store history statement} env other, I store → J store history →
      J store other → pre history statement → fresh store history statement → R history other →
      R (⟨statement, (service.execute store statement env).2⟩ :: history) other)
    (hsecured : Secured pre post s) (hknown : Known I J s) (h : Apart R s)
    (hheeds : Heeds fresh s event) (hstep : service.step s event = some t) : Apart R t := by
  have hbegun : ∀ (old : List (Running Answer ε α)) (calls : List Call),
      old.Pairwise (fun a b => R a.history b.history) →
      (old ++ calls.map service.begin).Pairwise fun a b => R a.history b.history := by
    intro old calls hold
    refine List.pairwise_append.mpr ⟨hold, ?_, ?_⟩
    · apply List.pairwise_map.mpr
      exact List.pairwise_of_forall fun _ _ => hnil []
    · intro a _ b hb
      obtain ⟨call, -, rfl⟩ := List.mem_map.mp hb
      exact hnil a.history
  cases event with
  | arrives call =>
    cases hstep
    exact hbegun s.running [call] h
  | runs k env =>
    obtain ⟨history, statement, next, hk, rfl⟩ := step_runs hstep
    have hmem := List.mem_of_getElem? hk
    apply hbegun
    apply pairwise_set hsymm hk h
    intro running hrunning hR
    exact hexecute env _ hknown.store (hknown.told _ hmem) (hknown.told _ hrunning)
      (hsecured _ hmem).1 (hheeds _ hk) hR
  | drops k =>
    obtain rfl := step_drops hstep
    exact h.sublist (List.eraseIdx_sublist _ _)
  | restarts =>
    cases hstep
    exact h.sublist List.filter_sublist
  | outside o =>
    obtain ⟨store, -, rfl⟩ := step_outside hstep
    exact h

end Service

end Framework
