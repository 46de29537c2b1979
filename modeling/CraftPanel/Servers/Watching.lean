import CraftPanel.Framework.Followed
import CraftPanel.Servers.Power

/-!
# Every process has its watcher

A row that claims a process of this panel has a watcher that will write its end down, or a
routine under the gate that has still to come to `watch` or to take the claim back. `watch` does
nothing where a watcher is registered, also where that watcher has its last write behind it: the
runs in which no routine comes to `watch` at such a moment keep the invariant.
-/

namespace CraftPanel.Servers

open Framework

def Watcher.isWatching : Watcher → Bool
  | .settling | .leaving => false
  | _ => true

/-- What comes of the statement is a watcher, or a row that claims no process. -/
def Statement.covers : Statement → Bool
  | .watch | .spawn _ => true
  | .writeState state _ => !state.isClaiming
  | _ => false

/-- A watcher is active, or scheduled by the routine that holds the gate. -/
def Attended (s : System) : Prop :=
  s.startedHere = true → s.row.powerState.isClaiming = true →
    s.watcher.any Watcher.isWatching = true ∨
      s.gate.any (fun holder => holder.todo.any Statement.covers) = true

/-- A routine comes to `watch` where no watcher is registered, or one that watches. -/
def WatchTakes (s : System) : Event → Prop
  | .runs _ => s.gate.any (fun holder => holder.todo.head? = some .watch) →
      s.watcher.all Watcher.isWatching
  | _ => True

instance (s : System) (e : Event) : Decidable (WatchTakes s e) := by
  unfold WatchTakes
  split <;> infer_instance

instance : DecidablePred Attended := fun s => by
  unfold Attended
  infer_instance

/-- Each write that claims a process has a statement behind it that covers the claim. -/
def Secured : List Statement → Prop
  | [] => True
  | .writeState state _ :: rest =>
    (state.isClaiming = true → rest.any Statement.covers = true) ∧ Secured rest
  | _ :: rest => Secured rest

def Statement.claims : Statement → Bool
  | .writeState state _ => state.isClaiming
  | _ => false

theorem secured_iff {todo : List Statement} :
    Secured todo ↔ Followed Statement.claims Statement.covers todo := by
  induction todo with
  | nil => exact Iff.rfl
  | cons statement todo ih =>
    rw [followed_cons, ← ih]
    cases statement with
    | writeState state oom => exact Iff.rfl
    | _ => simp [Secured, Statement.claims]

theorem Secured.tail {statement : Statement} {rest : List Statement}
    (h : Secured (statement :: rest)) : Secured rest :=
  secured_iff.mpr (secured_iff.mp h).tail

theorem Secured.append {first rest : List Statement} (hfirst : Secured first)
    (hrest : Secured rest) : Secured (first ++ rest) :=
  secured_iff.mpr ((secured_iff.mp hfirst).append (secured_iff.mp hrest))

theorem secured_of_no_write {todo : List Statement}
    (h : ∀ state oom, Statement.writeState state oom ∉ todo) : Secured todo := by
  rw [secured_iff]
  apply followed_of_none
  intro statement hmem
  cases statement with
  | writeState state oom => exact absurd hmem (h state oom)
  | _ => rfl

theorem secured_starting (token : String) : Secured (starting token) :=
  ⟨fun _ => rfl, trivial⟩

theorem secured_notStarted : Secured notStarted := ⟨fun h => absurd h (by decide), trivial⟩

theorem secured_stopping (target : PowerTarget) (undelivered : Bool) :
    Secured (stopping target undelivered) :=
  ⟨fun _ => rfl, trivial⟩

theorem secured_killing (undelivered : Bool) : Secured (killing undelivered) :=
  ⟨fun _ => rfl, trivial⟩

theorem secured_nothingToStop : Secured nothingToStop :=
  ⟨fun h => absurd h (by decide), trivial⟩

theorem ending_not_claiming (wish : Wish) (last : RunState) :
    (ending wish last).1.isClaiming = false := by
  unfold ending
  split
  · rfl
  split
  · rfl
  split
  · rfl
  split <;> rfl

theorem secured_settle (wish : Wish) (last : RunState) : Secured (settle wish last) := by
  have hend := ending_not_claiming wish last
  unfold settle
  refine Secured.append ⟨fun h => ?_, trivial⟩ ?_
  · exact absurd (hend.symm.trans h) (by decide)
  · split <;> trivial

theorem covers_settle (wish : Wish) (last : RunState) :
    (settle wish last).any Statement.covers = true := by
  have hend := ending_not_claiming wish last
  simp [settle, Statement.covers, hend]

theorem secured_perform {s t : System} {ok : Bool} {statement : Statement}
    {todo : List Statement} (h : s.perform ok statement = some (t, todo)) : Secured todo := by
  obtain hnone | ⟨target, undelivered, rfl⟩ | rfl | ⟨undelivered, rfl⟩ := System.perform_todo h
  · exact secured_of_no_write hnone
  · exact secured_stopping target undelivered
  · exact secured_nothingToStop
  · exact secured_killing undelivered

structure Inv (s : System) : Prop where
  gated : ∀ holder, s.gate = some holder → Secured holder.todo
  settling : s.gate.any Holder.settling = true ↔ s.watcher = some .settling
  recovering : ∀ todo, s.recovery = .clears todo → ∀ statement ∈ todo,
    statement ∈ Statement.watch :: clearing
  attended : Attended s

theorem watch_of_settling {s : System} (h : s.watcher = some .settling) :
    s.watch.watcher = some .settling := by
  simp [System.watch, h]

theorem watch_eq_settling {s : System} (h : s.watch.watcher = some .settling) :
    s.watcher = some .settling := by
  unfold System.watch at h
  split at h
  · exact h
  · simp at h

theorem isWatching_watch {s : System} (h : s.watcher.all Watcher.isWatching = true) :
    s.watch.watcher.any Watcher.isWatching = true := by
  unfold System.watch
  cases hw : s.watcher with
  | none => rfl
  | some watcher => simpa [hw] using h

theorem all_of_any {watcher : Option Watcher} (h : watcher.any Watcher.isWatching = true) :
    watcher.all Watcher.isWatching = true := by
  cases watcher with
  | none => rfl
  | some watcher => exact h

section Steps

variable {s t : System}

theorem Inv.congr (hinv : Inv s) (hgate : t.gate = s.gate) (hwatcher : t.watcher = s.watcher)
    (hrecovery : t.recovery = s.recovery) (hstate : t.row.powerState = s.row.powerState)
    (hstarted : t.startedHere = s.startedHere) : Inv t := by
  refine ⟨?_, ?_, ?_, ?_⟩
  · rw [hgate]
    exact hinv.gated
  · rw [hgate, hwatcher]
    exact hinv.settling
  · rw [hrecovery]
    exact hinv.recovering
  · unfold Attended
    rw [hstarted, hstate, hwatcher, hgate]
    exact hinv.attended

theorem settling_of_frame {statement : Statement} (hframe : s.Frame statement t) :
    t.watcher = some .settling ↔ s.watcher = some .settling := by
  rw [hframe.watcher]
  split
  · exact ⟨watch_eq_settling, watch_of_settling⟩
  · rfl

theorem attended_of_frame {statement : Statement} {rest : List Statement}
    (hframe : s.Frame statement t) (hspawn : ∀ token, statement ≠ .spawn token)
    (hsecured : Secured (statement :: rest))
    (htakes : statement = .watch → s.watcher.all Watcher.isWatching = true)
    (hattended : s.row.powerState.isClaiming = true →
      s.watcher.any Watcher.isWatching = true ∨ (statement :: rest).any Statement.covers = true)
    (hclaiming : t.row.powerState.isClaiming = true) :
    t.watcher.any Watcher.isWatching = true ∨ rest.any Statement.covers = true := by
  have hstate := hframe.state
  have hwatcher := hframe.watcher
  cases statement with
  | watch =>
    left
    rw [hwatcher]
    exact isWatching_watch (htakes rfl)
  | writeState state oom =>
    right
    have hafter : t.row.powerState = state := hstate
    rw [hafter] at hclaiming
    exact hsecured.1 hclaiming
  | spawn token => exact absurd rfl (hspawn token)
  | _ =>
    have hbefore : t.row.powerState = s.row.powerState := hstate
    have hsame : t.watcher = s.watcher := hwatcher
    rw [hbefore] at hclaiming
    rw [hsame]
    exact hattended hclaiming

theorem inv_runs {ok : Bool} (hinv : Inv s) (htakes : WatchTakes s (.runs ok))
    (h : machine.step s (.runs ok) = some t) : Inv t := by
  cases moved_of_step h with
  | @runs _ holder statement rest u todo hgate htodo hperform =>
    have hframe := System.perform_frame hperform
    have hsecured : Secured (statement :: rest) := htodo ▸ hinv.gated holder hgate
    have hafter : Secured (todo ++ rest) := (secured_perform hperform).append hsecured.tail
    refine ⟨?_, ?_, ?_, ?_⟩
    · intro holder' hholder
      cases hholder
      exact hafter
    · have hsettling := hinv.settling
      rw [hgate] at hsettling
      exact hsettling.trans (settling_of_frame hframe).symm
    · intro todo' htodo'
      exact hinv.recovering todo' (hframe.recovery.symm.trans htodo')
    intro hstarted hclaiming
    have hbefore : s.row.powerState.isClaiming = true →
        s.watcher.any Watcher.isWatching = true ∨
          (statement :: rest).any Statement.covers = true := by
      intro hclaims
      have := hinv.attended (hframe.startedHere ▸ hstarted) hclaims
      simpa [hgate, htodo] using this
    have hspawn : ∀ token, statement ≠ .spawn token := by
      intro token heq
      subst heq
      simp [System.perform] at hperform
    have hhead : statement = .watch → s.watcher.all Watcher.isWatching = true := by
      intro heq
      exact htakes (by simp [hgate, htodo, heq])
    have := attended_of_frame hframe hspawn hsecured hhead hbefore hclaiming
    simp only [System.goesOn, Option.any_some, List.any_append, Bool.or_eq_true]
    exact this.imp_right .inr

theorem inv_claims {token : String} (hinv : Inv s)
    (h : machine.step s (.claims token) = some t) : Inv t := by
  cases moved_of_step h with
  | @claims _ holder rest hgate htodo =>
    have hrest : Secured rest := by
      have := hinv.gated holder hgate
      rw [htodo] at this
      exact this.tail
    refine ⟨?_, ?_, hinv.recovering, ?_⟩
    · intro holder' hholder
      cases hholder
      exact (secured_starting token).append hrest
    · have hsettling := hinv.settling
      rw [hgate] at hsettling
      exact hsettling
    · intro hstarted hclaiming
      right
      simp [System.goesOn, starting, Statement.covers]

theorem inv_spawns {ok started : Bool} (hinv : Inv s)
    (h : machine.step s (.spawns ok started) = some t) : Inv t := by
  cases moved_of_step h with
  | @spawns _ _ token holder rest hgate htodo =>
    have hrest : Secured rest := by
      have := hinv.gated holder hgate
      rw [htodo] at this
      exact this.tail
    have hnext : Secured (if ok then [.watch] else notStarted) ∧
        (if ok then [.watch] else notStarted).any Statement.covers = true := by
      cases ok with
      | true => exact ⟨trivial, rfl⟩
      | false => exact ⟨secured_notStarted, rfl⟩
    have hkept : ∀ u : System, u.watcher = s.watcher → u.recovery = s.recovery →
        Inv (u.goesOn holder ((if ok then [.watch] else notStarted) ++ rest)) := by
      intro u hwatcher hrecovery
      refine ⟨?_, ?_, ?_, ?_⟩
      · intro holder' hholder
        cases hholder
        exact hnext.1.append hrest
      · have hsettling := hinv.settling
        rw [hgate, ← hwatcher] at hsettling
        exact hsettling
      · intro todo htodo'
        exact hinv.recovering todo (hrecovery.symm.trans htodo')
      · intro hstarted hclaiming
        right
        simp only [System.goesOn, Option.any_some, List.any_append, hnext.2, Bool.true_or]
    apply hkept
    · split <;> rfl
    · split <;> rfl

theorem inv_releases (hinv : Inv s) (h : machine.step s .releases = some t) : Inv t := by
  cases moved_of_step h with
  | @releases settling hgate =>
    have hsettling := hinv.settling
    rw [hgate] at hsettling
    refine ⟨by simp, ?_, hinv.recovering, ?_⟩
    · cases settling with
      | true => simp
      | false => simpa using hsettling
    intro hstarted hclaiming
    have hattended := hinv.attended hstarted hclaiming
    rw [hgate] at hattended
    have hwatching : s.watcher.any Watcher.isWatching = true := by simpa using hattended
    cases settling with
    | true =>
      have hwatcher : s.watcher = some .settling := by simpa using hsettling
      rw [hwatcher] at hwatching
      exact absurd hwatching (by decide)
    | false =>
      left
      simpa using hwatching

theorem inv_watcher {watcher : Watcher} (hinv : Inv s) (hgate : t.gate = s.gate)
    (hrecovery : t.recovery = s.recovery) (hwatcher : t.watcher = some watcher)
    (hwatching : watcher.isWatching = true) (hbefore : s.watcher ≠ some .settling) : Inv t := by
  have hafter : t.watcher ≠ some .settling := by
    intro heq
    obtain rfl := Option.some.inj (hwatcher.symm.trans heq)
    exact absurd hwatching (by decide)
  refine ⟨?_, ?_, ?_, ?_⟩
  · rw [hgate]
    exact hinv.gated
  · rw [hgate, hinv.settling]
    exact iff_of_false hbefore hafter
  · rw [hrecovery]
    exact hinv.recovering
  intro hstarted hclaiming
  left
  rw [hwatcher]
  exact hwatching

theorem inv_watches (hinv : Inv s) (h : s.watches = some t) : Inv t := by
  cases System.moved_watches h with
  | lies hw | ends hw => exact inv_watcher hinv rfl rfl rfl rfl (by simp [hw])
  | wakes hw | looks hw | records hw =>
    refine inv_watcher hinv rfl rfl rfl ?_ (by simp [hw])
    split <;> rfl
  | waits => exact hinv
  | hands hw hgive =>
    obtain ⟨links, rfl⟩ := System.give_eq hgive
    exact inv_watcher hinv rfl rfl rfl rfl (by simp [hw])
  | leaves hw =>
    refine ⟨hinv.gated, ?_, hinv.recovering, ?_⟩
    · have hsettling := hinv.settling
      rw [hw] at hsettling
      simpa using hsettling
    · intro hstarted hclaiming
      have hattended := hinv.attended hstarted hclaiming
      rw [hw] at hattended
      exact hattended

theorem inv_settles (hinv : Inv s) (h : machine.step s .settles = some t) : Inv t := by
  cases moved_of_step h with
  | @settles last hw hgate =>
    refine ⟨?_, by simp, hinv.recovering, ?_⟩
    · intro holder hholder
      cases hholder
      exact secured_settle s.wish last
    · intro hstarted hclaiming
      right
      exact covers_settle s.wish last

theorem claims_before_clearing {statement : Statement} {state : PowerState}
    (hmem : statement ∈ Statement.watch :: clearing)
    (h : (statement.state state).isClaiming = true) : state.isClaiming = true := by
  simp only [clearing, List.mem_cons, List.not_mem_nil, or_false] at hmem
  rcases hmem with rfl | rfl | rfl | rfl | rfl
  · exact h
  · simp [Statement.state, PowerState.isClaiming] at h
  · exact h
  · exact h
  · exact h

theorem inv_recovers (hinv : Inv s) (h : s.recovers = some t) : Inv t := by
  have hnew : ∀ {u : System}, u.gate = s.gate → u.watcher = s.watcher →
      u.row.powerState = s.row.powerState → u.startedHere = s.startedHere →
      (∀ todo, u.recovery = .clears todo → ∀ statement ∈ todo,
        statement ∈ Statement.watch :: clearing) → Inv u := by
    intro u hgate hwatcher hstate hstarted hrecovering
    have hkept : Inv { u with recovery := s.recovery } :=
      hinv.congr hgate hwatcher rfl hstate hstarted
    exact { hkept with recovering := hrecovering }
  cases System.moved_recovers h with
  | adopts | adopted | finds => exact hnew rfl rfl rfl rfl (by simp)
  | judges =>
    refine hnew rfl rfl rfl rfl ?_
    intro todo htodo statement hmem
    simp only [Recovery.clears.injEq] at htodo
    subst htodo
    split at hmem
    · split at hmem
      · simp only [List.mem_singleton] at hmem
        simp [hmem]
      · exact List.mem_cons_of_mem _ hmem
    · simp at hmem
  | @clears statement rest u todo hrecovery hperform =>
    have hframe := System.perform_frame hperform
    have hmem := hinv.recovering _ hrecovery
    have hstatement := hmem statement (List.mem_cons_self ..)
    have hnone : todo = [] := System.perform_clearing hstatement hperform
    refine ⟨?_, ?_, ?_, ?_⟩
    · intro holder hholder
      exact hinv.gated holder (hframe.gate.symm.trans hholder)
    · have hsettling := hinv.settling
      rw [← hframe.gate] at hsettling
      exact hsettling.trans (settling_of_frame hframe).symm
    · intro todo' htodo' statement' hmem'
      simp only [Recovery.clears.injEq, hnone, List.nil_append] at htodo'
      subst htodo'
      exact hmem statement' (List.mem_cons_of_mem _ hmem')
    intro hstarted hclaiming
    have hclaims : s.row.powerState.isClaiming = true :=
      claims_before_clearing hstatement (hframe.state ▸ hclaiming)
    obtain hwatching | hgated := hinv.attended (hframe.startedHere ▸ hstarted) hclaims
    · left
      show u.watcher.any Watcher.isWatching = true
      rw [hframe.watcher]
      split
      · exact isWatching_watch (all_of_any hwatching)
      · exact hwatching
    · right
      show u.gate.any _ = true
      rw [hframe.gate]
      exact hgated

theorem inv_step {e : Event} (hinv : Inv s) (htakes : WatchTakes s e)
    (h : machine.step s e = some t) : Inv t := by
  cases moved_of_step h with
  | runs => exact inv_runs hinv htakes h
  | claims => exact inv_claims hinv h
  | spawns => exact inv_spawns hinv h
  | releases => exact inv_releases hinv h
  | lies | wakes | waits | ends | hands | looks | records | leaves => exact inv_watches hinv h
  | settles => exact inv_settles hinv h
  | adopts | adopted | finds | judges | clears => exact inv_recovers hinv h
  | enters hnone =>
    have hsettling := hinv.settling
    rw [hnone] at hsettling
    refine ⟨?_, ?_, hinv.recovering, ?_⟩
    · intro holder hholder
      cases hholder
      trivial
    · simpa using hsettling
    intro hstarted hclaiming
    have hattended := hinv.attended hstarted hclaiming
    rw [hnone] at hattended
    exact hattended.imp_right (by simp)
  | _ => exact hinv.congr rfl rfl rfl rfl rfl

end Steps

theorem inv_booted (row : ServerRow) (processes : List Process) : Inv (booted row processes) := by
  refine ⟨by simp [booted], by simp [booted], by simp [booted], ?_⟩
  intro hstarted
  simp [booted] at hstarted

def startRun : List Event :=
  [Event.enters .start] ++ List.replicate 5 (Event.runs true) ++ [Event.claims "first"] ++
    List.replicate 4 (Event.runs true) ++
    [Event.spawns true true, .runs true, .releases, .greets 0, .attaches 0, .watches]

/-- `ask_to_stop` on a server with a link. -/
def askRun (action : PowerAction) : List Event :=
  [Event.enters action] ++ List.replicate 9 (Event.runs true) ++ [Event.releases]

/-- The process ends after a wish to restart, the watcher writes it down, starts the next one and
leaves. -/
def restartRun : List Event :=
  startRun ++ askRun .restart ++
    [Event.absorbsExited 0 (some 0) none false, .watches, .watches, .watches, .closes 0,
      .detaches 0, .settles] ++ List.replicate 6 (Event.runs true) ++ [Event.claims "second"] ++
    List.replicate 4 (Event.runs true) ++ [Event.spawns true true, .runs true, .releases, .watches]

end CraftPanel.Servers
