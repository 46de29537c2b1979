import CraftPanel.Framework.Machine
import CraftPanel.Model

/-!
# The link registry

`listen` and `greet` of `servers/hub.rs` for any number of connections and servers. The removal of
a link stands behind the read loop, and a read error leaves `greet` from inside the loop: the
registry is right in exactly the runs in which no connection that has its link there ends so.
-/

namespace CraftPanel.Servers.Registry

open Framework

/-- Where the task of one connection is. -/
inductive Phase
  | opened
  | accepting (server : Id)
  | registering (server : Id)
  | serving (server : Id)
  | leaving (server : Id)
  | ended
  deriving DecidableEq

/-- What `next_line` gives: a greeting, another message or one that cannot be read, the end of the
stream, or an error. -/
inductive Line
  | hello (server : Id) (token : String)
  | other
  | unreadable
  | ends
  | fails

structure Hub where
  tokens : Id → Option String := fun _ => none
  links : Id → Option Nat := fun _ => none
  connections : List Phase := []
  /-- The connection that was registered last for a server. -/
  newest : Id → Option Nat := fun _ => none

inductive Event
  | setsToken (server : Id) (token : String)
  | forgetsToken (server : Id)
  | connects
  | reads (k : Nat) (line : Line)
  | writes (k : Nat) (ok : Bool)
  | registers (k : Nat)
  | leaves (k : Nat)

namespace Hub

variable (s : Hub)

def setPhase (k : Nat) (phase : Phase) : Hub :=
  { s with connections := s.connections.set k phase }

/-- The greeting, and every line after it. A message of the loop changes no link, whatever it is
and whether it can be read. -/
def reads (k : Nat) (line : Line) : Option Hub :=
  match s.connections[k]? with
  | some .opened => match line with
    | .hello server token =>
      some (s.setPhase k (if s.tokens server = some token then .accepting server else .ended))
    | _ => some (s.setPhase k .ended)
  | some (.serving server) => match line with
    | .ends => some (s.setPhase k (.leaving server))
    | .fails => some (s.setPhase k .ended)
    | _ => some s
  | _ => none

/-- `Accepted` goes out. -/
def writes (k : Nat) (ok : Bool) : Option Hub :=
  match s.connections[k]? with
  | some (.accepting server) => some (s.setPhase k (if ok then .registering server else .ended))
  | _ => none

def registers (k : Nat) : Option Hub :=
  match s.connections[k]? with
  | some (.registering server) => some { s.setPhase k (.serving server) with
      links := Function.update s.links server (some k)
      newest := Function.update s.newest server (some k) }
  | _ => none

def leaves (k : Nat) : Option Hub :=
  match s.connections[k]? with
  | some (.leaving server) => some { s.setPhase k .ended with
      links := if s.links server = some k then Function.update s.links server none else s.links }
  | _ => none

def step : Event → Option Hub
  | .setsToken server token => some { s with tokens := Function.update s.tokens server (some token) }
  | .forgetsToken server => some { s with tokens := Function.update s.tokens server none }
  | .connects => some { s with connections := s.connections ++ [.opened] }
  | .reads k line => s.reads k line
  | .writes k ok => s.writes k ok
  | .registers k => s.registers k
  | .leaves k => s.leaves k

/-- The connection is being served for the server: it has registered and not come to its end. -/
def isServed (k : Nat) (server : Id) : Bool :=
  s.connections[k]? = some (.serving server) || s.connections[k]? = some (.leaving server)

end Hub

def machine : Machine Hub Event := ⟨Hub.step⟩

/-- The registry has the link that was registered last for each server, as long as its connection
is served, and nothing else. -/
def Registered (s : Hub) : Prop :=
  ∀ server k, s.links server = some k ↔ s.newest server = some k ∧ s.isServed k server = true

def EndsCleanly (s : Hub) : Event → Prop
  | .reads k .fails => match s.connections[k]? with
    | some (.serving server) => s.links server ≠ some k
    | _ => True
  | _ => True

instance (s : Hub) (e : Event) : Decidable (EndsCleanly s e) := by
  unfold EndsCleanly
  split
  · split <;> infer_instance
  · infer_instance

section Steps

variable {s t : Hub}

theorem isServed_setPhase {k j : Nat} {phase : Phase} {server : Id}
    (hk : (s.connections[k]?).isSome = true) :
    (s.setPhase k phase).isServed j server =
      if j = k then phase = .serving server || phase = .leaving server
      else s.isServed j server := by
  have hlt : k < s.connections.length := by
    by_contra hge
    rw [List.getElem?_eq_none (Nat.le_of_not_lt hge)] at hk
    exact absurd hk (by decide)
  by_cases hj : j = k
  · subst hj
    simp [Hub.isServed, Hub.setPhase, hlt]
  · have hne : k ≠ j := fun heq => hj heq.symm
    simp [Hub.isServed, Hub.setPhase, hj, List.getElem?_set_ne hne]

theorem registered_setPhase {k : Nat} {phase old : Phase} (hreg : Registered s)
    (hk : s.connections[k]? = some old)
    (hsame : ∀ server, (phase = .serving server ∨ phase = .leaving server) ↔
      (old = .serving server ∨ old = .leaving server)) :
    Registered (s.setPhase k phase) := by
  intro server j
  have hserved : (s.setPhase k phase).isServed j server = s.isServed j server := by
    rw [isServed_setPhase (by simp [hk])]
    split
    · rename_i hj
      subst hj
      have hiff := hsame server
      simp only [Hub.isServed, hk, Option.some.injEq]
      grind
    · rfl
  show s.links server = some j ↔ s.newest server = some j ∧ _
  rw [hserved]
  exact hreg server j

theorem registered_connects (hreg : Registered s) :
    Registered { s with connections := s.connections ++ [.opened] } := by
  intro server k
  have hserved : Hub.isServed { s with connections := s.connections ++ [.opened] } k server =
      s.isServed k server := by
    simp only [Hub.isServed, List.getElem?_append]
    split
    · rfl
    rename_i hge
    have hnone : s.connections[k]? = none := List.getElem?_eq_none (Nat.le_of_not_lt hge)
    rw [hnone]
    cases hk : k - s.connections.length <;> simp
  rw [hserved]
  exact hreg server k

theorem registered_registers {k : Nat} (hreg : Registered s) (h : s.registers k = some t) :
    Registered t := by
  unfold Hub.registers at h
  split at h
  · rename_i server hk
    cases h
    intro other j
    have hserved : (s.setPhase k (.serving server)).isServed j other =
        if j = k then Phase.serving server = .serving other else s.isServed j other := by
      rw [isServed_setPhase (by simp [hk])]
      simp
    show Function.update s.links server (some k) other = some j ↔
      Function.update s.newest server (some k) other = some j ∧
        (s.setPhase k (.serving server)).isServed j other = true
    rw [hserved]
    have hbefore := hreg other j
    have hunserved : s.isServed k other = false := by simp [Hub.isServed, hk]
    by_cases hother : other = server
    · subst hother
      simp only [Function.update_self, Option.some.injEq]
      grind
    · simp only [Function.update_of_ne hother]
      grind
  · simp at h

theorem registered_leaves {k : Nat} (hreg : Registered s) (h : s.leaves k = some t) :
    Registered t := by
  unfold Hub.leaves at h
  split at h
  · rename_i server hk
    cases h
    intro other j
    have hserved : (s.setPhase k .ended).isServed j other =
        if j = k then false else s.isServed j other := by
      rw [isServed_setPhase (by simp [hk])]
      simp
    have hbefore := hreg other j
    have hown : ∀ name, s.isServed k name = true ↔ name = server := by
      intro name
      simp only [Hub.isServed, hk]
      grind
    show (if s.links server = some k then Function.update s.links server none else s.links) other =
        some j ↔ s.newest other = some j ∧ (s.setPhase k .ended).isServed j other = true
    rw [hserved]
    by_cases hlink : s.links server = some k
    · rw [if_pos hlink]
      by_cases hother : other = server
      · subst hother
        have hnewest := ((hreg other k).mp hlink).1
        simp only [Function.update_self]
        grind
      · simp only [Function.update_of_ne hother]
        grind
    · rw [if_neg hlink]
      have hlater := hreg server k
      grind
  · simp at h

theorem registered_fails_iff {k : Nat} (hreg : Registered s) (h : s.reads k .fails = some t) :
    EndsCleanly s (.reads k .fails) ↔ Registered t := by
  unfold Hub.reads at h
  split at h
  · rename_i hk
    cases h
    refine iff_of_true (by simp [EndsCleanly, hk]) (registered_setPhase hreg hk (by simp))
  · rename_i server hk
    cases h
    have hserved : ∀ j other, (s.setPhase k .ended).isServed j other =
        if j = k then false else s.isServed j other := by
      intro j other
      rw [isServed_setPhase (by simp [hk])]
      simp
    simp only [EndsCleanly, hk]
    constructor
    · intro hlink other j
      have hbefore := hreg other j
      have hown := hreg server k
      show s.links other = some j ↔ s.newest other = some j ∧ _
      rw [hserved]
      have hserver : s.isServed k other = true → other = server := by
        simp only [Hub.isServed, hk]
        grind
      grind
    · intro hafter hlink
      have hstays := (hafter server k).mp hlink
      rw [hserved] at hstays
      simp at hstays
  · simp at h

theorem registered_step_iff {e : Event} (hreg : Registered s) (h : machine.step s e = some t) :
    EndsCleanly s e ↔ Registered t := by
  have hclean : EndsCleanly s e → Registered t → (EndsCleanly s e ↔ Registered t) :=
    fun hends hafter => iff_of_true hends hafter
  cases e with
  | setsToken server token | forgetsToken server =>
    cases h
    exact hclean trivial hreg
  | connects =>
    cases h
    exact hclean trivial (registered_connects hreg)
  | registers k => exact hclean trivial (registered_registers hreg h)
  | leaves k => exact hclean trivial (registered_leaves hreg h)
  | writes k ok =>
    simp only [machine, Hub.step, Hub.writes] at h
    split at h
    · rename_i server hk
      cases h
      refine hclean trivial (registered_setPhase hreg hk ?_)
      split <;> simp
    · simp at h
  | reads k line =>
    cases line with
    | fails => exact registered_fails_iff hreg h
    | hello server token =>
      simp only [machine, Hub.step, Hub.reads] at h
      split at h
      · rename_i hk
        cases h
        refine hclean trivial (registered_setPhase hreg hk ?_)
        split <;> simp
      · cases h
        exact hclean trivial hreg
      · simp at h
    | other | unreadable =>
      simp only [machine, Hub.step, Hub.reads] at h
      split at h
      · rename_i hk
        cases h
        exact hclean trivial (registered_setPhase hreg hk (by simp))
      · cases h
        exact hclean trivial hreg
      · simp at h
    | ends =>
      simp only [machine, Hub.step, Hub.reads] at h
      split at h
      · rename_i hk
        cases h
        exact hclean trivial (registered_setPhase hreg hk (by simp))
      · rename_i server hk
        cases h
        exact hclean trivial (registered_setPhase hreg hk (by simp))
      · simp at h

end Steps

/-- Whatever connections come, greet and end, and in whatever order: the runs in which none of them
ends by a read error while its link is in the registry are the runs in which the registry always
has the newest link of a server as long as its connection is served, and no other. -/
theorem links_are_served_iff {s : Hub} {es : List Event} (hrun : machine.exec {} es = some s) :
    machine.Meets EndsCleanly {} es ↔
      ∀ earlier u, earlier <+: es → machine.exec {} earlier = some u → Registered u :=
  machine.meets_iff_always (fun (_ : True) _ => trivial) (fun _ => registered_step_iff) trivial
    (by intro server k; simp) hrun

/-- One supervisor greets, and a second one takes its place before the first is gone. -/
def takenOver : List Event :=
  [.setsToken 1 "token", .connects, .reads 0 (.hello 1 "token"), .writes 0 true, .registers 0,
    .connects, .reads 1 (.hello 1 "token"), .writes 1 true, .registers 1, .reads 0 .ends, .leaves 0]

theorem links_are_served_taken_over :
    (∃ s, machine.exec {} takenOver = some s ∧ s.links 1 = some 1) ∧
      ∀ earlier u, earlier <+: takenOver → machine.exec {} earlier = some u → Registered u := by
  have hok : machine.Meets EndsCleanly {} takenOver := by decide +kernel
  have hend : machine.Ends {} takenOver fun s => s.links 1 = some 1 := by decide +kernel
  obtain ⟨s, hrun, hlink⟩ := hend
  exact ⟨⟨s, hrun, hlink⟩, (links_are_served_iff hrun).mp hok⟩

/-- A line that is no UTF-8, or a connection that is reset, ends `greet` inside the loop. -/
theorem broken_link_stays :
    ¬ ∀ (es : List Event) (s : Hub), machine.exec {} es = some s → Registered s := by
  intro hall
  have hend : machine.Ends {} [.setsToken 1 "token", .connects, .reads 0 (.hello 1 "token"),
      .writes 0 true, .registers 0, .reads 0 .fails] fun s =>
        s.links 1 = some 0 ∧ s.isServed 0 1 = false := by decide +kernel
  obtain ⟨s, hrun, hlink, hserved⟩ := hend
  have hstill := ((hall _ s hrun 1 0).mp hlink).2
  rw [hserved] at hstill
  exact absurd hstill (by decide)

end CraftPanel.Servers.Registry
