import Mathlib.Data.Option.Basic

/-!
# Machines and their guarded runs

A machine is a partial step function: an event that carries every choice of the environment,
and `none` where the event is not possible. Runs are lists of events. A run *meets* a condition
when each of its events satisfies it in the state the event is taken from; the two rules below
turn what one step preserves under the condition into what every such run preserves.
-/

namespace Framework

/-- A transition system with all nondeterminism in the event. -/
structure Machine (State Event : Type*) where
  step : State → Event → Option State

namespace Machine

variable {State Event : Type*} (m : Machine State Event)

/-- The state after a list of events, `none` as soon as one is refused. -/
def exec : State → List Event → Option State
  | s, [] => some s
  | s, e :: es => match m.step s e with
    | none => none
    | some t => exec t es

/-- Every event of the run meets the condition in the state before it. -/
def Meets (ok : State → Event → Prop) : State → List Event → Prop
  | _, [] => True
  | s, e :: es => ok s e ∧ match m.step s e with
    | none => True
    | some t => Meets ok t es

instance decidableMeets (ok : State → Event → Prop) [∀ s e, Decidable (ok s e)] :
    ∀ s es, Decidable (m.Meets ok s es)
  | _, [] => isTrue trivial
  | s, e :: es =>
    have rest : ∀ next : Option State, Decidable (match next with
        | none => True
        | some t => m.Meets ok t es)
      | none => isTrue trivial
      | some t => decidableMeets ok t es
    have := rest (m.step s e)
    inferInstanceAs (Decidable (ok s e ∧ _))

/-- The run is possible and its last state satisfies `P`. -/
def Ends (s : State) (es : List Event) (P : State → Prop) : Prop :=
  ∃ t, m.exec s es = some t ∧ P t

instance decidableEnds (s : State) (es : List Event) (P : State → Prop) [DecidablePred P] :
    Decidable (m.Ends s es P) :=
  match h : m.exec s es with
  | none => isFalse fun ⟨_, ht, _⟩ => nomatch h.symm.trans ht
  | some t => decidable_of_iff (P t)
    ⟨fun hp => ⟨t, h, hp⟩, fun ⟨_, hu, hp⟩ => (Option.some.inj (h.symm.trans hu)) ▸ hp⟩

@[simp] theorem exec_nil (s : State) : m.exec s [] = some s := rfl

@[simp] theorem meets_nil (ok : State → Event → Prop) (s : State) : m.Meets ok s [] := trivial

variable {s t : State} {es : List Event}

theorem exec_cons {e : Event} :
    m.exec s (e :: es) = some t ↔ ∃ u, m.step s e = some u ∧ m.exec u es = some t := by
  simp only [exec]
  cases h : m.step s e with
  | none => simp
  | some u => simp

theorem exec_append {es es' : List Event} :
    m.exec s (es ++ es') = some t ↔ ∃ u, m.exec s es = some u ∧ m.exec u es' = some t := by
  induction es generalizing s with
  | nil => simp
  | cons e es ih =>
    rw [List.cons_append, exec_cons]
    constructor
    · rintro ⟨v, hstep, hrest⟩
      obtain ⟨u, hfirst, hlast⟩ := ih.mp hrest
      exact ⟨u, (exec_cons m).mpr ⟨v, hstep, hfirst⟩, hlast⟩
    · rintro ⟨u, hfirst, hlast⟩
      obtain ⟨v, hstep, hrest⟩ := (exec_cons m).mp hfirst
      exact ⟨v, hstep, ih.mpr ⟨u, hrest, hlast⟩⟩

variable {ok : State → Event → Prop}

theorem meets_cons {s u : State} {e : Event}
    (h : m.step s e = some u) : m.Meets ok s (e :: es) ↔ ok s e ∧ m.Meets ok u es := by
  simp only [Meets, h]

theorem Meets.mono {m : Machine State Event} {ok ok' : State → Event → Prop}
    (himp : ∀ s e, ok s e → ok' s e) (h : m.Meets ok s es) :
    m.Meets ok' s es := by
  induction es generalizing s with
  | nil => trivial
  | cons e es ih =>
    refine ⟨himp s e h.1, ?_⟩
    cases hs : m.step s e with
    | none => trivial
    | some t =>
      have := h.2
      rw [hs] at this
      exact ih this

theorem meets_and {ok ok' : State → Event → Prop} :
    m.Meets (fun s e => ok s e ∧ ok' s e) s es ↔ m.Meets ok s es ∧ m.Meets ok' s es := by
  constructor
  · intro h
    exact ⟨h.mono fun _ _ hboth => hboth.1, h.mono fun _ _ hboth => hboth.2⟩
  · intro ⟨h, h'⟩
    induction es generalizing s with
    | nil => trivial
    | cons e es ih =>
      refine ⟨⟨h.1, h'.1⟩, ?_⟩
      cases hs : m.step s e with
      | none => trivial
      | some t => exact ih ((m.meets_cons hs).mp h).2 ((m.meets_cons hs).mp h').2

/-- The invariant rule: what every allowed step preserves holds after every allowed run. -/
theorem invariant {I : State → Prop}
    (hstep : ∀ {s e t}, I s → ok s e → m.step s e = some t → I t) (hs : I s) (hok : m.Meets ok s es)
    (hrun : m.exec s es = some t) : I t := by
  induction es generalizing s with
  | nil =>
    obtain rfl : s = t := by simpa using hrun
    exact hs
  | cons e es ih =>
    obtain ⟨u, hu, ht⟩ := (m.exec_cons).mp hrun
    obtain ⟨he, hes⟩ := (m.meets_cons hu).mp hok
    exact ih (hstep hs he hu) hes ht

theorem meets_true (s : State) (es : List Event) : m.Meets (fun _ _ => True) s es := by
  induction es generalizing s with
  | nil => trivial
  | cons e es ih =>
    refine ⟨trivial, ?_⟩
    cases m.step s e with
    | none => trivial
    | some t => exact ih t

/-- What every step preserves holds after every run. -/
theorem always {I : State → Prop} (hstep : ∀ {s e t}, I s → m.step s e = some t → I t) (hs : I s)
    (hrun : m.exec s es = some t) : I t :=
  m.invariant (fun hinv _ h => hstep hinv h) hs (m.meets_true s es) hrun

/-- The two-state rule: a preorder that every allowed step respects relates the two ends of
every allowed run. -/
theorem relates {R : State → State → Prop}
    (hrefl : ∀ s, R s s) (htrans : ∀ {s t u}, R s t → R t u → R s u)
    (hstep : ∀ {s e t}, ok s e → m.step s e = some t → R s t) (hok : m.Meets ok s es)
    (hrun : m.exec s es = some t) : R s t := by
  induction es generalizing s with
  | nil =>
    obtain rfl : s = t := by simpa using hrun
    exact hrefl s
  | cons e es ih =>
    obtain ⟨u, hu, ht⟩ := (m.exec_cons).mp hrun
    obtain ⟨he, hes⟩ := (m.meets_cons hu).mp hok
    exact htrans (hstep he hu) (ih hes ht)

/-- Where the condition on a step is just that `P` survives it, the runs that meet the condition
are the runs that never leave `P`. -/
theorem meets_iff_always {I P : State → Prop}
    (hinv : ∀ {s e t}, I s → m.step s e = some t → I t)
    (hstep : ∀ {s e t}, I s → P s → m.step s e = some t → (ok s e ↔ P t)) (hs : I s) (hp : P s)
    (hrun : m.exec s es = some t) :
    m.Meets ok s es ↔
      ∀ earlier u, earlier <+: es → m.exec s earlier = some u → P u := by
  induction es generalizing s with
  | nil =>
    refine iff_of_true trivial fun earlier u hearlier hexec => ?_
    obtain rfl := List.prefix_nil.mp hearlier
    obtain rfl : s = u := by simpa using hexec
    exact hp
  | cons e es ih =>
    obtain ⟨v, hv, ht⟩ := (m.exec_cons).mp hrun
    rw [m.meets_cons hv, hstep hs hp hv]
    constructor
    · rintro ⟨hpv, hes⟩ earlier u hearlier hexec
      obtain rfl | ⟨rest, rfl, hrest⟩ := List.prefix_cons_iff.mp hearlier
      · obtain rfl : s = u := by simpa using hexec
        exact hp
      · obtain ⟨w, hw, hu⟩ := (m.exec_cons).mp hexec
        obtain rfl : v = w := Option.some.inj (hv.symm.trans hw)
        exact (ih (hinv hs hv) hpv ht).mp hes rest u hrest hu
    · intro hall
      have hpv : P v := hall [e] v ⟨es, rfl⟩ ((m.exec_cons).mpr ⟨v, hv, rfl⟩)
      refine ⟨hpv, (ih (hinv hs hv) hpv ht).mpr fun earlier u hearlier hexec => ?_⟩
      exact hall (e :: earlier) u (List.cons_prefix_cons.mpr ⟨rfl, hearlier⟩)
        ((m.exec_cons).mpr ⟨v, hv, hexec⟩)

end Machine

end Framework
