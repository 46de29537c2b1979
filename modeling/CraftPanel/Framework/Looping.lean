import CraftPanel.Framework.Effects
import Mathlib.Data.Option.Basic

/-!
# Loops that end

A loop around an effect whose every pass ends it, fails or lessens a measure. It is run with as many
passes as it can need, so it has a value for every state; what a pass keeps holds when it ends, and
what each pass may spend is spent at most once for every step of the measure.
-/

namespace Framework

universe u

structure Loop (σ ε α β : Type u) where
  body : α → Effect σ ε (α ⊕ β)
  measure : α → Nat
  lessens : ∀ {a a' : α} {s t : σ}, body a s = (.ok (.inl a'), t) → measure a' < measure a

namespace Loop

variable {σ ε α β : Type u} (loop : Loop σ ε α β)

/-- As many passes as are given, and nothing where they are not enough. -/
def passes : Nat → α → σ → Option (Except ε β × σ)
  | 0, _, _ => none
  | n + 1, a, s => match loop.body a s with
    | (.ok (.inl a'), t) => passes n a' t
    | (.ok (.inr b), t) => some (.ok b, t)
    | (.error e, t) => some (.error e, t)

variable {loop} {n : Nat} {a : α} {s : σ}

theorem passes_isSome (h : loop.measure a < n) : (loop.passes n a s).isSome = true := by
  induction n generalizing a s with
  | zero => omega
  | succ n ih =>
    rw [passes]
    split
    next a' t hbody =>
      have hless := loop.lessens hbody
      apply ih
      omega
    · rfl
    · rfl

variable (loop) in
/-- The whole loop. -/
def finish (a : α) : Effect σ ε β := fun s =>
  (loop.passes (loop.measure a + 1) a s).get (passes_isSome (Nat.lt_succ_self _))

/-- More passes than are needed change nothing. -/
theorem passes_mono {m : Nat} {last : Except ε β × σ} (h : loop.passes n a s = some last)
    (hle : n ≤ m) : loop.passes m a s = some last := by
  induction n generalizing m a s with
  | zero => cases h
  | succ n ih =>
    cases m with
    | zero => omega
    | succ m =>
      rw [passes] at h ⊢
      split at h
      next a' t heq => exact ih h (Nat.le_of_succ_le_succ hle)
      next => exact h
      next => exact h

/-- One pass, and then the loop from where it has come to. -/
theorem finish_eq : loop.finish a s = match loop.body a s with
    | (.ok (.inl a'), t) => loop.finish a' t
    | (.ok (.inr b), t) => (.ok b, t)
    | (.error e, t) => (.error e, t) := by
  have hwhole : loop.passes (loop.measure a + 1) a s = some (loop.finish a s) :=
    (Option.some_get _).symm
  rw [passes] at hwhole
  split at hwhole
  next a' t heq =>
    have hless := loop.lessens heq
    have hrest : loop.passes (loop.measure a' + 1) a' t = some (loop.finish a' t) :=
      (Option.some_get _).symm
    exact Option.some.inj (hwhole.symm.trans (passes_mono hrest hless))
  next b t heq => exact (Option.some.inj hwhole).symm
  next e t heq => exact (Option.some.inj hwhole).symm

/-- The states that the passes of a run come to. -/
inductive Comes (loop : Loop σ ε α β) (a : α) (s : σ) : α → σ → Prop
  | here : Comes loop a s a s
  | pass {a' a'' : α} {t u : σ} (before : Comes loop a s a' t)
      (on : loop.body a' t = (.ok (.inl a''), u)) : Comes loop a s a'' u

/-- From wherever a run has come to, it ends alike. -/
theorem Comes.finish_eq {a' : α} {t : σ} (h : Comes loop a s a' t) :
    loop.finish a s = loop.finish a' t := by
  induction h with
  | here => rfl
  | pass before on ih =>
    rw [ih, Loop.finish_eq, on]

/-- What every pass keeps, and what it ends in. -/
theorem finish_ends {I : α → σ → Prop} {post : Except ε β → σ → Prop}
    (hbody : ∀ a s, I a s → (loop.body a).Ends s fun result t => match result with
      | .ok (.inl a') => I a' t
      | .ok (.inr b) => post (.ok b) t
      | .error e => post (.error e) t)
    (h : I a s) : (loop.finish a).Ends s post := by
  have hpasses : ∀ n a s, I a s → ∀ last, loop.passes n a s = some last → post last.1 last.2 := by
    intro n
    induction n with
    | zero =>
      intro a s _ last hnone
      cases hnone
    | succ n ih =>
      intro a s hI last hlast
      have hpass := hbody a s hI
      unfold Effect.Ends at hpass
      rw [passes] at hlast
      split at hlast
      next a' t heq =>
        rw [heq] at hpass
        exact ih a' t hpass last hlast
      next b t heq =>
        rw [heq] at hpass
        cases hlast
        exact hpass
      next e t heq =>
        rw [heq] at hpass
        cases hlast
        exact hpass
  exact hpasses _ a s h _ (Option.some_get _).symm

/-- The same where a pass is only looked at in the states that the run comes to. -/
theorem finish_ends_of_comes {I : α → σ → Prop} {post : Except ε β → σ → Prop}
    (hbody : ∀ a' t, Comes loop a s a' t → I a' t → (loop.body a').Ends t fun result u =>
      match result with
      | .ok (.inl a'') => I a'' u
      | .ok (.inr b) => post (.ok b) u
      | .error e => post (.error e) u)
    (h : I a s) : (loop.finish a).Ends s post := by
  apply finish_ends (I := fun a' t => Comes loop a s a' t ∧ I a' t)
  · intro a' t hI
    have hpass := hbody a' t hI.1 hI.2
    unfold Effect.Ends at hpass ⊢
    cases hresult : loop.body a' t with
    | mk result u =>
      rw [hresult] at hpass
      rcases result with e | next | b
      · exact hpass
      · exact ⟨.pass hI.1 hresult, hpass⟩
      · exact hpass
  · exact ⟨.here, h⟩

/-- A loop whose passes are those of a loop without a state, seen through a view, ends as that one. -/
theorem finish_view {α' : Type u} {loop' : Loop PUnit ε α' β} {I : α → σ → Prop} (view : α → α')
    (hbody : ∀ a' t, Comes loop a s a' t → I a' t → (loop.body a').Ends t fun result u =>
      result.map (Sum.map view id) = (loop'.body (view a') ⟨⟩).1 ∧
        ∀ next, result = .ok (.inl next) → I next u)
    (h : I a s) : (loop.finish a s).1 = (loop'.finish (view a) ⟨⟩).1 := by
  have hended : (loop.finish a).Ends s fun result _ => result = (loop'.finish (view a) ⟨⟩).1 := by
    apply finish_ends_of_comes (I := fun a' t =>
      I a' t ∧ (loop'.finish (view a') ⟨⟩).1 = (loop'.finish (view a) ⟨⟩).1)
    · intro a' t hcomes hI
      apply (hbody a' t hcomes hI.1).mono
      intro result u hpass
      obtain ⟨hsame, hkept⟩ := hpass
      have hthere := hI.2
      rw [finish_eq] at hthere
      cases hother : loop'.body (view a') ⟨⟩ with
      | mk result' u' =>
        rw [hother] at hsame hthere
        obtain rfl : result.map (Sum.map view id) = result' := hsame
        rcases result with e | next | b
        · exact hthere
        · exact ⟨hkept next rfl, hthere⟩
        · exact hthere
    · exact ⟨h, rfl⟩
  exact hended

/-- What a pass spends, it spends at most once for every step of the measure and once more. -/
theorem finish_spends {spent : σ → Nat} {each : Nat}
    (hbody : ∀ a s, (loop.body a).Ends s fun _ t => spent t ≤ spent s + each) (a : α) (s : σ) :
    (loop.finish a).Ends s fun _ t => spent t ≤ spent s + each * (loop.measure a + 1) := by
  apply finish_ends (I := fun a' t =>
    spent t + each * (loop.measure a' + 1) ≤ spent s + each * (loop.measure a + 1))
  · intro a' t hI
    have hpass := hbody a' t
    unfold Effect.Ends at hpass ⊢
    cases hresult : loop.body a' t with
    | mk result u =>
      rw [hresult] at hpass
      dsimp only at hpass
      have hone : each * (loop.measure a' + 1) = each * loop.measure a' + each := Nat.mul_succ _ _
      cases result with
      | error e =>
        dsimp only
        omega
      | ok next =>
        cases next with
        | inr b =>
          dsimp only
          omega
        | inl a'' =>
          have hless := loop.lessens hresult
          have hmul : each * (loop.measure a'' + 1) ≤ each * loop.measure a' :=
            Nat.mul_le_mul_left each hless
          dsimp only
          omega
  · exact Nat.le_refl _

/-- What every pass keeps, the whole loop does. -/
theorem finish_keeps {R : σ → σ → Prop} (hrefl : ∀ s, R s s)
    (htrans : ∀ s t u, R s t → R t u → R s u) (hbody : ∀ a, (loop.body a).Keeps R) (a : α) :
    (loop.finish a).Keeps R := by
  intro s
  apply finish_ends (I := fun _ t => R s t)
  · intro a' t hI
    apply (hbody a' t).mono
    intro result u hpass
    have hwhole : R s u := htrans s t u hI hpass
    rcases result with e | next | b
    · exact hwhole
    · exact hwhole
    · exact hwhole
  · exact hrefl s

end Loop

end Framework
