import CraftPanel.Framework.Effects
import Mathlib.Data.List.Infix

/-!
# Sweeps

An effect for each of a list, in order, until one of them fails. What the states before and after
are related by, all the way, is a matter of the single steps that are come to.
-/

namespace Framework

namespace Effect

universe u

variable {σ ε α ι : Type u} (step : Nat → ι → Effect σ ε α)

/-- The first of the list is the n-th. -/
def sweep : Nat → List ι → Effect σ ε (List α)
  | _, [] => pure []
  | n, one :: rest => step n one >>= fun a => sweep (n + 1) rest >>= fun as => pure (a :: as)

/-- The step for one of the list, in the state that those before it have left. -/
def Reaches (n : Nat) (s : σ) (list : List ι) (before : List ι) (one : ι) (t : σ) : Prop :=
  before ++ [one] <+: list ∧ ∃ as, sweep step n before s = (.ok as, t)

variable {step} {n : Nat} {s t : σ} {one : ι} {before list rest : List ι} {R : σ → σ → Prop}

theorem sweep_cons_eq : sweep step n (one :: rest) s = match step n one s with
    | (.ok a, t) =>
      ((sweep step (n + 1) rest t).1.map (fun as => a :: as), (sweep step (n + 1) rest t).2)
    | (.error e, t) => (.error e, t) := by
  have hcons : sweep step n (one :: rest) s =
      bind (step n one) (fun a => bind (sweep step (n + 1) rest) fun as => pure (a :: as)) s := rfl
  rw [hcons, bind]
  rcases step n one s with ⟨e | a, t⟩
  · rfl
  · simp only [bind]
    cases hrest : sweep step (n + 1) rest t with
    | mk result u => cases result <;> rfl

theorem sweep_cons : (sweep step n (one :: rest) s).2 = match step n one s with
    | (.ok _, t) => (sweep step (n + 1) rest t).2
    | (.error _, t) => t := by
  rw [sweep_cons_eq]
  rcases step n one s with ⟨e | a, t⟩ <;> rfl

theorem sweep_cons_ok : (∃ as, sweep step n (one :: rest) s = (.ok as, t)) ↔
    ∃ a u, step n one s = (.ok a, u) ∧ ∃ as, sweep step (n + 1) rest u = (.ok as, t) := by
  rw [sweep_cons_eq]
  rcases step n one s with ⟨e | a, u⟩
  · simp
  · cases hrest : sweep step (n + 1) rest u with
    | mk result v => cases result <;> simp [Except.map, hrest]

theorem reaches_cons {at' : ι} : Reaches step n s (one :: rest) before at' t ↔
    before = [] ∧ at' = one ∧ t = s ∨
      ∃ later a u, before = one :: later ∧ step n one s = (.ok a, u) ∧
        Reaches step (n + 1) u rest later at' t := by
  constructor
  · rintro ⟨hpre, hok⟩
    cases before with
    | nil =>
      obtain ⟨as, hok⟩ := hok
      cases hok
      exact .inl ⟨rfl, (List.cons_prefix_cons.mp hpre).1, rfl⟩
    | cons first later =>
      obtain ⟨rfl, hrest⟩ := List.cons_prefix_cons.mp hpre
      obtain ⟨a, u, hone, hlater⟩ := sweep_cons_ok.mp hok
      exact .inr ⟨later, a, u, rfl, hone, hrest, hlater⟩
  · rintro (⟨rfl, rfl, rfl⟩ | ⟨later, a, u, rfl, hone, hpre, hlater⟩)
    · exact ⟨List.cons_prefix_cons.mpr ⟨rfl, List.nil_prefix⟩, [], rfl⟩
    · exact ⟨List.cons_prefix_cons.mpr ⟨rfl, hpre⟩, sweep_cons_ok.mpr ⟨a, u, hone, hlater⟩⟩

/-- All beginnings of the list end in related states if and only if each step that is come to
keeps what there is. -/
theorem sweep_keeps (hR : Equivalence R) :
    (∀ first, first <+: list → R s (sweep step n first s).2) ↔
      ∀ before one t, Reaches step n s list before one t →
        R t (step (n + before.length) one t).2 := by
  induction list generalizing n s with
  | nil =>
    constructor
    · rintro - before one t ⟨hpre, -⟩
      simp at hpre
    · intro _ first hfirst
      rw [List.prefix_nil.mp hfirst]
      exact hR.refl s
  | cons one rest ih =>
    have hfirst : (∀ first, first <+: one :: rest → R s (sweep step n first s).2) ↔
        ∀ later, later <+: rest → R s (sweep step n (one :: later) s).2 := by
      constructor
      · intro h later hlater
        exact h _ (List.cons_prefix_cons.mpr ⟨rfl, hlater⟩)
      · intro h first hpre
        cases first with
        | nil => exact hR.refl s
        | cons head later =>
          obtain ⟨rfl, hlater⟩ := List.cons_prefix_cons.mp hpre
          exact h later hlater
    rw [hfirst]
    simp only [reaches_cons, sweep_cons]
    rcases hone : step n one s with ⟨e | a, u⟩
    · constructor
      · rintro h before at' t (⟨rfl, rfl, rfl⟩ | ⟨later, a, u, -, hok, -⟩)
        · simpa [hone] using h [] List.nil_prefix
        · cases hok
      · intro h later _
        simpa [hone] using h [] one s (.inl ⟨rfl, rfl, rfl⟩)
    constructor
    · rintro h before at' t (⟨rfl, rfl, rfl⟩ | ⟨later, a', u', rfl, hok, hreaches⟩)
      · simpa [hone, sweep, pure] using h [] List.nil_prefix
      obtain ⟨-, rfl⟩ := Prod.mk.inj hok
      have hsu : R s u := h [] List.nil_prefix
      have hrest := ih.mp (fun first hfirst => hR.trans (hR.symm hsu) (h first hfirst))
      have hlast := hrest later at' t hreaches
      rwa [Nat.add_right_comm] at hlast
    · intro h later hlater
      have hsu : R s u := by simpa [hone] using h [] one s (.inl ⟨rfl, rfl, rfl⟩)
      refine hR.trans hsu (ih.mpr ?_ later hlater)
      intro before at' t hreaches
      have hlast := h (one :: before) at' t (.inr ⟨before, a, u, rfl, rfl, hreaches⟩)
      rwa [List.length_cons, ← Nat.add_assoc, Nat.add_right_comm] at hlast

variable (list) in
/-- What, once lost, no step brings back holds at the end if and only if it holds after each step
that is come to. -/
theorem sweep_holds {I : σ → Prop} (hback : ∀ n one s, I (step n one s).2 → I s) :
    I (sweep step n list s).2 ↔
      I s ∧ ∀ before one t, Reaches step n s list before one t →
        I (step (n + before.length) one t).2 := by
  induction list generalizing n s with
  | nil =>
    constructor
    · intro h
      refine ⟨h, ?_⟩
      rintro before one t ⟨hpre, -⟩
      simp at hpre
    · exact And.left
  | cons one rest ih =>
    simp only [reaches_cons, sweep_cons]
    rcases hone : step n one s with ⟨e | a, u⟩
    · constructor
      · intro h
        refine ⟨hback n one s (by rwa [hone]), ?_⟩
        rintro before at' t (⟨rfl, rfl, rfl⟩ | ⟨later, a, u, -, hok, -⟩)
        · simpa [hone] using h
        · cases hok
      · rintro ⟨-, h⟩
        simpa [hone] using h [] one s (.inl ⟨rfl, rfl, rfl⟩)
    dsimp only
    rw [ih]
    constructor
    · rintro ⟨hu, h⟩
      refine ⟨hback n one s (by rwa [hone]), ?_⟩
      rintro before at' t (⟨rfl, rfl, rfl⟩ | ⟨later, a', u', rfl, hok, hreaches⟩)
      · simpa [hone] using hu
      · obtain ⟨-, rfl⟩ := Prod.mk.inj hok
        have hlast := h later at' t hreaches
        rwa [Nat.add_right_comm] at hlast
    · rintro ⟨-, h⟩
      have hu : I u := by simpa [hone] using h [] one s (.inl ⟨rfl, rfl, rfl⟩)
      refine ⟨hu, fun before at' t hreaches => ?_⟩
      have hlast := h (one :: before) at' t (.inr ⟨before, a, u, rfl, rfl, hreaches⟩)
      rwa [List.length_cons, ← Nat.add_assoc, Nat.add_right_comm] at hlast

/-- What each step that goes through keeps holds at the end of a whole run. -/
theorem sweep_ok {I : List ι → σ → Prop} {as : List α}
    (hstep : ∀ n done one s a t, I done s → step n one s = (.ok a, t) → I (done ++ [one]) t)
    {done : List ι} (h : I done s) (hok : sweep step n list s = (.ok as, t)) :
    I (done ++ list) t := by
  induction list generalizing n s done as with
  | nil =>
    cases hok
    rwa [List.append_nil]
  | cons one rest ih =>
    obtain ⟨a, u, hone, as', hrest⟩ := sweep_cons_ok.mp ⟨as, hok⟩
    have hlast := ih (hstep n done one s a u h hone) hrest
    rwa [List.append_assoc] at hlast

end Effect

end Framework
