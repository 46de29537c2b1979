import Mathlib.Logic.Basic
import Mathlib.Order.Defs.Unbundled

/-!
# Effects

Computations over a state that end in a value or an error, and in either case in a state: what was
done before an error stays done. A postcondition looks at both.
-/

namespace Framework

universe u

def Effect (σ ε α : Type u) : Type u := σ → Except ε α × σ

namespace Effect

variable {σ ε ε' α β : Type u}

def bind (x : Effect σ ε α) (f : α → Effect σ ε β) : Effect σ ε β := fun s => match x s with
  | (.ok a, t) => f a t
  | (.error e, t) => (.error e, t)

instance : Monad (Effect σ ε) where
  pure a := fun s => (.ok a, s)
  bind := bind

def fail (e : ε) : Effect σ ε α := fun s => (.error e, s)

/-- What changes no state. -/
def lift (x : Except ε α) : Effect σ ε α := fun s => (x, s)

/-- An error is looked at and not passed on. -/
def attempt (x : Effect σ ε α) : Effect σ ε (Except ε α) := fun s => (.ok (x s).1, (x s).2)

def mapError (f : ε → ε') (x : Effect σ ε α) : Effect σ ε' α := fun s => ((x s).1.mapError f, (x s).2)

/-- What holds of the end, begun in a state. -/
def Ends (x : Effect σ ε α) (s : σ) (post : Except ε α → σ → Prop) : Prop := post (x s).1 (x s).2

variable {x : Effect σ ε α} {f : α → Effect σ ε β} {s : σ} {post mid : Except ε α → σ → Prop}
  {last : Except ε β → σ → Prop}

theorem ends_mapError {g : ε → ε'} {post : Except ε' α → σ → Prop} :
    (x.mapError g).Ends s post ↔ x.Ends s fun result t => post (result.mapError g) t := Iff.rfl

theorem Ends.elim {result : Except ε α} {t : σ} (h : x.Ends s post) (hx : x s = (result, t)) :
    post result t := by
  unfold Ends at h
  rwa [hx] at h

theorem Ends.mono (h : x.Ends s mid) (hpost : ∀ result t, mid result t → post result t) :
    x.Ends s post := hpost _ _ h

/-- Two in a row, the first of which is known by how it ends. -/
theorem Ends.bind (h : x.Ends s mid) (hok : ∀ a t, mid (.ok a) t → (f a).Ends t last)
    (herror : ∀ e t, mid (.error e) t → last (.error e) t) : (x >>= f).Ends s last := by
  have hbind : (x >>= f) s = Effect.bind x f s := rfl
  unfold Ends at h ⊢
  rw [hbind, Effect.bind]
  match hx : x s with
  | (.ok a, t) =>
    rw [hx] at h
    exact hok a t h
  | (.error e, t) =>
    rw [hx] at h
    exact herror e t h

/-- Two in a row, the first of which may end in anything. -/
theorem ends_bind_of (hok : ∀ a t, (f a).Ends t last) (herror : ∀ e t, last (.error e) t) :
    (x >>= f).Ends s last :=
  Ends.bind (show x.Ends s fun _ _ => True from trivial) (fun a t _ => hok a t)
    (fun e t _ => herror e t)

theorem bind_assoc {γ : Type u} (x : Effect σ ε α) (f : α → Effect σ ε β) (g : β → Effect σ ε γ) :
    x >>= f >>= g = x >>= fun a => f a >>= g := by
  funext s
  show Effect.bind (Effect.bind x f) g s = Effect.bind x (fun a => Effect.bind (f a) g) s
  unfold Effect.bind
  rcases x s with ⟨e | a, t⟩
  · rfl
  · rfl

/-- Where the first of two is known to end in a value. -/
theorem bind_of_ok {a : α} {t : σ} (h : x s = (.ok a, t)) : (x >>= f) s = f a t := by
  have hbind : (x >>= f) s = Effect.bind x f s := rfl
  rw [hbind, Effect.bind, h]

theorem attempt_of {result : Except ε α} {t : σ} (h : x s = (result, t)) :
    x.attempt s = (.ok result, t) := by
  rw [attempt, h]

/-- What changes no state goes first. -/
theorem ends_lift_bind {y : Except ε α} : (lift y >>= f).Ends s last ↔
    match y with
    | .ok a => (f a).Ends s last
    | .error e => last (.error e) s := by
  cases y <;> rfl

/-! ### What holds where a value comes out -/

/-- Whenever it ends in a value. -/
def Yields (x : Effect σ ε α) (s : σ) (post : α → σ → Prop) : Prop :=
  ∀ a t, x s = (.ok a, t) → post a t

section Yields

variable {post mid : α → σ → Prop} {last : β → σ → Prop}

@[simp] theorem yields_pure {a : α} : (pure a : Effect σ ε α).Yields s post ↔ post a s := by
  constructor
  · intro h
    exact h a s rfl
  · rintro h b t heq
    cases heq
    exact h

@[simp] theorem yields_fail {e : ε} : (fail e : Effect σ ε α).Yields s post := by
  rintro a t heq
  cases heq

theorem yields_lift (y : Except ε α) (s : σ) :
    (lift y : Effect σ ε α).Yields s fun a t => y = .ok a ∧ t = s := by
  rintro a t heq
  exact ⟨congrArg Prod.fst heq, (congrArg Prod.snd heq).symm⟩

/-- What goes through went through before its error was renamed. -/
theorem yields_mapError (x : Effect σ ε α) (g : ε → ε') (s : σ) :
    (x.mapError g).Yields s fun a t => x s = (.ok a, t) := by
  intro a t heq
  have hlast : (x s).2 = t := congrArg Prod.snd heq
  have hfirst : (x s).1.mapError g = .ok a := congrArg Prod.fst heq
  cases hx : (x s).1 with
  | error e =>
    rw [hx] at hfirst
    cases hfirst
  | ok b =>
    rw [hx] at hfirst
    cases hfirst
    exact Prod.ext hx hlast

theorem Yields.mono (h : x.Yields s mid) (hpost : ∀ a t, mid a t → post a t) : x.Yields s post :=
  fun a t hx => hpost a t (h a t hx)

theorem Yields.bind (h : x.Yields s mid) (hnext : ∀ a t, mid a t → (f a).Yields t last) :
    (x >>= f).Yields s last := by
  intro b u heq
  have hbind : (x >>= f) s = Effect.bind x f s := rfl
  rw [hbind, Effect.bind] at heq
  match hx : x s with
  | (.ok a, t) =>
    rw [hx] at heq
    exact hnext a t (h a t hx) b u heq
  | (.error e, t) =>
    rw [hx] at heq
    cases heq

/-- Two in a row, the first of which may end in anything. -/
theorem yields_bind_of (hnext : ∀ a t, (f a).Yields t last) : (x >>= f).Yields s last :=
  Yields.bind (show x.Yields s fun _ _ => True from fun _ _ _ => trivial) fun a t _ => hnext a t

theorem Yields.attempt (h : x.Yields s post) :
    x.attempt.Yields s fun result t => ∀ a, result = .ok a → post a t := by
  intro result t heq a hok
  subst hok
  have hfirst : (x s).1 = .ok a := Except.ok.inj (congrArg Prod.fst heq)
  have hlast : (x s).2 = t := congrArg Prod.snd heq
  exact h a t (Prod.ext hfirst hlast)

end Yields

/-! ### What holds where a value comes out, and of the two states in either case -/

/-- The states are related whatever it ends in, and a value is what it should be. -/
def Leads (R : σ → σ → Prop) (x : Effect σ ε α) (s : σ) (post : α → σ → Prop) : Prop :=
  x.Ends s fun result t => R s t ∧ ∀ a, result = .ok a → post a t

section Leads

variable {R : σ → σ → Prop} {post mid : α → σ → Prop} {last : β → σ → Prop}

theorem Leads.mono (h : x.Leads R s mid) (hpost : ∀ a t, R s t → mid a t → post a t) :
    x.Leads R s post :=
  ⟨h.1, fun a ha => hpost a _ h.1 (h.2 a ha)⟩

variable [IsPreorder σ R]

theorem leads_pure {a : α} (h : post a s) : (pure a : Effect σ ε α).Leads R s post :=
  ⟨refl_of R s, fun _ hb => Except.ok.inj hb ▸ h⟩

theorem leads_fail {e : ε} : (fail e : Effect σ ε α).Leads R s post := ⟨refl_of R s, nofun⟩

theorem Leads.bind (h : x.Leads R s mid)
    (hnext : ∀ a t, R s t → mid a t → (f a).Leads R t last) : (x >>= f).Leads R s last := by
  refine Ends.bind h (fun a t ht => ?_) fun _ _ ht => ⟨ht.1, nofun⟩
  have hlast := hnext a t ht.1 (ht.2 a rfl)
  exact ⟨trans_of R ht.1 hlast.1, hlast.2⟩

/-- What is looked at goes on, whichever way it ends. -/
theorem Leads.attempt {f : Except ε α → Effect σ ε β} {seen : Except ε α → σ → Prop}
    (h : x.Ends s fun result t => R s t ∧ seen result t)
    (hnext : ∀ result t, R s t → seen result t → (f result).Leads R t last) :
    (x.attempt >>= f).Leads R s last := by
  have hlast := hnext _ _ h.1 h.2
  exact ⟨trans_of R h.1 hlast.1, hlast.2⟩

end Leads

/-! ### What is kept from the beginning to the end -/

/-- The states an effect begins and ends in are related, whatever it ends in. -/
def Keeps (R : σ → σ → Prop) (x : Effect σ ε α) : Prop := ∀ s, x.Ends s fun _ t => R s t

variable {R : σ → σ → Prop}

theorem keeps_pure (hrefl : ∀ s, R s s) (a : α) : (pure a : Effect σ ε α).Keeps R := hrefl

theorem keeps_fail (hrefl : ∀ s, R s s) (e : ε) : (fail e : Effect σ ε α).Keeps R := hrefl

theorem keeps_lift (hrefl : ∀ s, R s s) (y : Except ε α) : (lift y : Effect σ ε α).Keeps R := hrefl

theorem Keeps.attempt (h : x.Keeps R) : x.attempt.Keeps R := h

theorem Keeps.mono {R' : σ → σ → Prop} (h : x.Keeps R) (himp : ∀ s t, R s t → R' s t) :
    x.Keeps R' := fun s => himp _ _ (h s)

/-- Two in a row, each with what it keeps. -/
theorem Keeps.comp {R' R'' : σ → σ → Prop} (h : x.Keeps R) (hnext : ∀ a, (f a).Keeps R')
    (hboth : ∀ s t u, R s t → R' t u → R'' s u) (hfirst : ∀ s t, R s t → R'' s t) :
    (x >>= f).Keeps R'' := by
  intro s
  apply Ends.bind (h s)
  · intro a t hmid
    exact (hnext a t).mono fun _ u hlast => hboth s t u hmid hlast
  · intro e t hmid
    exact hfirst s t hmid

theorem Keeps.bind (htrans : ∀ s t u, R s t → R t u → R s u) (h : x.Keeps R)
    (hnext : ∀ a, (f a).Keeps R) : (x >>= f).Keeps R :=
  h.comp hnext htrans fun _ _ hfirst => hfirst

end Effect

end Framework
