import CraftPanel.Framework.Moving

/-!
# Values that are published

A feed is a value that changes and the publications that are on their way: one that has not read the
value yet, or one that carries what it has read. A listener has been *told* the value when what it
was told last is the value, or a publication will still tell it. `latest` is what a listener has been
told last once it has read what waits for it.
-/

namespace Framework

structure Feed (α : Type*) where
  now : α
  pending : List (Option α) := []

namespace Feed

variable {α : Type*}

inductive Move (α : Type*)
  /-- The value is stored by the task that goes on to publish it. -/
  | stores (value : α)
  /-- The value is written, and a publication may follow that reads it. -/
  | writes (value : α) (announced : Bool)
  | reads (k : Nat) (found : α)
  | sends (k : Nat)
  | drops (k : Nat)

/-- The feed after a move, and what is sent by it. -/
def step (f : Feed α) : Move α → Option (Feed α × Option α)
  | .stores value => some (⟨value, f.pending ++ [some value]⟩, none)
  | .writes value announced => some (⟨value, f.pending ++ if announced then [none] else []⟩, none)
  | .reads k found => match f.pending[k]? with
    | some none => some ({ f with pending := f.pending.set k (some found) }, none)
    | _ => none
  | .sends k => match f.pending[k]? with
    | some (some value) => some ({ f with pending := f.pending.eraseIdx k }, some value)
    | _ => none
  | .drops k => match f.pending[k]? with
    | some _ => some ({ f with pending := f.pending.eraseIdx k }, none)
    | none => none

/-- A publication is on its way that will send the value. -/
def Carries (pending : List (Option α)) (now : α) : Prop := none ∈ pending ∨ some now ∈ pending

def Told (f : Feed α) (last : Option α) : Prop := last = some f.now ∨ Carries f.pending f.now

/-- A value that no publication follows is known or on its way; and a publication carries the value,
or it is not the only one that the listener can go by. -/
def Heeds (f : Feed α) (last : α → Option α) : Move α → Prop
  | .stores _ => True
  | .writes value announced =>
    announced = true ∨ last value = some value ∨ Carries f.pending value
  | .reads k found =>
    found = f.now ∨ last f.now = some f.now ∨ Carries (f.pending.eraseIdx k) f.now
  | .sends k => f.pending[k]? = some (some f.now) ∨ Carries (f.pending.eraseIdx k) f.now
  | .drops k => last f.now = some f.now ∨ Carries (f.pending.eraseIdx k) f.now

section Decidable

variable [DecidableEq α]

instance (pending : List (Option α)) (now : α) : Decidable (Carries pending now) :=
  inferInstanceAs (Decidable (_ ∨ _))

instance (f : Feed α) (last : Option α) : Decidable (f.Told last) :=
  inferInstanceAs (Decidable (_ ∨ _))

instance decidableHeeds (f : Feed α) (last : α → Option α) : ∀ m, Decidable (f.Heeds last m)
  | .stores _ => inferInstanceAs (Decidable True)
  | .writes _ _ | .reads _ _ => inferInstanceAs (Decidable (_ ∨ _ ∨ _))
  | .sends _ | .drops _ => inferInstanceAs (Decidable (_ ∨ _))

end Decidable

variable {f g : Feed α} {m : Move α} {sent : Option α} {last : α → Option α}

theorem carries_append {pending more : List (Option α)} {now : α} :
    Carries (pending ++ more) now ↔ Carries pending now ∨ Carries more now := by
  simp only [Carries, List.mem_append]
  tauto

/-- A move leaves the listener told just where it heeds the condition. -/
theorem told_iff (h : f.step m = some (g, sent)) :
    g.Told (sent.or (last g.now)) ↔ f.Heeds last m := by
  cases m with
  | stores value =>
    cases h
    apply iff_of_true _ trivial
    exact .inr (carries_append.mpr (.inr (.inr List.mem_cons_self)))
  | writes value announced =>
    cases h
    simp only [Told, Heeds, Option.none_or, carries_append]
    cases announced with
    | true => simp [Carries]
    | false => simp [Carries]
  | reads k found =>
    simp only [step] at h
    split at h
    · next hk =>
      cases h
      simp only [Told, Heeds, Option.none_or, Carries, mem_set_iff_eraseIdx hk, Option.some.injEq,
        reduceCtorEq, false_or]
      rw [eq_comm (a := f.now)]
      tauto
    · cases h
  | sends k =>
    simp only [step] at h
    split at h
    · next value hk =>
      cases h
      simp only [Told, Heeds, Option.some_or, hk, Option.some.injEq]
    · cases h
  | drops k =>
    simp only [step] at h
    split at h
    · cases h
      simp only [Told, Heeds, Option.none_or]
    · cases h

end Feed

/-! ### What a listener has been told last -/

section Latest

variable {α β : Type*} {pick : β → Option α} {unread kept : List β} {b : β} {last : Option α}

def latest (pick : β → Option α) (unread : List β) (last : Option α) : Option α :=
  unread.foldl (fun last b => (pick b).or last) last

theorem latest_cons : latest pick (b :: unread) last = latest pick unread ((pick b).or last) := rfl

theorem latest_append :
    latest pick (unread ++ kept) last = latest pick kept (latest pick unread last) :=
  List.foldl_append

theorem latest_concat : latest pick (unread ++ [b]) last = (pick b).or (latest pick unread last) := by
  rw [latest_append]
  rfl

/-- Where nothing is picked the listener is left with what it was told before, else with what was
picked. -/
theorem latest_eq (last : Option α) : latest pick unread last = (latest pick unread none).or last := by
  induction unread generalizing last with
  | nil => rfl
  | cons b unread ih =>
    rw [latest_cons, latest_cons, ih, ih ((pick b).or none), Option.or_none, Option.or_assoc]

/-- What is picked stands above what was told before. -/
theorem latest_of_ne_none (h : latest pick unread none ≠ none) (other : Option α) :
    latest pick unread last = latest pick unread other := by
  obtain ⟨value, hvalue⟩ := Option.ne_none_iff_exists'.mp h
  rw [latest_eq last, latest_eq other, hvalue, Option.some_or, Option.some_or]

theorem latest_of_none (h : latest pick unread none = none) : latest pick unread last = last := by
  rw [latest_eq, h, Option.none_or]

theorem latest_sent (pick : β → Option α) (wrap : α → β) (h : ∀ a, pick (wrap a) = some a)
    (sent : Option α) : latest pick (sent.toList.map wrap) last = sent.or last := by
  cases sent with
  | none => rfl
  | some a =>
    show (pick (wrap a)).or last = some a
    rw [h, Option.some_or]

theorem latest_passed {γ : Type*} (pick : β → Option α) (wrap : γ → β)
    (h : ∀ c, pick (wrap c) = none) (sent : Option γ) :
    latest pick (sent.toList.map wrap) last = last := by
  cases sent with
  | none => rfl
  | some c =>
    show (pick (wrap c)).or last = last
    rw [h, Option.none_or]

variable {f : Feed α}

/-- Another value to start from matters just where nothing is picked. -/
theorem told_rebase_iff (h : f.Told (latest pick unread last)) (other : Option α) :
    f.Told (latest pick unread other) ↔ latest pick unread none ≠ none ∨ f.Told other := by
  by_cases hnone : latest pick unread none = none
  · rw [latest_of_none hnone]
    simp [hnone]
  · apply iff_of_true _ (.inl hnone)
    rw [latest_of_ne_none hnone last]
    exact h

/-- To lose the oldest of what waits matters just where something was picked from it, and nothing
is from what is kept. -/
theorem told_drop_iff (h : f.Told (latest pick (unread ++ kept) last)) :
    f.Told (latest pick kept last) ↔
      latest pick kept none ≠ none ∨ latest pick unread none = none ∨ f.Told last := by
  rw [latest_append] at h
  rw [told_rebase_iff h]
  by_cases hnone : latest pick unread none = none
  · rw [latest_of_none hnone] at h
    have hkept := (told_rebase_iff h last).mp h
    exact iff_of_true hkept (hkept.imp_right .inr)
  · simp [hnone]

end Latest

end Framework
