import Mathlib.Data.Finset.Card

/-!
# Worklists

A queue of items with a key each: an item whose key has been seen is passed over, any other one is
visited, and what it leads to is queued by key. What is visited is what can be reached, an item for
each key; and where the keys are finitely many, the queue runs empty.
-/

namespace Framework

variable {α β κ ε : Type*} [DecidableEq κ]

structure Worklist (α β κ : Type*) where
  seen : List κ
  queue : List α
  out : β

/-- How the items of a queue are gone through. -/
structure Walk (α β κ ε : Type*) where
  key : α → κ
  /-- An item that is only known by its key. -/
  item : κ → α
  again : α → β → β
  visit : α → β → Except ε (List κ × β)

namespace Walk

variable (walk : Walk α β κ ε)

/-- The queue is gone through with this much fuel. -/
def run : Nat → Worklist α β κ → Option (Except ε β)
  | 0, _ => none
  | fuel + 1, work => match work.queue with
    | [] => some (.ok work.out)
    | head :: rest =>
      if walk.key head ∈ work.seen then
        run fuel { work with queue := rest, out := walk.again head work.out }
      else match walk.visit head work.out with
        | .error err => some (.error err)
        | .ok (keys, out) =>
          run fuel { seen := walk.key head :: work.seen, queue := rest ++ keys.map walk.item, out }

/-- What a walk that begins with these items comes to: the first of them for each key, and, by their
keys alone, those that visited items lead to. -/
inductive Reached (leads : α → List κ) (start : List α) : α → Prop
  | first {a : α} : start.find? (fun b => walk.key b = walk.key a) = some a → Reached leads start a
  | led {a : α} {k : κ} : Reached leads start a → k ∈ leads a → (∀ b ∈ start, walk.key b ≠ k) →
    Reached leads start (walk.item k)

/-! ### What is visited -/

section Visited

variable {walk} {leads : α → List κ} {start : List α}

theorem Reached.unique (hitem : ∀ k, walk.key (walk.item k) = k) {a b : α}
    (ha : walk.Reached leads start a) (hb : walk.Reached leads start b)
    (hkey : walk.key a = walk.key b) : a = b := by
  cases ha with
  | first ha =>
    cases hb with
    | first hb =>
      rw [hkey, hb] at ha
      exact (Option.some.inj ha).symm
    | led _ _ hnot =>
      rw [hitem] at hkey
      exact absurd hkey (hnot a (List.mem_of_find?_eq_some ha))
  | led _ _ hnot =>
    rw [hitem] at hkey
    cases hb with
    | first hb => exact absurd hkey.symm (hnot b (List.mem_of_find?_eq_some hb))
    | led _ _ _ =>
      rw [hitem] at hkey
      rw [hkey]

/-- Where a walk has got to: these items have been visited, and these are still to be looked at. -/
structure Walked (walk : Walk α β κ ε) (leads : α → List κ) (start visited rest : List α)
    (led : List κ) (work : Worklist α β κ) : Prop where
  seen : ∀ k, k ∈ work.seen ↔ k ∈ visited.map walk.key
  nodup : (visited.map walk.key).Nodup
  sound : ∀ a ∈ visited, walk.Reached leads start a
  queue : work.queue = rest ++ led.map walk.item
  passed : ∃ passed, start = passed ++ rest ∧ ∀ a ∈ passed, walk.key a ∈ work.seen
  owed : ∀ k ∈ led, ∃ a ∈ visited, k ∈ leads a
  covered : ∀ a ∈ visited, ∀ k ∈ leads a, k ∈ work.seen ∨ k ∈ led

theorem Walked.nil (out : β) :
    walk.Walked leads start [] start [] { seen := [], queue := start, out } where
  seen := fun k => by simp
  nodup := List.nodup_nil
  sound := fun a h => absurd h List.not_mem_nil
  queue := by simp
  passed := ⟨[], rfl, fun a h => absurd h List.not_mem_nil⟩
  owed := fun k h => absurd h List.not_mem_nil
  covered := fun a h => absurd h List.not_mem_nil

variable {visited rest : List α} {led : List κ} {work : Worklist α β κ} {head : α} {tail : List α}

/-- The head of the queue is one of the items at the start, or one that a visited item leads to. -/
theorem Walked.split (h : walk.Walked leads start visited rest led work)
    (hqueue : work.queue = head :: tail) :
    (∃ rest', rest = head :: rest' ∧ tail = rest' ++ led.map walk.item) ∨
      ∃ k led', rest = [] ∧ led = k :: led' ∧ head = walk.item k ∧ tail = led'.map walk.item := by
  have hsplit := h.queue
  rw [hqueue] at hsplit
  cases rest with
  | cons first rest' =>
    cases hsplit
    exact .inl ⟨rest', rfl, rfl⟩
  | nil =>
    cases led with
    | nil => cases hsplit
    | cons k led' =>
      cases hsplit
      exact .inr ⟨k, led', rfl, rfl, rfl, rfl⟩

/-- What is left of a walk when the head of the queue is taken off. -/
theorem Walked.pop (hitem : ∀ k, walk.key (walk.item k) = k)
    (h : walk.Walked leads start visited rest led work) (hqueue : work.queue = head :: tail) :
    ∃ (rest' : List α) (led' : List κ), tail = rest' ++ led'.map walk.item ∧
      (∃ passed, start = passed ++ rest' ∧
        ∀ a ∈ passed, walk.key a ∈ walk.key head :: work.seen) ∧
      (∀ k ∈ led', ∃ a ∈ visited, k ∈ leads a) ∧
      ∀ a ∈ visited, ∀ k ∈ leads a, k ∈ walk.key head :: work.seen ∨ k ∈ led' := by
  obtain ⟨passed, hstart, hpassed⟩ := h.passed
  rcases h.split hqueue with ⟨rest', rfl, htail⟩ | ⟨k, led', rfl, rfl, rfl, htail⟩
  · refine ⟨rest', led, htail, ⟨passed ++ [head], by simp [hstart], ?_⟩, h.owed, ?_⟩
    · intro a ha
      rcases List.mem_append.mp ha with hbefore | hlast
      · exact List.mem_cons_of_mem _ (hpassed a hbefore)
      · rw [List.mem_singleton.mp hlast]
        exact List.mem_cons_self
    · exact fun a ha k hk => (h.covered a ha k hk).imp_left (List.mem_cons_of_mem _)
  refine ⟨[], led', htail, ⟨passed, hstart, ?_⟩, ?_, ?_⟩
  · exact fun a ha => List.mem_cons_of_mem _ (hpassed a ha)
  · exact fun other hother => h.owed other (List.mem_cons_of_mem _ hother)
  intro a ha other hother
  rw [hitem]
  rcases h.covered a ha other hother with hbefore | hqueued
  · exact .inl (List.mem_cons_of_mem _ hbefore)
  · rcases List.mem_cons.mp hqueued with rfl | hlater
    · exact .inl List.mem_cons_self
    · exact .inr hlater

theorem Walked.again (hitem : ∀ k, walk.key (walk.item k) = k)
    (h : walk.Walked leads start visited rest led work) (hqueue : work.queue = head :: tail)
    (hseen : walk.key head ∈ work.seen) (out : β) :
    ∃ rest' led', walk.Walked leads start visited rest' led' { work with queue := tail, out } := by
  obtain ⟨rest', led', htail, ⟨passed, hstart, hpassed⟩, howed, hcovered⟩ := h.pop hitem hqueue
  have hsame : ∀ k, k ∈ walk.key head :: work.seen → k ∈ work.seen := by
    simpa using hseen
  refine ⟨rest', led', h.seen, h.nodup, h.sound, htail, ⟨passed, hstart, ?_⟩, howed, ?_⟩
  · exact fun a ha => hsame _ (hpassed a ha)
  · exact fun a ha k hk => (hcovered a ha k hk).imp_left (hsame k)

/-- An item whose key has not been seen is the one that is reached under its key. -/
theorem Walked.reached (hitem : ∀ k, walk.key (walk.item k) = k)
    (h : walk.Walked leads start visited rest led work) (hqueue : work.queue = head :: tail)
    (hnew : walk.key head ∉ work.seen) : walk.Reached leads start head := by
  obtain ⟨passed, hstart, hpassed⟩ := h.passed
  rcases h.split hqueue with ⟨rest', rfl, -⟩ | ⟨k, led', rfl, rfl, rfl, -⟩
  · apply Reached.first
    rw [hstart, List.find?_append]
    have hnone : passed.find? (fun b => walk.key b = walk.key head) = none := by
      apply List.find?_eq_none.mpr
      intro b hb hkey
      exact hnew (of_decide_eq_true hkey ▸ hpassed b hb)
    simp [hnone]
  · obtain ⟨a, ha, hk⟩ := h.owed k List.mem_cons_self
    apply Reached.led (h.sound a ha) hk
    intro b hb hkey
    rw [hstart, List.append_nil] at hb
    rw [hitem] at hnew
    exact hnew (hkey ▸ hpassed b hb)

theorem Walked.visit (hitem : ∀ k, walk.key (walk.item k) = k)
    (h : walk.Walked leads start visited rest led work) (hqueue : work.queue = head :: tail)
    (hnew : walk.key head ∉ work.seen) (out : β) :
    ∃ rest' led', walk.Walked leads start (visited ++ [head]) rest' led'
      { seen := walk.key head :: work.seen, queue := tail ++ (leads head).map walk.item, out } := by
  obtain ⟨rest', led', rfl, hpassed, howed, hcovered⟩ := h.pop hitem hqueue
  refine ⟨rest', led' ++ leads head, ?_, ?_, ?_, by simp, hpassed, ?_, ?_⟩
  · intro k
    simp only [List.mem_cons, h.seen, List.map_append, List.mem_append, List.map_cons,
      List.map_nil, List.not_mem_nil, or_false]
    exact or_comm
  · rw [List.map_append, List.nodup_append]
    refine ⟨h.nodup, List.nodup_singleton _, ?_⟩
    rintro k hk _ hlast rfl
    rw [List.map_cons, List.map_nil, List.mem_singleton] at hlast
    exact hnew ((h.seen _).mpr (hlast ▸ hk))
  · intro a ha
    rcases List.mem_append.mp ha with hbefore | hlast
    · exact h.sound a hbefore
    · rw [List.mem_singleton.mp hlast]
      exact h.reached hitem hqueue hnew
  · intro k hk
    rcases List.mem_append.mp hk with hbefore | hlast
    · obtain ⟨a, ha, hled⟩ := howed k hbefore
      exact ⟨a, List.mem_append_left _ ha, hled⟩
    · exact ⟨head, by simp, hlast⟩
  · intro a ha k hk
    rcases List.mem_append.mp ha with hbefore | hlast
    · exact (hcovered a hbefore k hk).imp_right (List.mem_append_left _)
    · rw [List.mem_singleton.mp hlast] at hk
      exact .inr (List.mem_append_right _ hk)

/-- A walk whose queue is empty has visited all that can be reached. -/
theorem Walked.complete (hitem : ∀ k, walk.key (walk.item k) = k)
    (h : walk.Walked leads start visited rest led work) (hqueue : work.queue = []) {a : α} :
    a ∈ visited ↔ walk.Reached leads start a := by
  have hempty := h.queue
  rw [hqueue] at hempty
  obtain ⟨rfl, hled⟩ := List.append_eq_nil_iff.mp hempty.symm
  obtain rfl := List.map_eq_nil_iff.mp hled
  obtain ⟨passed, hstart, hpassed⟩ := h.passed
  rw [List.append_nil] at hstart
  subst hstart
  have hvisited : ∀ {b : α}, walk.Reached leads start b → walk.key b ∈ work.seen → b ∈ visited := by
    intro b hb hseen
    obtain ⟨c, hc, hkey⟩ := List.mem_map.mp ((h.seen _).mp hseen)
    exact Reached.unique hitem (h.sound c hc) hb hkey ▸ hc
  constructor
  · exact h.sound a
  · intro ha
    induction ha with
    | first ha => exact hvisited (.first ha) (hpassed _ (List.mem_of_find?_eq_some ha))
    | led ha hk hnot ih =>
      apply hvisited (.led ha hk hnot)
      rw [hitem]
      exact (h.covered _ ih _ hk).resolve_right List.not_mem_nil

/-- A walk that ends has visited what can be reached, an item for each key, and what it has made of
that keeps what every item keeps. -/
theorem run_visits (walk : Walk α β κ ε) (hitem : ∀ k, walk.key (walk.item k) = k)
    (hleads : ∀ a out keys out', walk.visit a out = .ok (keys, out') → keys = leads a)
    {I : List α → β → Prop}
    (hagain : ∀ visited a out, I visited out → walk.key a ∈ visited.map walk.key →
      I visited (walk.again a out))
    (hvisit : ∀ visited a out keys out', I visited out → walk.key a ∉ visited.map walk.key →
      walk.visit a out = .ok (keys, out') → I (visited ++ [a]) out')
    {fuel : Nat} {out result : β} (hnil : I [] out)
    (hrun : walk.run fuel { seen := [], queue := start, out } = some (.ok result)) :
    ∃ visited, I visited result ∧ (visited.map walk.key).Nodup ∧
      ∀ a, a ∈ visited ↔ walk.Reached leads start a := by
  have hfrom : ∀ fuel work visited rest led, walk.Walked leads start visited rest led work →
      I visited work.out → walk.run fuel work = some (.ok result) →
      ∃ visited, I visited result ∧ (visited.map walk.key).Nodup ∧
        ∀ a, a ∈ visited ↔ walk.Reached leads start a := by
    intro fuel
    induction fuel with
    | zero => exact fun work visited rest led _ _ hrun => nomatch hrun
    | succ fuel ih =>
      intro work visited rest led hwalked hI hrun
      rw [run] at hrun
      cases hqueue : work.queue with
      | nil =>
        rw [hqueue] at hrun
        cases hrun
        exact ⟨visited, hI, hwalked.nodup, fun a => hwalked.complete hitem hqueue⟩
      | cons head tail =>
        simp only [hqueue] at hrun
        by_cases hseen : walk.key head ∈ work.seen
        · rw [if_pos hseen] at hrun
          obtain ⟨rest', led', hnext⟩ := hwalked.again hitem hqueue hseen (walk.again head work.out)
          exact ih _ _ _ _ hnext (hagain _ _ _ hI ((hwalked.seen _).mp hseen)) hrun
        rw [if_neg hseen] at hrun
        cases hvisited : walk.visit head work.out with
        | error err =>
          rw [hvisited] at hrun
          cases hrun
        | ok grown =>
          rw [hvisited] at hrun
          obtain ⟨keys, out'⟩ := grown
          obtain rfl := hleads _ _ _ _ hvisited
          obtain ⟨rest', led', hnext⟩ := hwalked.visit hitem hqueue hseen out'
          have hnot : walk.key head ∉ visited.map walk.key :=
            fun hmem => hseen ((hwalked.seen _).mpr hmem)
          exact ih _ _ _ _ hnext (hvisit _ _ _ _ _ hI hnot hvisited) hrun
  exact hfrom fuel _ [] start [] (Walked.nil out) hnil hrun

end Visited

/-! ### Termination -/

section Termination

variable {walk} {keys : List κ} {bound : Nat}

/-- How many of these keys have not been seen yet. -/
def unseen (keys seen : List κ) : Nat := (keys.toFinset \ seen.toFinset).card

theorem unseen_cons {k : κ} {seen : List κ} (hmem : k ∈ keys) (hnew : k ∉ seen) :
    unseen keys (k :: seen) < unseen keys seen := by
  apply Finset.card_lt_card
  rw [Finset.ssubset_iff_of_subset]
  · exact ⟨k, by simpa using ⟨hmem, hnew⟩, by simp⟩
  · apply Finset.sdiff_subset_sdiff (Finset.Subset.refl _)
    rw [List.toFinset_cons]
    exact Finset.subset_insert _ _

/-- Where only these keys are met, and no item leads to more than so many, this much fuel is
enough. -/
theorem run_isSome (walk : Walk α β κ ε) (hitem : ∀ k, walk.key (walk.item k) = k)
    (hkeys : ∀ a out grown out', walk.visit a out = .ok (grown, out') →
      grown ⊆ keys ∧ grown.length ≤ bound)
    {fuel : Nat} {work : Worklist α β κ} (hqueue : ∀ a ∈ work.queue, walk.key a ∈ keys)
    (hfuel : work.queue.length + unseen keys work.seen * bound < fuel) :
    (walk.run fuel work).isSome = true := by
  induction fuel generalizing work with
  | zero => exact absurd hfuel (Nat.not_lt_zero _)
  | succ fuel ih =>
    rw [run]
    cases hsplit : work.queue with
    | nil => rfl
    | cons head tail =>
      rw [hsplit] at hqueue hfuel
      rw [List.length_cons] at hfuel
      dsimp only
      split
      · apply ih
        · exact fun a ha => hqueue a (List.mem_cons_of_mem _ ha)
        · dsimp only
          omega
      next hnew =>
      cases hvisit : walk.visit head work.out with
      | error err => rfl
      | ok grown =>
        obtain ⟨hsub, hlength⟩ := hkeys _ _ _ _ hvisit
        have hless := unseen_cons (hqueue head List.mem_cons_self) hnew
        have hbound := Nat.mul_le_mul_right bound (Nat.succ_le_of_lt hless)
        rw [Nat.succ_mul] at hbound
        apply ih
        · intro a ha
          rcases List.mem_append.mp ha with hbefore | hgrown
          · exact hqueue a (List.mem_cons_of_mem _ hbefore)
          · obtain ⟨k, hk, rfl⟩ := List.mem_map.mp hgrown
            rw [hitem]
            exact hsub hk
        · simp only [List.length_append, List.length_map]
          omega

/-- More fuel changes nothing. -/
theorem run_mono {fuel more : Nat} {work : Worklist α β κ} {result : Except ε β}
    (h : walk.run fuel work = some result) (hle : fuel ≤ more) :
    walk.run more work = some result := by
  induction fuel generalizing more work with
  | zero => cases h
  | succ fuel ih =>
    obtain ⟨more, rfl⟩ : ∃ n, more = n + 1 := ⟨more - 1, by omega⟩
    rw [run] at h ⊢
    cases hsplit : work.queue with
    | nil =>
      rw [hsplit] at h
      exact h
    | cons head tail =>
      simp only [hsplit] at h ⊢
      split at h
      · next hseen =>
        rw [if_pos hseen]
        exact ih h (by omega)
      next hnew =>
      rw [if_neg hnew]
      cases hvisit : walk.visit head work.out with
      | error err =>
        rw [hvisit] at h
        exact h
      | ok grown =>
        rw [hvisit] at h
        exact ih h (by omega)

end Termination

end Walk

end Framework
