import CraftPanel.Drive.Running

/-!
# What a run may wait

Every pause that is charged to the run is within its budget, over all the calls of a run. A pause
for an answer that acknowledges nothing, and one in a call for a token, for the word on the archive
or for its removal, is charged to nobody: as long as there is none, a run rests no longer than its
budget.
-/

namespace CraftPanel.Drive.Running

open Framework Framework.Effect Upload

def Heard.Charged : Heard → Prop
  | .turnedAway waiting tried spent setback chance =>
    waiting.run.isSome = true ∨
      waiting.plan.budget < spent + pauseAfter chance tried setback.after waiting.plan
  | .acknowledged offset _ received => offset < received
  | _ => True

instance : DecidablePred Heard.Charged
  | .turnedAway .. => inferInstanceAs (Decidable (_ ∨ _))
  | .acknowledged .. => inferInstanceAs (Decidable (_ < _))
  | .finished .. | .range _ | .reopened _ | .noted _ => isTrue trivial

/-- The run has rested no longer than it was charged for, and than it may. -/
def Within (budget : Nat) (w : World) : Prop := w.rested ≤ w.waited ∧ w.rested ≤ budget

/-- More is heard, and as long as it is all charged for, the run stays within its budget. -/
def KeepsWithin (budget : Nat) (w t : World) : Prop :=
  w.heard <+: t.heard ∧ ((∀ heard ∈ t.heard, heard.Charged) → Within budget w → Within budget t)

section Pauses

variable {α : Type} {budget : Nat} {waiting : Waiting} {w t : World}

theorem keepsWithin_refl (w : World) : KeepsWithin budget w w := ⟨List.prefix_rfl, fun _ => id⟩

theorem keepsWithin_trans (w t u : World) (h : KeepsWithin budget w t) (h' : KeepsWithin budget t u) :
    KeepsWithin budget w u := by
  refine ⟨h.1.trans h'.1, fun hcharged hwithin => ?_⟩
  apply h'.2 hcharged
  exact h.2 (fun heard hmem => hcharged heard (h'.1.subset hmem)) hwithin

theorem keepsWithin_same (hheard : w.heard <+: t.heard) (hrested : t.rested = w.rested)
    (hwaited : w.waited ≤ t.waited) : KeepsWithin budget w t := by
  refine ⟨hheard, fun _ hwithin => ?_⟩
  unfold Within at hwithin ⊢
  omega

theorem keepsWithin_uncharged {heard : Heard} (hmem : heard ∈ w.heard) (hnot : ¬ heard.Charged)
    (hheard : w.heard <+: t.heard) : KeepsWithin budget w t :=
  ⟨hheard, fun hall _ => absurd (hall heard (hheard.subset hmem)) hnot⟩

theorem linger_le (calledOff : Option Nat) (pause : Nat) : (linger calledOff pause).1 ≤ pause := by
  unfold linger
  split
  · exact Nat.le_refl _
  · exact Nat.min_le_left _ _

theorem rest_ends (pause : Nat) : (rest waiting pause).Ends w fun _ t =>
    t.heard = w.heard ∧ t.waited = w.waited ∧ t.rested ≤ w.rested + pause := by
  refine ⟨rfl, rfl, ?_⟩
  exact Nat.add_le_add_left (linger_le _ _) _

theorem charge_rest (hover : waiting.run = some budget) (pause : Nat) (said : Option Nat) :
    (charge waiting pause said >>= fun _ => rest waiting pause).Keeps (KeepsWithin budget) := by
  intro w
  have hcharge : (charge waiting pause said).Ends w fun result t =>
      t.heard = w.heard ∧ t.rested = w.rested ∧ t.waited = w.waited + pause ∧
        (∀ u, result = .ok u → t.waited ≤ budget) := by
    unfold charge Ends
    rw [hover]
    dsimp only
    refine ⟨rfl, rfl, rfl, fun u hok => ?_⟩
    by_contra hmore
    rw [if_pos (Nat.lt_of_not_le hmore)] at hok
    cases hok
  apply Ends.bind hcharge
  · rintro u t ⟨hheard, hrested, hwaited, hbudget⟩
    apply (rest_ends pause).mono
    rintro result v ⟨hheard', hwaited', hrested'⟩
    have hle := hbudget u rfl
    refine ⟨by simp [hheard', hheard], fun _ hwithin => ?_⟩
    unfold Within at hwithin ⊢
    omega
  · rintro e t ⟨hheard, hrested, hwaited, -⟩
    exact keepsWithin_same (by simp [hheard]) hrested (by omega)

/-- The waitings of a run: of its own calls, and of those that are not charged. -/
def OfRun (budget : Nat) (waiting : Waiting) : Prop := waiting.run = some budget ∨ waiting.run = none

/-- Nothing that was heard is forgotten. -/
def HearsMore (w t : World) : Prop := w.heard <+: t.heard

theorem quiet_hearsMore : Quiet HearsMore where
  refl := fun _ => List.prefix_rfl
  trans := fun _ _ _ h h' => h.trans h'
  asks := fun _ => List.prefix_rfl
  turned := fun _ _ _ _ _ _ => List.prefix_append _ _
  waits := fun _ _ => List.prefix_rfl
  rests := fun _ _ => List.prefix_rfl

theorem paused_keepsWithin (hover : OfRun budget waiting) {pause : Nat} {said : Option Nat} (next : α)
    (hheard : waiting.run = none → ∃ heard ∈ w.heard, ¬ heard.Charged) :
    (charge waiting pause said >>= fun _ => rest waiting pause >>= fun carried =>
      if carried then pure next else .fail .cancelled : Run α).Ends w fun _ t =>
        KeepsWithin budget w t := by
  have hend : ∀ {R : World → World → Prop} (carried : Bool), (∀ w, R w w) →
      (if carried then pure next else .fail .cancelled : Run α).Keeps R := by
    intro R carried hrefl
    split
    · exact keeps_pure hrefl _
    · exact keeps_fail hrefl _
  rcases hover with hsome | hnone
  · rw [← bind_assoc]
    exact (charge_rest hsome pause said).bind keepsWithin_trans
      (fun carried => hend carried keepsWithin_refl) w
  obtain ⟨heard, hmem, hnot⟩ := hheard hnone
  have hmore : (charge waiting pause said >>= fun _ => rest waiting pause >>= fun carried =>
      if carried then pure next else .fail .cancelled : Run α).Keeps HearsMore :=
    (quiet_hearsMore.charge pause said).bind quiet_hearsMore.trans fun _ =>
      (quiet_hearsMore.rest pause).bind quiet_hearsMore.trans
        fun carried => hend carried quiet_hearsMore.refl
  exact (hmore w).mono fun _ t => keepsWithin_uncharged hmem hnot

theorem setsBack_keepsWithin (hover : OfRun budget waiting) (tried spent : Nat) (setback : Setback) :
    (setsBack (α := α) waiting tried spent setback).Keeps (KeepsWithin budget) := by
  have hask : (ask Moment.chance).Keeps (KeepsWithin budget) :=
    fun w => keepsWithin_same List.prefix_rfl rfl (Nat.le_refl _)
  apply hask.bind keepsWithin_trans
  intro chance w
  have hhears : (hears (.turnedAway waiting tried spent setback chance)).Ends w fun _ t =>
      KeepsWithin budget w t ∧ .turnedAway waiting tried spent setback chance ∈ t.heard :=
    ⟨keepsWithin_same (List.prefix_append _ _) rfl (Nat.le_refl _), by simp [hears]⟩
  apply Ends.bind hhears
  · rintro _ t ⟨hkept, hmem⟩
    dsimp only
    split
    · exact hkept
    next hfits =>
      apply (paused_keepsWithin hover _ _).mono
      · intro _ u hpaused
        exact keepsWithin_trans w t u hkept hpaused
      intro hnone
      refine ⟨_, hmem, ?_⟩
      rintro (hcharged | hover)
      · rw [hnone] at hcharged
        cases hcharged
      · exact hfits hover
  · rintro e t ⟨hkept, -⟩
    exact hkept

theorem tryOnce_keepsWithin {call : Run (Except Setback α)} (hover : OfRun budget waiting)
    (hcall : call.Keeps (KeepsWithin budget)) (tried spent : Nat) :
    (tryOnce waiting call tried spent).Keeps (KeepsWithin budget) := by
  have hcancelled : (isCancelled waiting).Keeps (KeepsWithin budget) := by
    unfold isCancelled
    split
    · exact fun w => keepsWithin_same List.prefix_rfl rfl (Nat.le_refl _)
    · exact keeps_pure keepsWithin_refl _
  apply hcancelled.bind keepsWithin_trans
  intro cancelled
  split
  · exact keeps_fail keepsWithin_refl _
  apply hcall.bind keepsWithin_trans
  intro answer
  split
  · exact keeps_pure keepsWithin_refl _
  · split
    · exact keeps_fail keepsWithin_refl _
    · exact setsBack_keepsWithin hover _ _ _

theorem after_keepsWithin (range : Option String) : (after range).Keeps (KeepsWithin budget) := by
  intro w
  unfold after
  cases range.bind lastByte with
  | none => exact keepsWithin_same (List.prefix_append _ _) rfl (Nat.le_refl _)
  | some last => exact keepsWithin_same (List.prefix_append _ _) rfl (Nat.le_refl _)

theorem calling_keepsWithin : Calling (OfRun budget) (KeepsWithin budget) where
  refl := keepsWithin_refl
  trans := keepsWithin_trans
  asks := fun _ => keepsWithin_same List.prefix_rfl rfl (Nat.le_refl _)
  tries := fun hover hcall =>
    Loop.finish_keeps keepsWithin_refl keepsWithin_trans
      (fun _ => tryOnce_keepsWithin hover hcall _ _) (0, 0)
  reads := readAnswer_keeps keepsWithin_refl keepsWithin_trans after_keepsWithin

end Pauses

section Sends

variable {budget : Nat} {carry : Carry} {total start : Nat} {loop next : Sending} {chunk : Bytes}

theorem hears_stays {crates : Crates} {answer : Chunk}
    (h : loop.hears crates chunk (.ok answer) = (next, .goesOn)) (hsame : next.offset = loop.offset) :
    ∃ heard ∈ heardOf loop chunk (.ok answer), ¬ heard.Charged := by
  cases answer with
  | done file => cases h
  | more received moved =>
    refine ⟨_, List.mem_singleton.mpr rfl, fun hfresh => ?_⟩
    have hreceived : loop.offset < received := hfresh
    unfold Sending.hears at h
    dsimp only at h
    split at h
    · cases h
    · rw [if_neg (Nat.not_le.mpr hreceived)] at h
      cases h
      exact absurd hsame (Nat.ne_of_gt hreceived)

theorem same_keepsWithin {x : Run Unit}
    (h : ∀ w, x.Ends w fun _ t => t.heard = w.heard ∧ t.rested = w.rested ∧ t.waited = w.waited) :
    x.Keeps (KeepsWithin budget) := by
  intro w
  apply (h w).mono
  rintro result t ⟨hheard, hrested, hwaited⟩
  exact keepsWithin_same (by simp [hheard]) hrested (by omega)

theorem turns_keepsWithin (answer : Except DriveError Chunk) {w : World}
    (hheard : heardOf loop chunk answer ⊆ w.heard) :
    (turns carry loop chunk answer).Ends w fun _ t => KeepsWithin budget w t := by
  have hbearing : OfRun budget carry.bearing := .inr rfl
  have htook : ∀ bytes, (took bytes).Keeps (KeepsWithin budget) :=
    fun _ => same_keepsWithin fun _ => ⟨rfl, rfl, rfl⟩
  have hcounts : ∀ value, (counts value).Keeps (KeepsWithin budget) :=
    fun _ => same_keepsWithin fun _ => ⟨rfl, rfl, rfl⟩
  unfold turns
  split
  · exact keepsWithin_refl w
  · exact (htook _).bind keepsWithin_trans (fun _ => keeps_pure keepsWithin_refl _) w
  next next hgoesOn =>
    split
    · exact (calling_keepsWithin.tokenUnless hbearing).bind keepsWithin_trans
        (fun _ => keeps_pure keepsWithin_refl _) w
    next answer =>
      split
      next hsame =>
        obtain ⟨heard, hmem, hnot⟩ := hears_stays hgoesOn hsame
        exact (quiet_hearsMore.breathes _ _ w).mono fun _ t =>
          keepsWithin_uncharged (hheard hmem) hnot
      · exact (hcounts _).bind keepsWithin_trans (fun _ => (htook _).bind keepsWithin_trans
          fun _ => keeps_pure keepsWithin_refl _) w

theorem pass_keepsWithin (hover : OfRun budget carry.over) :
    (pass carry total loop).Keeps (KeepsWithin budget) := by
  have hcalls : Calling (OfRun budget) (KeepsWithin budget) := calling_keepsWithin
  have hbearing : OfRun budget carry.bearing := .inr rfl
  have hcounts : ∀ value, (counts value).Keeps (KeepsWithin budget) :=
    fun _ => same_keepsWithin fun _ => ⟨rfl, rfl, rfl⟩
  have htallied : (tallied carry).Keeps (KeepsWithin budget) :=
    same_keepsWithin fun _ => ⟨rfl, rfl, rfl⟩
  have hput : putChunk.Keeps (KeepsWithin budget) := by
    intro w
    exact keepsWithin_trans w { w with requests := w.requests + 1 } _
      (keepsWithin_same List.prefix_rfl rfl (Nat.le_refl _))
      (hcalls.exchange lookedAt { w with requests := w.requests + 1 })
  unfold pass
  split
  · apply (hcalls.ask _).bind keepsWithin_trans
    intro cancelled
    split
    · exact keeps_fail keepsWithin_refl _
    apply htallied.bind keepsWithin_trans
    intro _
    apply (hcalls.tokenUnless hbearing).bind keepsWithin_trans
    intro _
    apply (hcounts _).bind keepsWithin_trans
    intro _
    apply (hcalls.readExact _).bind keepsWithin_trans
    intro chunk
    apply (hcounts _).bind keepsWithin_trans
    intro _
    have hone : (oneChunk carry.over loop.offset chunk).Keeps (KeepsWithin budget) :=
      (hcounts _).bind keepsWithin_trans fun _ =>
        (hcalls.tries hover hput).bind keepsWithin_trans hcalls.reads
    apply hone.attempt.bind keepsWithin_trans
    intro answer w
    have hhears : (hearsAll (heardOf loop chunk answer)).Ends w fun _ t =>
        KeepsWithin budget w t ∧ heardOf loop chunk answer ⊆ t.heard :=
      ⟨keepsWithin_same (List.prefix_append _ _) rfl (Nat.le_refl _),
        List.subset_append_right _ _⟩
    apply Ends.bind hhears
    · rintro _ t ⟨hkept, hheard⟩
      exact (turns_keepsWithin answer hheard).mono
        fun _ u hlast => keepsWithin_trans w t u hkept hlast
    · exact fun _ _ hkept => hkept.1
  · exact hcalls.lastWord hbearing hover

theorem send_keepsWithin (hover : OfRun budget carry.over) (carried : Digests) :
    (send carry total start carried).Keeps (KeepsWithin budget) :=
  calling_keepsWithin.send (fun _ => pass_keepsWithin hover) _

end Sends

section Runs

variable {budget : Nat} {account : Account} {carry : Carry} {size start : Nat}

theorem noteDay_keepsWithin : noteDay.Keeps (KeepsWithin budget) := by
  have htally : tally.Keeps (KeepsWithin budget) := keepsWithin_refl
  apply htally.bind keepsWithin_trans
  intro added
  split
  · exact keeps_pure keepsWithin_refl _
  apply (calling_keepsWithin.ask _).bind keepsWithin_trans
  intro written
  have hnoted : (hears (.noted written)).Keeps (KeepsWithin budget) :=
    fun w => keepsWithin_same (List.prefix_append _ _) rfl (Nat.le_refl _)
  apply hnoted.bind keepsWithin_trans
  intro _
  split
  · exact same_keepsWithin fun _ => ⟨rfl, rfl, rfl⟩
  · exact keeps_pure keepsWithin_refl _

theorem whole_keepsWithin (hrun : account.pace.run = budget) (sent : Sent) :
    (whole account size sent).Keeps (KeepsWithin budget) := by
  have hcalls : Calling (OfRun budget) (KeepsWithin budget) := calling_keepsWithin
  have hover : OfRun budget account.over := .inl (congrArg some hrun)
  apply noteDay_keepsWithin.bind keepsWithin_trans
  intro _
  apply (hcalls.tokenUnless hover).bind keepsWithin_trans
  intro _
  apply (hcalls.ask _).bind keepsWithin_trans
  intro unchanged
  split
  · exact hcalls.confirmStored (.inr rfl) (.inr rfl) _
  · exact hcalls.throwAway (.inr rfl) _

theorem failing_keepsWithin (err : DriveError) :
    (noteDay >>= fun _ => .fail err : Run Stored).Keeps (KeepsWithin budget) :=
  noteDay_keepsWithin.bind keepsWithin_trans fun _ => keeps_fail keepsWithin_refl _

theorem sends_keepsWithin (hrun : account.pace.run = budget) (hover : OfRun budget carry.over)
    (carried : Digests) : (sends account carry size start carried).Keeps (KeepsWithin budget) := by
  have hcalls : Calling (OfRun budget) (KeepsWithin budget) := calling_keepsWithin
  apply (send_keepsWithin hover _).attempt.bind keepsWithin_trans
  intro sent
  split
  · exact whole_keepsWithin hrun _
  · apply (hcalls.openSession hover).attempt.bind keepsWithin_trans
    intro opened
    have hreopened : ∀ ok, (hears (.reopened ok)).Keeps (KeepsWithin budget) :=
      fun ok w => keepsWithin_same (List.prefix_append _ _) rfl (Nat.le_refl _)
    apply (hreopened _).bind keepsWithin_trans
    intro _
    split
    · exact keeps_fail keepsWithin_refl _
    apply (send_keepsWithin hover _).attempt.bind keepsWithin_trans
    intro sent
    split
    · exact whole_keepsWithin hrun _
    · exact failing_keepsWithin _
  · exact failing_keepsWithin _

theorem upload_keepsWithin (account : Account) (size : Nat) :
    (upload account size).Keeps (KeepsWithin account.pace.run) := by
  have hcalls : Calling (OfRun account.pace.run) (KeepsWithin account.pace.run) :=
    calling_keepsWithin
  have hover : OfRun account.pace.run account.over := .inl rfl
  apply (hcalls.ask _).bind keepsWithin_trans
  intro claimed
  split
  · exact keeps_fail keepsWithin_refl _
  apply (hcalls.tokenUnless hover).bind keepsWithin_trans
  intro _
  apply (hcalls.ask _).bind keepsWithin_trans
  intro archive
  split
  · exact keeps_fail keepsWithin_refl _
  have htoday : sentToday.Keeps (KeepsWithin account.pace.run) :=
    (hcalls.ask _).bind keepsWithin_trans fun _ => keepsWithin_refl
  apply htoday.bind keepsWithin_trans
  intro before
  have htallied : ∀ carry, (tallied carry).Keeps (KeepsWithin account.pace.run) :=
    fun _ => same_keepsWithin fun _ => ⟨rfl, rfl, rfl⟩
  apply (htallied _).bind keepsWithin_trans
  intro _
  apply (hcalls.carryOn hover).bind keepsWithin_trans
  intro stand
  split
  · exact hcalls.confirmStored (.inr rfl) (.inr rfl) _
  · exact sends_keepsWithin rfl hover _
  · exact (hcalls.openSession hover).bind keepsWithin_trans fun _ => sends_keepsWithin rfl hover _

/-- In a run that hears of no pause but those that are charged to it, all pauses together are within
its budget. -/
theorem upload_within_budget (account : Account) (size : Nat) (ahead : Nat → Moment) (day : Nat)
    (h : ∀ heard ∈ (upload account size { ahead, day }).2.heard, heard.Charged) :
    (upload account size { ahead, day }).2.rested ≤ account.pace.run := by
  have hkept := upload_keepsWithin account size { ahead, day }
  have hstart : Within account.pace.run { ahead, day } := ⟨Nat.le_refl _, Nat.zero_le _⟩
  exact (hkept.2 h hstart).2

end Runs

def onceTurnedAway (i : Nat) : Moment :=
  { answer := .ok (if i = 6 then { status := 503 } else welcome), bytes := .ok [0, 0, 0, 0] }

theorem upload_once_turned_away :
    (upload plainAccount 4 { ahead := onceTurnedAway }).2.rested ≤ plainAccount.pace.run :=
  upload_within_budget plainAccount 4 onceTurnedAway 0 (by decide +kernel)

/-- Every chunk is acknowledged up to its next byte, and before each one the token has run out and
is refused for nearly five minutes. -/
def tokensRefused (i : Nat) : Moment :=
  if i < 11 then { answer := .ok welcome }
  else
    let chunk := (i - 11) / 12
    let step := (i - 11) % 12
    { held := false
      bytes := .ok [0, 0, 0, 0]
      answer := .ok (if step = 5 then { status := 503, retryAfter := some 290000 }
        else if step = 8 then {}
        else
          { status := 308
            range := ["bytes=0-0", "bytes=0-1", "bytes=0-2", "bytes=0-3"][chunk]? }) }

/-- The pauses before a token are not taken from the budget of the run. -/
theorem upload_over_budget :
    ¬ ∀ (account : Account) (size : Nat) (ahead : Nat → Moment) (day : Nat),
      (upload account size { ahead, day }).2.rested ≤ account.pace.run := by
  intro hall
  have hlong : plainAccount.pace.run <
      (upload plainAccount 4 { ahead := tokensRefused }).2.rested := by decide +kernel
  exact absurd (hall plainAccount 4 tokensRefused 0) (Nat.not_le.mpr hlong)

end CraftPanel.Drive.Running
