import Mathlib.Algebra.GroupWithZero.Nat
import CraftPanel.Drive.Running

/-!
# The day's tally

What Google acknowledges in a run is counted once, and added to the row of the day when the run
ends. A run that opens its session again and cannot ends without that.
-/

namespace CraftPanel.Drive.Running

open Framework Framework.Effect Upload

def Heard.acknowledges : Heard → Nat
  | .acknowledged offset sent received =>
    if offset < received ∧ received ≤ sent then received - offset else 0
  | .finished offset sent => sent - offset
  | _ => 0

def acknowledged (heard : List Heard) : Nat := (heard.map Heard.acknowledges).sum

/-- Nothing was acknowledged, or the run was not turned away from a new session, the day's row was
written, and the bytes fit its column. -/
def Tallied (heard : List Heard) : Prop :=
  acknowledged heard = 0 ∨
    (acknowledged heard ≤ i64Max ∧ .reopened false ∉ heard ∧ .noted false ∉ heard)

instance (heard : List Heard) : Decidable (Tallied heard) := inferInstanceAs (Decidable (_ ∨ _))

def Heard.tells : Heard → Bool
  | .turnedAway .. | .range _ => false
  | _ => true

def told (w : World) : List Heard := w.heard.filter Heard.tells

/-- The row of the day says what it should just where the run was tallied. -/
def Settled (day : Nat) (w : World) : Prop :=
  w.day = day + acknowledged w.heard ↔ Tallied w.heard

/-- The row of the day is as it was, and the tally is what was acknowledged. -/
structure Counting (day : Nat) (w : World) : Prop where
  row : w.day = day
  tally : w.added = acknowledged w.heard % u64
  unnoted : ∀ ok, .noted ok ∉ w.heard
  opened : .reopened false ∉ w.heard

/-- Nothing of what counts is changed. -/
def Unchanged (w t : World) : Prop := t.day = w.day ∧ t.added = w.added ∧ told t = told w

section Logs

variable {w t : World} {day : Nat}

theorem acknowledged_append (heard more : List Heard) :
    acknowledged (heard ++ more) = acknowledged heard + acknowledged more := by
  simp [acknowledged]

theorem acknowledged_told (w : World) : acknowledged (told w) = acknowledged w.heard := by
  unfold told
  induction w.heard with
  | nil => rfl
  | cons heard rest ih =>
    rw [List.filter_cons]
    unfold acknowledged at ih ⊢
    cases heard <;> simp [Heard.tells, ih, Heard.acknowledges]

theorem mem_told {heard : Heard} (h : heard.tells = true) : heard ∈ told w ↔ heard ∈ w.heard := by
  simp [told, h]

theorem Unchanged.acknowledged (h : Unchanged w t) :
    acknowledged t.heard = acknowledged w.heard := by
  rw [← acknowledged_told, h.2.2, acknowledged_told]

theorem Unchanged.mem (h : Unchanged w t) {heard : Heard} (htells : heard.tells = true) :
    heard ∈ t.heard ↔ heard ∈ w.heard := by
  rw [← mem_told htells, h.2.2, mem_told htells]

theorem Unchanged.settled (h : Unchanged w t) (hw : Settled day w) : Settled day t := by
  unfold Settled Tallied at hw ⊢
  rw [h.1, h.acknowledged, h.mem rfl, h.mem rfl]
  exact hw

theorem Unchanged.counting (h : Unchanged w t) (hw : Counting day w) : Counting day t where
  row := h.1.trans hw.row
  tally := by rw [h.2.1, h.acknowledged, hw.tally]
  unnoted := fun ok hmem => hw.unnoted ok ((h.mem rfl).mp hmem)
  opened := fun hmem => hw.opened ((h.mem rfl).mp hmem)

theorem unchanged_of_tells {heard : Heard} (h : heard.tells = false) :
    Unchanged w { w with heard := w.heard ++ [heard] } := by
  refine ⟨rfl, rfl, ?_⟩
  simp [told, h]

theorem quiet_unchanged : Quiet Unchanged where
  refl := fun _ => ⟨rfl, rfl, rfl⟩
  trans := fun _ _ _ h h' => ⟨h'.1.trans h.1, h'.2.1.trans h.2.1, h'.2.2.trans h.2.2⟩
  asks := fun _ => ⟨rfl, rfl, rfl⟩
  turned := fun _ _ _ _ _ _ => unchanged_of_tells rfl
  waits := fun _ _ => ⟨rfl, rfl, rfl⟩
  rests := fun _ _ => ⟨rfl, rfl, rfl⟩

theorem after_unchanged (range : Option String) : (after range).Keeps Unchanged := by
  intro w
  unfold after
  cases range.bind lastByte with
  | none => exact unchanged_of_tells rfl
  | some last =>
    have h : Unchanged w { w with heard := w.heard ++ [.range (some last)] } := unchanged_of_tells rfl
    exact h

theorem calling_unchanged : Calling (fun _ => True) Unchanged := quiet_unchanged.calling after_unchanged

end Logs

section Loops

variable {w t : World} {day : Nat} {carry : Carry} {total start : Nat} {loop next : Sending}
  {chunk : Bytes}

/-- While it is sending, a run stays one that is counting. -/
def Counts (w t : World) : Prop := ∀ day, Counting day w → Counting day t

theorem counts_refl (w : World) : Counts w w := fun _ => id

theorem counts_trans (w t u : World) (h : Counts w t) (h' : Counts t u) : Counts w u :=
  fun day hw => h' day (h day hw)

theorem Unchanged.counts (h : Unchanged w t) : Counts w t := fun _ => h.counting

/-- What is told and not taken yet. -/
structure Owing (day bytes : Nat) (w : World) : Prop where
  row : w.day = day
  tally : (w.added + bytes) % u64 = acknowledged w.heard % u64
  small : w.added < u64
  unnoted : ∀ ok, .noted ok ∉ w.heard
  opened : .reopened false ∉ w.heard

theorem Owing.counting (h : Owing day 0 w) : Counting day w where
  row := h.row
  tally := by rw [← h.tally, Nat.add_zero, Nat.mod_eq_of_lt h.small]
  unnoted := h.unnoted
  opened := h.opened

theorem Owing.took {bytes : Nat} (h : Owing day bytes w) :
    Counting day { w with added := (w.added + bytes) % u64 } where
  row := h.row
  tally := h.tally
  unnoted := h.unnoted
  opened := h.opened

theorem counting_hears (h : Counting day w) (answer : Except DriveError Chunk) :
    Owing day (acknowledged (heardOf loop chunk answer))
      { w with heard := w.heard ++ heardOf loop chunk answer } := by
  have hnone : ∀ ok, .noted ok ∉ heardOf loop chunk answer ∧
      .reopened ok ∉ heardOf loop chunk answer := by
    intro ok
    unfold heardOf
    split <;> simp
  constructor
  · exact h.row
  · show (w.added + _) % u64 = acknowledged (w.heard ++ _) % u64
    rw [acknowledged_append, h.tally, Nat.mod_add_mod]
  · show w.added < u64
    rw [h.tally]
    exact Nat.mod_lt _ (by decide)
  · intro ok hmem
    rcases List.mem_append.mp hmem with hbefore | hnow
    · exact h.unnoted ok hbefore
    · exact (hnone ok).1 hnow
  · intro hmem
    rcases List.mem_append.mp hmem with hbefore | hnow
    · exact h.opened hbefore
    · exact (hnone false).2 hnow

def advances (loop next : Sending) (chunk : Bytes) : Turn → Nat
  | .fails _ => 0
  | .ends _ => chunk.length
  | .goesOn => next.offset - loop.offset

theorem hears_acknowledges {crates : Crates} {answer : Except DriveError Chunk} {turn : Turn}
    (h : loop.hears crates chunk answer = (next, turn)) :
    acknowledged (heardOf loop chunk answer) = advances loop next chunk turn := by
  unfold Sending.hears at h
  split at h
  · split at h
    · cases h
      rfl
    · cases h
      exact (Nat.sub_self _).symm
  · cases h
    rfl
  · cases h
    simp [heardOf, acknowledged, Heard.acknowledges, advances]
  next received moved =>
    have hone : acknowledged (heardOf loop chunk (.ok (.more received moved))) =
        if loop.offset < received ∧ received ≤ loop.offset + chunk.length then
          received - loop.offset else 0 := by
      simp [heardOf, acknowledged, Heard.acknowledges]
    rw [hone]
    dsimp only at h
    split at h
    next hmore =>
      cases h
      exact if_neg (by omega)
    next hsent =>
      split at h
      next hstays =>
        split at h
        · cases h
          exact if_neg (by omega)
        · cases h
          rw [if_neg (by omega)]
          exact (Nat.sub_self _).symm
      next hfresh =>
        cases h
        exact if_pos (by omega)

theorem hears_error {crates : Crates} {err : DriveError}
    (h : loop.hears crates chunk (.error err) = (next, .goesOn)) : next.offset = loop.offset := by
  unfold Sending.hears at h
  split at h
  · split at h
    · cases h
    · cases h
      rfl
  · cases h
  next heq => cases heq
  next heq => cases heq

theorem taken_counts (answer : Except DriveError Chunk) :
    (hearsAll (heardOf loop chunk answer) >>= fun _ => turns carry loop chunk answer).Keeps Counts := by
  intro w day hw
  have howing : Owing day (acknowledged (heardOf loop chunk answer))
      { w with heard := w.heard ++ heardOf loop chunk answer } := counting_hears hw answer
  show Ends (turns carry loop chunk answer) { w with heard := w.heard ++ heardOf loop chunk answer }
    fun _ t => Counting day t
  generalize { w with heard := w.heard ++ heardOf loop chunk answer } = t at howing
  unfold turns
  split
  next hfails =>
    rw [hears_acknowledges hfails] at howing
    exact howing.counting
  next hends =>
    rw [hears_acknowledges hends] at howing
    exact howing.took
  next next hgoesOn =>
    rw [hears_acknowledges hgoesOn, advances] at howing
    split
    next err =>
      rw [hears_error hgoesOn, Nat.sub_self] at howing
      exact (calling_unchanged.tokenUnless trivial).bind calling_unchanged.trans
        (fun _ => keeps_pure calling_unchanged.refl _) t |>.mono
          fun _ u hsame => hsame.counting howing.counting
    next answer =>
      split
      next hsame =>
        rw [hsame, Nat.sub_self] at howing
        exact (quiet_unchanged.breathes _ _ t).mono fun _ u hunchanged =>
          hunchanged.counting howing.counting
      · have hcounted : Owing day (next.offset - loop.offset)
            { t with sums := t.sums ++ [(next.offset : Int) - loop.offset] } :=
          ⟨howing.row, howing.tally, howing.small, howing.unnoted, howing.opened⟩
        exact hcounted.took

theorem pass_counts : (pass carry total loop).Keeps Counts := by
  have hcalls := calling_unchanged
  have hfirst : ∀ {α β : Type} {x : Run α} {f : α → Run β}, x.Keeps Unchanged →
      (∀ a, (f a).Keeps Counts) → (x >>= f).Keeps Counts := by
    intro α β x f hx hf
    exact hx.comp hf (fun w t u h h' => counts_trans w t u h.counts h') fun _ _ h => h.counts
  have hcounts : ∀ value, (counts value).Keeps Unchanged := fun _ _ => ⟨rfl, rfl, rfl⟩
  have htallied : (tallied carry).Keeps Unchanged := fun _ => ⟨rfl, rfl, rfl⟩
  have hput : putChunk.Keeps Unchanged := fun _ => ⟨rfl, rfl, rfl⟩
  unfold pass
  split
  · apply hfirst (hcalls.ask _)
    intro cancelled
    split
    · exact keeps_fail counts_refl _
    apply hfirst htallied
    intro _
    apply hfirst (hcalls.tokenUnless trivial)
    intro _
    apply hfirst (hcounts _)
    intro _
    apply hfirst (hcalls.readExact _)
    intro chunk
    apply hfirst (hcounts _)
    intro _
    have hone : (oneChunk carry.over loop.offset chunk).Keeps Unchanged :=
      (hcounts _).bind hcalls.trans fun _ =>
        (hcalls.tries trivial hput).bind hcalls.trans hcalls.reads
    apply hfirst hone.attempt
    exact fun answer => taken_counts answer
  · exact (hcalls.lastWord trivial trivial).mono fun _ _ h => h.counts

theorem send_counts (carried : Digests) : (send carry total start carried).Keeps Counts := by
  apply (calling_unchanged.ask _).comp _ (fun w t u h h' => counts_trans w t u h.counts h')
    (fun _ _ h => h.counts)
  intro bytes
  split
  · exact keeps_fail counts_refl _
  · split
    · exact keeps_fail counts_refl _
    · exact Loop.finish_keeps counts_refl counts_trans (fun _ => pass_counts) _

end Loops

section Runs

variable {w t : World} {day size start : Nat} {account : Account} {carry : Carry}

/-- Nothing has been acknowledged yet. -/
structure Idle (day : Nat) (w : World) : Prop extends Counting day w where
  nothing : acknowledged w.heard = 0

theorem Unchanged.idle (h : Unchanged w t) (hw : Idle day w) : Idle day t :=
  ⟨h.counting hw.toCounting, by rw [h.acknowledged, hw.nothing]⟩

theorem Idle.settled (h : Idle day w) : Settled day w := by
  unfold Settled Tallied
  simp [h.row, h.nothing]

theorem Counting.lost (h : Counting day w) :
    Settled day { w with heard := w.heard ++ [.reopened false] } := by
  unfold Settled Tallied
  rw [acknowledged_append]
  simp [acknowledged, Heard.acknowledges, h.row]

theorem Counting.reopened (h : Counting day w) :
    Counting day { w with heard := w.heard ++ [.reopened true] } := by
  have hsum : acknowledged (w.heard ++ [.reopened true]) = acknowledged w.heard := by
    rw [acknowledged_append]
    rfl
  constructor
  · exact h.row
  · exact h.tally.trans (congrArg (· % u64) hsum.symm)
  · intro ok hmem
    rcases List.mem_append.mp hmem with hbefore | hnow
    · exact h.unnoted ok hbefore
    · cases List.mem_singleton.mp hnow
  · intro hmem
    rcases List.mem_append.mp hmem with hbefore | hnow
    · exact h.opened hbefore
    · cases List.mem_singleton.mp hnow

theorem Counting.unwritten (h : Counting day w) (hzero : w.added = 0) : Settled day w := by
  have htally := h.tally
  have hsmall : i64Max < u64 := by decide
  unfold Settled Tallied
  rw [h.row]
  constructor
  · intro hsame
    exact .inl (by omega)
  · rintro (hnothing | ⟨hfits, -⟩)
    · omega
    · rw [Nat.mod_eq_of_lt (by omega)] at htally
      omega

theorem Counting.written (h : Counting day w) :
    Settled day { w with
      heard := w.heard ++ [.noted true]
      day := w.day + min w.added i64Max } := by
  have htally := h.tally
  have hsmall : i64Max < u64 := by decide
  have hopened := h.opened
  have hunnoted := h.unnoted false
  have hsum : acknowledged (w.heard ++ [.noted true]) = acknowledged w.heard := by
    rw [acknowledged_append]
    rfl
  have hclear : .reopened false ∉ w.heard ++ [.noted true] ∧
      .noted false ∉ w.heard ++ [.noted true] := by simp [hopened, hunnoted]
  have hmod := Nat.mod_le (acknowledged w.heard) u64
  unfold Settled Tallied
  dsimp only
  rw [hsum, h.row, Nat.add_left_cancel_iff]
  constructor
  · intro hsame
    have hfits : min w.added i64Max ≤ i64Max := Nat.min_le_right _ _
    exact .inr ⟨hsame ▸ hfits, hclear⟩
  · rintro (hnothing | ⟨hfits, -⟩)
    · omega
    · rw [Nat.mod_eq_of_lt (by omega)] at htally
      rw [htally, Nat.min_eq_left hfits]

theorem Counting.unnotedRow (h : Counting day w) (hsome : w.added ≠ 0) :
    Settled day { w with heard := w.heard ++ [.noted false] } := by
  have hmod := Nat.mod_le (acknowledged w.heard) u64
  have hmore : acknowledged w.heard % u64 ≠ 0 := h.tally ▸ hsome
  rw [acknowledged] at hmod hmore
  unfold Settled Tallied
  rw [acknowledged_append]
  simp only [h.row, acknowledged, Heard.acknowledges, List.map_cons, List.map_nil, List.sum_cons,
    List.sum_nil, Nat.add_zero, List.mem_append, List.mem_singleton, or_true, not_true_eq_false,
    and_false, or_false]
  omega

theorem noteDay_settles (h : Counting day w) : noteDay.Ends w fun _ t => Settled day t := by
  have htally : tally.Ends w fun result t => result = .ok w.added ∧ t = w := ⟨rfl, rfl⟩
  apply Ends.bind htally
  · rintro added t ⟨hadded, rfl⟩
    cases hadded
    split
    next hzero => exact h.unwritten hzero
    next hsome =>
      have hask : (ask Moment.written).Ends t fun result u =>
          result = .ok (t.ahead t.asked).written ∧ u = { t with asked := t.asked + 1 } := ⟨rfl, rfl⟩
      have hasked : Counting day { t with asked := t.asked + 1 } :=
        ⟨h.row, h.tally, h.unnoted, h.opened⟩
      apply Ends.bind hask
      · rintro written u ⟨-, rfl⟩
        cases written with
        | true => exact hasked.written
        | false => exact hasked.unnotedRow hsome
      · rintro e u ⟨hask, -⟩
        cases hask
  · rintro e t ⟨hadded, -⟩
    cases hadded

theorem whole_settles (h : Counting day w) (sent : Sent) :
    (whole account size sent).Ends w fun _ t => Settled day t := by
  have hrest : ∀ {α : Type} {x : Run α} {u : World}, x.Keeps Unchanged → Settled day u →
      x.Ends u fun _ t => Settled day t :=
    fun hx hu => (hx _).mono fun _ _ hsame => hsame.settled hu
  apply Ends.bind (noteDay_settles h)
  · intro _ t ht
    apply hrest _ ht
    apply (calling_unchanged.tokenUnless trivial).bind calling_unchanged.trans
    intro _
    apply (calling_unchanged.ask _).bind calling_unchanged.trans
    intro unchanged
    split
    · exact calling_unchanged.confirmStored trivial trivial _
    · exact calling_unchanged.throwAway trivial _
  · exact fun _ _ ht => ht

theorem failing_settles (h : Counting day w) (err : DriveError) :
    (noteDay >>= fun _ => .fail err : Run Stored).Ends w fun _ t => Settled day t :=
  Ends.bind (noteDay_settles h) (fun _ _ ht => ht) fun _ _ ht => ht

theorem sent_settles {α : Type} {x : Run Sent} {f : Except DriveError Sent → Run α}
    (hx : x.Keeps Counts) (h : Counting day w)
    (hf : ∀ sent t, Counting day t → (f sent).Ends t fun _ u => Settled day u) :
    (x.attempt >>= f).Ends w fun _ t => Settled day t := by
  have hattempt : x.attempt.Ends w fun result t => (∃ sent, result = .ok sent) ∧ Counting day t :=
    ⟨⟨_, rfl⟩, hx w day h⟩
  apply Ends.bind hattempt
  · exact fun sent t ht => hf sent t ht.2
  · rintro e t ⟨⟨sent, hsent⟩, -⟩
    cases hsent

theorem sends_settles (h : Counting day w) (carried : Digests) :
    (sends account carry size start carried).Ends w fun _ t => Settled day t := by
  apply sent_settles (send_counts carried) h
  intro sent t ht
  split
  · exact whole_settles ht _
  · have hopen : ((openSession carry.over size).attempt).Ends t fun result u =>
        (∃ opened, result = .ok opened) ∧ Counting day u :=
      ⟨⟨_, rfl⟩, (calling_unchanged.openSession trivial t).counting ht⟩
    apply Ends.bind hopen
    · rintro opened u ⟨-, hu⟩
      cases opened with
      | error err => exact hu.lost
      | ok _ =>
        have hhears : (hears (.reopened true)).Ends u fun result v =>
            result = .ok () ∧ Counting day v := ⟨rfl, hu.reopened⟩
        apply Ends.bind hhears
        · intro _ v hv
          apply sent_settles (send_counts _) hv.2
          intro sent v hv
          split
          · exact whole_settles hv _
          · exact failing_settles hv _
        · rintro e v ⟨hnone, -⟩
          cases hnone
    · rintro e u ⟨⟨opened, hopened⟩, -⟩
      cases hopened
  · exact failing_settles ht _

theorem upload_settles (h : Idle day w) :
    (upload account size).Ends w fun _ t => Settled day t := by
  -- As long as nothing counts, it goes on with a run that is idle, and is settled wherever it ends.
  have hfirst : ∀ {α β : Type} {x : Run α} {f : α → Run β} {u : World}, x.Keeps Unchanged →
      Idle day u → (∀ a t, Idle day t → (f a).Ends t fun _ v => Settled day v) →
      (x >>= f).Ends u fun _ t => Settled day t := by
    intro α β x f u hx hu hf
    apply Ends.bind (hx u)
    · exact fun a t hsame => hf a t (hsame.idle hu)
    · exact fun e t hsame => (hsame.idle hu).settled
  have hcalls := calling_unchanged
  have htoday : sentToday.Keeps Unchanged :=
    (hcalls.ask _).bind hcalls.trans fun _ _ => ⟨rfl, rfl, rfl⟩
  have htallied : ∀ carry, (tallied carry).Keeps Unchanged := fun _ _ => ⟨rfl, rfl, rfl⟩
  apply hfirst (hcalls.ask _) h
  intro claimed t ht
  split
  · exact ht.settled
  apply hfirst (hcalls.tokenUnless trivial) ht
  intro _ t ht
  apply hfirst (hcalls.ask _) ht
  intro archive t ht
  split
  · exact ht.settled
  apply hfirst htoday ht
  intro before t ht
  apply hfirst (htallied _) ht
  intro _ t ht
  apply hfirst (hcalls.carryOn trivial) ht
  intro stand t ht
  split
  · exact ((hcalls.confirmStored trivial trivial _ t).idle ht).settled
  · exact sends_settles ht.toCounting _
  · apply hfirst (hcalls.openSession trivial) ht
    exact fun _ t ht => sends_settles ht.toCounting _

/-- However an upload ends, the row of the day has grown by all that Google acknowledged in it just
where nothing was acknowledged, or the run was not turned away from a new session and the row was
written. -/
theorem upload_tallied_iff (account : Account) (size : Nat) (ahead : Nat → Moment) (day : Nat) :
    let t := (upload account size { ahead, day }).2
    t.day = day + acknowledged t.heard ↔ Tallied t.heard := by
  have hidle : Idle day { ahead, day } :=
    { row := rfl
      tally := rfl
      unnoted := fun _ => List.not_mem_nil
      opened := List.not_mem_nil
      nothing := rfl }
  exact upload_settles hidle

/-- Google takes two bytes, forgets the session, and refuses to open another. -/
def lostSession (i : Nat) : Moment :=
  { bytes := .ok [0, 0, 0, 0]
    answer := .ok (if i < 11 then welcome
      else if i < 16 then { status := 308, range := some "bytes=0-1" }
      else if i < 21 then { status := 404 }
      else { status := 400 }) }

/-- Two bytes that Google acknowledged are in no day's row. -/
theorem upload_not_tallied :
    ¬ ∀ (account : Account) (size : Nat) (ahead : Nat → Moment) (day : Nat),
      let t := (upload account size { ahead, day }).2
      t.day = day + acknowledged t.heard := by
  intro hall
  have hlost : (upload plainAccount 4 { ahead := lostSession }).2.day ≠
      0 + acknowledged (upload plainAccount 4 { ahead := lostSession }).2.heard := by
    decide +kernel
  exact hlost (hall plainAccount 4 lostSession 0)

end Runs

end CraftPanel.Drive.Running
