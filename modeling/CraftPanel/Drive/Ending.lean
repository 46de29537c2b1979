import CraftPanel.Drive.Running

/-!
# The loop of `send` ends

However Google answers, a loop puts no more chunks than the bytes that are left allow, and the sums
it computes are all in `u64`, but for the one behind the last byte that a `Range` header can name.
-/

namespace CraftPanel.Drive.Running

open Framework Framework.Effect Upload

section Requests

variable {α : Type} {carry : Carry} {total start : Nat} {loop : Sending} {waiting : Waiting}

def SameRequests (w t : World) : Prop := t.requests = w.requests

/-- At most `n` chunks are put. -/
def Spends {α : Type} (n : Nat) (x : Run α) : Prop :=
  x.Keeps fun w t => t.requests ≤ w.requests + n

theorem after_sameRequests (range : Option String) : (after range).Keeps SameRequests := by
  intro w
  unfold after
  cases range.bind lastByte <;> rfl

theorem quiet_sameRequests : Quiet SameRequests where
  refl := fun _ => rfl
  trans := fun _ _ _ h h' => h'.trans h
  asks := fun _ => rfl
  turned := fun _ _ _ _ _ _ => rfl
  waits := fun _ _ => rfl
  rests := fun _ _ => rfl

theorem calling_sameRequests : Calling (fun _ => True) SameRequests :=
  quiet_sameRequests.calling after_sameRequests

theorem Spends.after {x : Run α} {β : Type} {f : α → Run β} {n : Nat} (h : x.Keeps SameRequests)
    (hnext : ∀ a, Spends n (f a)) : Spends n (x >>= f) := by
  apply h.comp hnext
  · intro w t u hsame hle
    unfold SameRequests at hsame
    omega
  · intro w t hsame
    unfold SameRequests at hsame
    omega

theorem Spends.before {x : Run α} {β : Type} {f : α → Run β} {n : Nat} (h : Spends n x)
    (hnext : ∀ a, (f a).Keeps SameRequests) : Spends n (x >>= f) := by
  apply Keeps.comp h hnext
  · intro w t u hle hsame
    unfold SameRequests at hsame
    omega
  · exact fun _ _ hle => hle

theorem spends_of_same {x : Run α} {n : Nat} (h : x.Keeps SameRequests) : Spends n x := by
  apply h.mono
  intro w t hsame
  unfold SameRequests at hsame
  omega

theorem keepTrying_putChunk : Spends (waiting.plan.tries + 1) (keepTrying waiting putChunk) := by
  have hput : Spends 1 putChunk := fun w => Nat.le_refl _
  have htry : ∀ stand, Spends 1 ((tries waiting putChunk).body stand) := by
    intro stand
    apply Spends.after quiet_sameRequests.isCancelled
    intro cancelled
    split
    · exact spends_of_same (keeps_fail quiet_sameRequests.refl _)
    apply hput.before
    intro answer
    split
    · exact keeps_pure quiet_sameRequests.refl _
    · split
      · exact keeps_fail quiet_sameRequests.refl _
      · exact quiet_sameRequests.setsBack _ _ _
  intro w
  have hloop := Loop.finish_spends htry (0, 0) w
  rw [Nat.one_mul] at hloop
  exact hloop

theorem turns_sameRequests (chunk : Bytes) (answer : Except DriveError Chunk) :
    (turns carry loop chunk answer).Keeps SameRequests := by
  unfold turns
  have hrefl := quiet_sameRequests.refl
  have htrans := quiet_sameRequests.trans
  have htook : ∀ bytes, (took bytes).Keeps SameRequests := fun _ _ => rfl
  have hcounts : ∀ value, (counts value).Keeps SameRequests := fun _ _ => rfl
  split
  · exact keeps_fail hrefl _
  · exact (htook _).bind htrans fun _ => keeps_pure hrefl _
  split
  · exact (calling_sameRequests.tokenUnless trivial).bind htrans fun _ => keeps_pure hrefl _
  split
  · exact quiet_sameRequests.breathes _ _
  · exact (hcounts _).bind htrans fun _ => (htook _).bind htrans fun _ => keeps_pure hrefl _

theorem pass_spends : Spends (carry.over.plan.tries + 1) (pass carry total loop) := by
  have hcounts : ∀ value, (counts value).Keeps SameRequests := fun _ _ => rfl
  have htallied : (tallied carry).Keeps SameRequests := fun _ => rfl
  have hhears : ∀ heard, (hearsAll heard).Keeps SameRequests := fun _ _ => rfl
  have htoken : (tokenUnless carry.bearing).Keeps SameRequests :=
    calling_sameRequests.tokenUnless trivial
  unfold pass
  split
  · apply Spends.after (quiet_sameRequests.ask _)
    intro cancelled
    split
    · exact spends_of_same (keeps_fail quiet_sameRequests.refl _)
    apply Spends.after htallied
    intro _
    apply Spends.after htoken
    intro _
    apply Spends.after (hcounts _)
    intro _
    apply Spends.after (calling_sameRequests.readExact _)
    intro chunk
    apply Spends.after (hcounts _)
    intro _
    have hchunk : Spends (carry.over.plan.tries + 1) (oneChunk carry.over loop.offset chunk) :=
      Spends.after (hcounts _) fun _ => keepTrying_putChunk.before calling_sameRequests.reads
    apply Spends.before (Keeps.attempt hchunk)
    intro answer
    exact (hhears _).bind quiet_sameRequests.trans fun _ => turns_sameRequests chunk answer
  · exact spends_of_same (calling_sameRequests.lastWord trivial trivial)

end Requests

/-- The value is one of `u64`. -/
def Fits (value : Int) : Prop := 0 ≤ value ∧ value < u64

/-- All sums fit, unless one was asked for behind the last number that there is. -/
def Summed (w : World) : Prop :=
  (∀ value ∈ w.sums, Fits value) ↔ ∀ last, Heard.range (some last) ∈ w.heard → last ≠ u64 - 1

def KeepsSummed (w t : World) : Prop := Summed w → Summed t

section Sums

variable {carry : Carry} {total start : Nat} {loop : Sending} {waiting : Waiting}

theorem summed_congr {w t : World} (hsums : t.sums = w.sums)
    (hheard : ∀ last, Heard.range (some last) ∈ t.heard ↔ Heard.range (some last) ∈ w.heard) :
    KeepsSummed w t := by
  intro h
  unfold Summed at h ⊢
  rw [hsums, h]
  simp only [hheard]

theorem quiet_keepsSummed : Quiet KeepsSummed where
  refl := fun _ => id
  trans := fun _ _ _ h h' hw => h' (h hw)
  asks := fun _ => summed_congr rfl fun _ => Iff.rfl
  turned := fun _ _ _ _ _ _ => summed_congr rfl fun _ => by simp
  waits := fun _ _ => summed_congr rfl fun _ => Iff.rfl
  rests := fun _ _ => summed_congr rfl fun _ => Iff.rfl

theorem counts_keepsSummed {value : Int} (h : Fits value) : (counts value).Keeps KeepsSummed := by
  intro w hw
  show (∀ other ∈ w.sums ++ [value], Fits other) ↔
    ∀ last, Heard.range (some last) ∈ w.heard → last ≠ u64 - 1
  rw [← show _ ↔ _ from hw, List.forall_mem_append, List.forall_mem_singleton]
  exact and_iff_left h

theorem parseU64_lt {text : String} {value : Nat} (h : parseU64 text = some value) :
    value < u64 := by
  unfold parseU64 at h
  obtain ⟨hvalid, hvalue⟩ := Option.ite_none_right_eq_some.mp h
  rw [← Option.some.inj hvalue]
  exact hvalid.2.2

theorem lastByte_lt {range : String} {last : Nat} (h : lastByte range = some last) : last < u64 := by
  unfold lastByte at h
  split at h
  · cases h
  · split at h
    · exact parseU64_lt h
    · cases h

theorem after_keepsSummed (range : Option String) : (after range).Keeps KeepsSummed := by
  intro w hw
  unfold after
  cases hlast : range.bind lastByte with
  | none =>
    have hsame : KeepsSummed w { w with heard := w.heard ++ [.range none] } :=
      summed_congr rfl fun _ => by simp
    exact hsame hw
  | some last =>
    obtain ⟨header, -, hheader⟩ := Option.bind_eq_some_iff.mp hlast
    have hlt := lastByte_lt hheader
    have hfits : Fits (last + 1) ↔ last ≠ u64 - 1 := by
      unfold Fits
      omega
    show (∀ value ∈ w.sums ++ [(last + 1 : Int)], Fits value) ↔
      ∀ other, Heard.range (some other) ∈ w.heard ++ [.range (some last)] → other ≠ u64 - 1
    rw [List.forall_mem_append, List.forall_mem_singleton, hfits, show _ ↔ _ from hw]
    simp [or_imp, forall_and]

theorem calling_keepsSummed : Calling (fun _ => True) KeepsSummed :=
  quiet_keepsSummed.calling after_keepsSummed

theorem readExact_bind {β : Type} {f : Bytes → Run β} {wanted : Nat}
    (hnext : ∀ chunk, chunk.length = wanted → (f chunk).Keeps KeepsSummed) :
    (readExact wanted >>= f).Keeps KeepsSummed := by
  have hrefl := quiet_keepsSummed.refl
  have hread : ∀ w, (readExact wanted).Ends w fun result t =>
      KeepsSummed w t ∧ ∀ chunk, result = .ok chunk → chunk.length = wanted := by
    intro w
    apply Ends.bind (quiet_keepsSummed.ask Moment.bytes w)
    · intro bytes t hasked
      split
      · exact ⟨hasked, fun _ h => by cases h⟩
      split
      · exact ⟨hasked, fun _ h => by cases h⟩
      next hlong =>
        refine ⟨hasked, ?_⟩
        rintro chunk ⟨⟩
        rw [List.length_take]
        omega
    · exact fun _ _ hasked => ⟨hasked, fun _ h => by cases h⟩
  intro w
  apply Ends.bind (hread w)
  · intro chunk t hchunk
    apply (hnext chunk (hchunk.2 chunk rfl) t).mono
    exact fun _ u hlast => quiet_keepsSummed.trans w t u hchunk.1 hlast
  · exact fun _ _ hchunk => hchunk.1

theorem hears_offset {crates : Crates} {chunk : Bytes} {answer : Except DriveError Chunk}
    {next : Sending} {turn : Turn} (h : loop.hears crates chunk answer = (next, turn)) :
    loop.offset ≤ next.offset ∧ next.offset ≤ loop.offset + chunk.length := by
  unfold Sending.hears at h
  split at h
  · split at h <;> cases h <;> exact ⟨Nat.le_refl _, Nat.le_add_right _ _⟩
  · cases h
    exact ⟨Nat.le_refl _, Nat.le_add_right _ _⟩
  · cases h
    exact ⟨Nat.le_refl _, Nat.le_add_right _ _⟩
  dsimp only at h
  split at h
  · cases h
    exact ⟨Nat.le_refl _, Nat.le_add_right _ _⟩
  next hsent =>
    split at h
    · split at h <;> cases h <;> exact ⟨Nat.le_refl _, Nat.le_add_right _ _⟩
    next hfresh =>
      cases h
      dsimp only
      omega

theorem took_keepsSummed (bytes : Nat) : (took bytes).Keeps KeepsSummed :=
  fun _ => summed_congr rfl fun _ => Iff.rfl

theorem turns_keepsSummed {chunk : Bytes} {answer : Except DriveError Chunk}
    (hchunk : loop.offset + chunk.length < u64) :
    (turns carry loop chunk answer).Keeps KeepsSummed := by
  have hrefl := quiet_keepsSummed.refl
  have htrans := quiet_keepsSummed.trans
  unfold turns
  split
  · exact keeps_fail hrefl _
  · exact (took_keepsSummed _).bind htrans fun _ => keeps_pure hrefl _
  next next hgoesOn =>
    have hoffset := hears_offset hgoesOn
    split
    · exact (calling_keepsSummed.tokenUnless trivial).bind htrans fun _ => keeps_pure hrefl _
    split
    · exact quiet_keepsSummed.breathes _ _
    have hfits : Fits ((next.offset : Int) - loop.offset) := by
      unfold Fits
      omega
    exact (counts_keepsSummed hfits).bind htrans fun _ =>
      (took_keepsSummed _).bind htrans fun _ => keeps_pure hrefl _

theorem hearsAll_keepsSummed (chunk : Bytes) (answer : Except DriveError Chunk) :
    (hearsAll (heardOf loop chunk answer)).Keeps KeepsSummed := by
  intro w
  have hranges : ∀ last, Heard.range (some last) ∈ w.heard ++ heardOf loop chunk answer ↔
      Heard.range (some last) ∈ w.heard := by
    intro last
    unfold heardOf
    split <;> simp
  exact summed_congr (t := { w with heard := w.heard ++ heardOf loop chunk answer }) rfl hranges

theorem oneChunk_keepsSummed {bytes : Bytes} {offset : Nat} (hsome : 0 < bytes.length)
    (hfits : offset + bytes.length < u64) : (oneChunk waiting offset bytes).Keeps KeepsSummed := by
  have hlast : Fits (offset + bytes.length - 1) := by
    unfold Fits
    omega
  have hput : putChunk.Keeps KeepsSummed := by
    intro w
    exact calling_keepsSummed.exchange lookedAt { w with requests := w.requests + 1 }
  exact (counts_keepsSummed hlast).bind quiet_keepsSummed.trans fun _ =>
    (quiet_keepsSummed.keepTrying hput).bind quiet_keepsSummed.trans calling_keepsSummed.reads

theorem pass_keepsSummed (htotal : total < u64) : (pass carry total loop).Keeps KeepsSummed := by
  have hrefl := quiet_keepsSummed.refl
  have htrans := quiet_keepsSummed.trans
  have htallied : (tallied carry).Keeps KeepsSummed := fun _ => id
  have htoken : (tokenUnless carry.bearing).Keeps KeepsSummed :=
    calling_keepsSummed.tokenUnless trivial
  unfold pass
  split
  next hoffset =>
    apply (quiet_keepsSummed.ask _).bind htrans
    intro cancelled
    split
    · exact keeps_fail hrefl _
    apply htallied.bind htrans
    intro _
    apply htoken.bind htrans
    intro _
    have hleft : Fits ((total : Int) - loop.offset) := by
      unfold Fits
      omega
    apply (counts_keepsSummed hleft).bind htrans
    intro _
    apply readExact_bind
    intro chunk hlength
    have hchunk : loop.offset + chunk.length ≤ total ∧ 0 < chunk.length := by
      unfold chunkSize at hlength
      omega
    have hsent : Fits (loop.offset + chunk.length) := by
      unfold Fits
      omega
    apply (counts_keepsSummed hsent).bind htrans
    intro _
    apply (oneChunk_keepsSummed hchunk.2 (hchunk.1.trans_lt htotal)).attempt.bind htrans
    intro answer
    exact (hearsAll_keepsSummed chunk answer).bind htrans fun _ =>
      turns_keepsSummed (hchunk.1.trans_lt htotal)
  next => exact calling_keepsSummed.lastWord trivial trivial

theorem send_keepsSummed (carried : Digests) (htotal : total < u64) :
    (send carry total start carried).Keeps KeepsSummed :=
  calling_keepsSummed.send (fun _ => pass_keepsSummed htotal) _

end Sums

section Ends

variable {carry : Carry} {total start : Nat}

theorem send_spends (carried : Digests) :
    Spends ((carry.over.plan.tries + 1) * (6 * (total - start) + 6))
      (send carry total start carried) := by
  apply Spends.after (quiet_sameRequests.ask _)
  intro bytes
  split
  · exact spends_of_same (keeps_fail quiet_sameRequests.refl _)
  split
  · exact spends_of_same (keeps_fail quiet_sameRequests.refl _)
  intro w
  have hpass : ∀ loop, Spends (carry.over.plan.tries + 1) ((sending carry total).body loop) :=
    fun loop => pass_spends
  exact Loop.finish_spends hpass { offset := start, ours := carried } w

/-- For every archive and every sequence of answers the loop of `send` ends, after no more chunks
than so many for each byte that was left; and no sum leaves `u64` just where no `Range` header names
the last number of it. -/
theorem send_ends (carry : Carry) (total start : UInt64) (carried : Digests) (w : World) :
    let t := (send carry total.toNat start.toNat carried
      { w with requests := 0, heard := [], sums := [] }).2
    t.requests ≤ (carry.over.plan.tries + 1) * (6 * (total.toNat - start.toNat) + 6) ∧
      ((∀ value ∈ t.sums, Fits value) ↔
        ∀ last, Heard.range (some last) ∈ t.heard → last ≠ u64 - 1) := by
  intro t
  constructor
  · have hspends : t.requests ≤
        0 + (carry.over.plan.tries + 1) * (6 * (total.toNat - start.toNat) + 6) :=
      send_spends carried { w with requests := 0, heard := [], sums := [] }
    exact Nat.le_trans hspends (Nat.le_of_eq (Nat.zero_add _))
  · have hstart : Summed { w with requests := 0, heard := [], sums := [] } := by
      unfold Summed
      simp
    exact send_keepsSummed carried total.toNat_lt _ hstart

end Ends

/-- One byte, and a Google that says again and again that it holds all that a number can count. -/
def boundless : World where
  ahead := fun _ =>
    { answer := .ok { status := 308, range := some "bytes=0-18446744073709551615" }
      bytes := .ok [0] }

/-- The number behind the last byte of a `Range` header need not fit. -/
theorem after_overflows :
    ¬ ∀ (carry : Carry) (total start : UInt64) (carried : Digests) (w : World),
      ∀ value ∈ (send carry total.toNat start.toNat carried
        { w with requests := 0, heard := [], sums := [] }).2.sums, Fits value := by
  intro hall
  have hfits := hall
    { pace := .real, crates := ⟨fun _ => "", fun _ => "", id⟩, ceiling := 750, before := 0
      «over» := { plan := .patient } } 1 0 {} boundless
  have hsum : (18446744073709551616 : Int) ∈ (send
      { pace := .real, crates := ⟨fun _ => "", fun _ => "", id⟩, ceiling := 750, before := 0
        «over» := { plan := .patient } } (1 : UInt64).toNat (0 : UInt64).toNat {}
      { boundless with requests := 0, heard := [], sums := [] }).2.sums := by
    decide +kernel
  have hlast := hfits _ hsum
  unfold Fits u64 at hlast
  omega

end CraftPanel.Drive.Running
