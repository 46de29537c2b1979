import Mathlib.Data.List.Basic

/-!
# Files as long as their headers say

`Exactly` of `backups/archive.rs`. A file may grow or shrink while it is packed; its entry takes
as many bytes as the header promises, zeros where the file has ended.
-/

namespace CraftPanel.Backups.Packing

/-- `io::Read`: what a read into a buffer of so many bytes gives. -/
structure Reader (σ ε : Type*) where
  read : σ → Nat → Except ε (List UInt8) × σ
  fits : ∀ s n bytes, (read s n).1 = .ok bytes → bytes.length ≤ n

structure Exactly (σ : Type*) where
  inner : σ
  left : Nat

variable {σ ε : Type*} (r : Reader σ ε)

def Exactly.read (x : Exactly σ) (buf : Nat) : Except ε (List UInt8) × Exactly σ :=
  if x.left = 0 then (.ok [], x)
  else
    let wanted := min x.left buf
    match r.read x.inner wanted with
    | (.error e, s) => (.error e, { x with inner := s })
    | (.ok read, s) =>
      let filled := if read.isEmpty then List.replicate wanted 0 else read
      (.ok filled, ⟨s, x.left - filled.length⟩)

/-- One read after another, whatever each of them answers: all bytes, and what is left. -/
def Exactly.reads : Exactly σ → List Nat → List UInt8 × Exactly σ
  | x, [] => ([], x)
  | x, buf :: rest => match x.read r buf with
    | (.error _, x) => x.reads rest
    | (.ok bytes, x) => (bytes ++ (x.reads rest).1, (x.reads rest).2)

namespace Reader

/-- The reader gives these bytes over any reads, none of which comes to its end. -/
inductive Gives : σ → List UInt8 → σ → Prop
  | none {s} : Gives s [] s
  | failed {s s' s'' n e bytes} : r.read s n = (.error e, s') → Gives s' bytes s'' →
      Gives s bytes s''
  | read {s s' s'' n bytes rest} : r.read s n = (.ok bytes, s') → (bytes = [] → n = 0) →
      Gives s' rest s'' → Gives s (bytes ++ rest) s''

/-- A read that has room for a byte gives none. -/
def EndsAt (s : σ) : Prop := ∃ n, 0 < n ∧ (r.read s n).1 = .ok []

/-- Behind its end there is nothing more, as in a file that nobody writes to. -/
def StaysEnded : Prop := ∃ ended : σ → Prop,
  (∀ s n, 0 < n → (r.read s n).1 = .ok [] → ended (r.read s n).2) ∧
  ∀ s n, ended s → ended (r.read s n).2 ∧ ∀ bytes, (r.read s n).1 = .ok bytes → bytes = []

end Reader

namespace Exactly

variable {r} {x : Exactly σ} {buf : Nat}

theorem read_done (h : x.left = 0) : x.read r buf = (.ok [], x) := by
  rw [read, if_pos h]

/-- What a read does while something is left: it fails as the reader does, gives what the reader
gives, or fills the buffer where the reader has ended. -/
theorem read_cases (buf : Nat) (h : x.left ≠ 0) :
    (∃ e s, r.read x.inner (min x.left buf) = (.error e, s) ∧
      x.read r buf = (.error e, ⟨s, x.left⟩)) ∨
    ∃ bytes s, (r.read x.inner (min x.left buf) = (.ok bytes, s) ∧ (bytes = [] → buf = 0) ∨
        r.read x.inner (min x.left buf) = (.ok [], s) ∧ 0 < buf ∧
          bytes = List.replicate (min x.left buf) 0) ∧
      bytes.length ≤ x.left ∧ x.read r buf = (.ok bytes, ⟨s, x.left - bytes.length⟩) := by
  rcases hread : r.read x.inner (min x.left buf) with ⟨e | bytes, s⟩
  · exact .inl ⟨e, s, rfl, by simp only [read, if_neg h, hread]⟩
  have hfits : bytes.length ≤ min x.left buf := r.fits x.inner _ bytes (by rw [hread])
  by_cases hempty : bytes = [] ∧ 0 < buf
  · obtain ⟨rfl, hbuf⟩ := hempty
    refine .inr ⟨_, s, .inr ⟨rfl, hbuf, rfl⟩, ?_, ?_⟩
    · rw [List.length_replicate]
      exact Nat.min_le_left _ _
    · simp [read, h, hread]
  refine .inr ⟨bytes, s, .inl ⟨rfl, fun hb => ?_⟩, by omega, ?_⟩
  · by_contra hbuf
    exact hempty ⟨hb, Nat.pos_of_ne_zero hbuf⟩
  cases bytes with
  | cons b bytes => simp [read, h, hread]
  | nil =>
    obtain rfl : buf = 0 := by simpa using hempty
    rw [Nat.min_zero] at hread
    simp [read, h, hread]

theorem reads_length (sizes : List Nat) :
    (x.reads r sizes).1.length + (x.reads r sizes).2.left = x.left := by
  induction sizes generalizing x with
  | nil => simp [reads]
  | cons buf sizes ih =>
    by_cases h : x.left = 0
    · simp only [reads, read_done h, List.nil_append, ih]
    rcases read_cases (r := r) buf h with ⟨e, s, -, hx⟩ | ⟨bytes, s, -, hfits, hx⟩
    · simp only [reads, hx, ih]
    · have hrest := ih (x := ⟨s, x.left - bytes.length⟩)
      simp only [reads, hx, List.length_append] at hrest ⊢
      omega

theorem read_nil_iff (hbuf : 0 < buf) : (x.read r buf).1 = .ok [] ↔ x.left = 0 := by
  refine ⟨fun hread => ?_, fun h => by rw [read_done h]⟩
  by_contra h
  rcases read_cases (r := r) buf h with ⟨e, s, -, hx⟩ | ⟨bytes, s, hbytes, -, hx⟩
  · simp [hx] at hread
  obtain rfl : bytes = [] := by simpa [hx] using hread
  rcases hbytes with ⟨-, hne⟩ | ⟨-, -, hzeros⟩
  · exact Nat.ne_of_gt hbuf (hne rfl)
  · have hlen := congrArg List.length hzeros
    rw [List.length_nil, List.length_replicate] at hlen
    omega

theorem reads_zeros {ended : σ → Prop} (hstays : ∀ s n, ended s → ended (r.read s n).2 ∧
    ∀ bytes, (r.read s n).1 = .ok bytes → bytes = []) (hx : ended x.inner) (sizes : List Nat) :
    ∀ b ∈ (x.reads r sizes).1, b = 0 := by
  induction sizes generalizing x with
  | nil => simp [reads]
  | cons buf sizes ih =>
    by_cases h : x.left = 0
    · simpa only [reads, read_done h, List.nil_append] using ih hx
    obtain ⟨hnext, hnone⟩ := hstays x.inner (min x.left buf) hx
    rcases read_cases (r := r) buf h with ⟨e, s, hs, hread⟩ | ⟨bytes, s, hs, -, hread⟩
    · simp only [reads, hread]
      exact ih (by simpa [hs] using hnext)
    simp only [reads, hread, List.mem_append]
    rintro b (hb | hb)
    · rcases hs with ⟨hs, -⟩ | ⟨-, -, rfl⟩
      · simp [hnone bytes (by rw [hs])] at hb
      · exact List.eq_of_mem_replicate hb
    · refine ih (x := ⟨s, _⟩) ?_ b hb
      rcases hs with ⟨hs, -⟩ | ⟨hs, -⟩ <;> simpa [hs] using hnext

theorem reads_own (sizes : List Nat) : ∃ own padding s,
    (x.reads r sizes).1 = own ++ padding ∧ r.Gives x.inner own s ∧
      (padding = [] ∨ r.EndsAt s) ∧ (r.StaysEnded → ∀ b ∈ padding, b = 0) := by
  induction sizes generalizing x with
  | nil => exact ⟨[], [], x.inner, rfl, .none, .inl rfl, by simp⟩
  | cons buf sizes ih =>
    by_cases h : x.left = 0
    · simpa only [reads, read_done h, List.nil_append] using ih
    rcases read_cases (r := r) buf h with ⟨e, s, hs, hx⟩ | ⟨bytes, s, hs, -, hx⟩
    · obtain ⟨own, padding, s', hreads, hgives, hpadding⟩ := ih (x := ⟨s, x.left⟩)
      refine ⟨own, padding, s', by simp only [reads, hx, hreads], .failed hs hgives, hpadding⟩
    rcases hs with ⟨hs, hne⟩ | ⟨hs, hbuf, rfl⟩
    · obtain ⟨own, padding, s', hreads, hgives, hpadding⟩ := ih (x := ⟨s, x.left - bytes.length⟩)
      refine ⟨bytes ++ own, padding, s', ?_, .read hs (fun hb => ?_) hgives, hpadding⟩
      · simp only [reads, hx, hreads, List.append_assoc]
      · rw [hne hb, Nat.min_zero]
    have hroom : 0 < min x.left buf := by omega
    refine ⟨[], _, x.inner, rfl, .none, .inr ⟨_, hroom, by rw [hs]⟩, ?_⟩
    rintro ⟨ended, hends, hstays⟩ b hb
    have hended : ended s := by simpa [hs] using hends x.inner _ hroom (by rw [hs])
    simp only [reads, hx, List.mem_append] at hb
    rcases hb with hb | hb
    · exact List.eq_of_mem_replicate hb
    · exact reads_zeros hstays (x := ⟨s, _⟩) hended sizes b hb

end Exactly

/-- What comes out of any reads: as many bytes as were promised by the time that nothing more
comes, first those of the reader, then zeros. -/
structure AsPromised (x : Exactly σ) (sizes : List Nat) : Prop where
  counted : (x.reads r sizes).1.length + (x.reads r sizes).2.left = x.left
  complete : ∀ buf, 0 < buf → (((x.reads r sizes).2.read r buf).1 = .ok [] ↔
    (x.reads r sizes).1.length = x.left)
  own : ∃ own padding s, (x.reads r sizes).1 = own ++ padding ∧ r.Gives x.inner own s ∧
    (padding = [] ∨ r.EndsAt s) ∧ (r.StaysEnded → ∀ b ∈ padding, b = 0)

theorem exactly_as_promised (x : Exactly σ) (sizes : List Nat) : AsPromised r x sizes where
  counted := Exactly.reads_length sizes
  complete := by
    intro buf hbuf
    have hcounted := Exactly.reads_length (r := r) (x := x) sizes
    rw [Exactly.read_nil_iff hbuf]
    omega
  own := Exactly.reads_own sizes

end CraftPanel.Backups.Packing
