import CraftPanel.Drive.Upload

/-!
# What `upload` returns is the archive

The digests of an upload are carried from chunk to chunk, whether Google takes a chunk whole, in
part or not at all, and from what was read back of an earlier run. At every end of the loop they
are those of one sequence of bytes, as long as what is called covered, that was read at its places.
-/

namespace CraftPanel.Drive.Upload

open Framework Framework.Pieces

/-- The checksum that Google names, in a second answer where the first has none. -/
def named (file : Uploaded) (seen : Option Uploaded) : Option (Algorithm × String) :=
  strongest file.sha256Checksum file.md5Checksum <|>
    seen.bind fun seen => strongest seen.sha256Checksum seen.md5Checksum

/-- The size that Google names, in a second answer where it is asked and the first has none. -/
def namedBytes (file : Uploaded) (seen : Option Uploaded) : Option Nat :=
  if (strongest file.sha256Checksum file.md5Checksum).isSome then file.bytes
  else file.bytes <|> seen.bind Uploaded.bytes

def digest (crates : Crates) : Algorithm → Bytes → String
  | .sha256 => crates.sha256
  | .md5 => crates.md5

/-- The loop carries the digests of what was read up to its offset. -/
def Sending.Carries (loop : Sending) (reads : Pieces UInt8) : Prop :=
  loop.ours.taken.length = loop.offset ∧ Covers reads loop.ours.taken

/-- The digests that were sent along are those of as many bytes, read at their places. -/
def Complete (crates : Crates) (reads : Pieces UInt8) (sent : Sent) : Prop :=
  ∃ bytes, bytes.length = sent.covered ∧ Covers reads bytes ∧
    sent.md5 = crates.md5 bytes ∧ sent.sha256 = crates.sha256 bytes

def Run.Carries (crates : Crates) (run : Run) : Prop := match run.phase with
  | .sending loop => loop.Carries run.reads
  | .offering loop chunk | .putting loop chunk | .waiting loop chunk =>
    loop.Carries run.reads ∧ (loop.offset, chunk) ∈ run.reads
  | .looking sent | .checking sent => Complete crates run.reads sent
  | .stored sent seen stored =>
    Complete crates run.reads sent ∧ confirm sent run.size seen = .ok stored
  | _ => True

def System.Carries (crates : Crates) (s : System) : Prop :=
  ∀ run, s.run = some run → run.Carries crates

def Event.isInward : Event → Bool
  | .reads _ | .hears _ | .asks _ | .fails _ | .looks | .confirms _ => true
  | _ => false

/-- What was stored is a whole archive of `size` bytes, and all that Google named agrees. -/
structure Confirmed (crates : Crates) (reads : Pieces UInt8) (size : Nat) (file : Uploaded)
    (seen : Option Uploaded) (md5 : Option String) (bytes : Bytes) : Prop where
  length : bytes.length = size
  wasRead : Covers reads bytes
  md5 : ∀ ours, md5 = some ours → ours = crates.md5 bytes
  size : ∀ held, namedBytes file seen = some held → held = bytes.length
  checksum : ∀ algorithm theirs, named file seen = some (algorithm, theirs) →
    agrees theirs (digest crates algorithm bytes)

section Loop

variable {crates : Crates} {reads : Pieces UInt8} {loop : Sending} {chunk : Bytes}

theorem Sending.Carries.take (h : loop.Carries reads) (hread : (loop.offset, chunk) ∈ reads)
    (n : Nat) : Covers reads (loop.ours.take (chunk.take n)).taken := by
  obtain ⟨hlength, hcovers⟩ := h
  rw [← hlength] at hread
  exact hcovers.append hread n

theorem complete_sentOf {file : Uploaded} {ours : Digests} {covered : Nat}
    (hlength : ours.taken.length = covered) (hcovers : Covers reads ours.taken) :
    Complete crates reads (sentOf crates file ours covered) :=
  ⟨ours.taken, hlength, hcovers, rfl, rfl⟩

variable (crates) in
theorem hears_carries (h : loop.Carries reads) (hread : (loop.offset, chunk) ∈ reads)
    (answer : Except DriveError Chunk) :
    (loop.hears crates chunk answer).1.Carries reads ∧
      ∀ sent, (loop.hears crates chunk answer).2 = .ends sent → Complete crates reads sent := by
  unfold Sending.hears
  split
  · split <;> exact ⟨h, by simp⟩
  · exact ⟨h, by simp⟩
  · next file =>
    refine ⟨h, ?_⟩
    rintro sent ⟨⟩
    apply complete_sentOf
    · simp [Digests.take, h.1]
    · simpa using h.take hread chunk.length
  next received moved =>
  dsimp only
  split
  · exact ⟨h, by simp⟩
  next hsent =>
  split
  · split <;> exact ⟨h, by simp⟩
  next hfresh =>
  refine ⟨⟨?_, h.take hread _⟩, by simp⟩
  have hlength := h.1
  simp only [Digests.take, List.length_append, List.length_take]
  omega

end Loop

section Steps

variable {crates : Crates} {s t : System}

@[simp] theorem breaks_session (run : Run) (moved : Bool) (err : DriveError) :
    (run.breaks moved err).session = run.session := by
  unfold Run.breaks
  split
  · rfl
  split
  · rfl
  split <;> rfl

@[simp] theorem turns_session (run : Run) (loop : Sending) (turn : Turn) :
    (run.turns loop turn).session = run.session := by
  cases turn <;> simp [Run.turns]

theorem breaks_carries (run : Run) (moved : Bool) (err : DriveError) :
    (run.breaks moved err).Carries crates := by
  unfold Run.breaks
  split
  · trivial
  split
  · trivial
  split <;> trivial

theorem turns_carries {run : Run} {loop : Sending} {turn : Turn} (hloop : loop.Carries run.reads)
    (hends : ∀ sent, turn = .ends sent → Complete crates run.reads sent) :
    (run.turns loop turn).Carries crates := by
  cases turn with
  | goesOn => exact hloop
  | ends sent => exact hends sent rfl
  | fails err => exact breaks_carries run _ err

theorem proven_covers {row : UploadRow} {keep : Nat} {carried : Digests}
    (hrow : s.row = some row) (h : s.proven crates row keep = some carried) :
    carried.taken.length = keep ∧ Covers s.readBack carried.taken := by
  obtain ⟨archive, proof, hdisk, -, hkeep, hlong, hcarried, -⟩ := System.proven_some h
  constructor
  · rw [hcarried, List.length_take]
    omega
  · have hread : s.readBack = [(0, archive.bytes.take row.offeredBytes)] := by
      simp [System.readBack, hrow, hdisk]
    have htake : carried.taken = (archive.bytes.take row.offeredBytes).take keep := by
      rw [hcarried, List.take_take, Nat.min_eq_left hkeep]
    rw [hread, htake]
    exact covers_of_mem (List.mem_singleton.mpr rfl)

theorem carriesOn_carries {found : Bool} {now : Timestamp} {answer : Except DriveError Chunk}
    (h : s.carriesOn crates found now answer = some t) :
    t.Carries crates := by
  unfold System.carriesOn at h
  split at h
  · next before hrun =>
    split at h
    · split at h
      · cases h
        rintro run ⟨⟩
        trivial
      · cases h
        rintro run ⟨⟩
        trivial
      · next session start carried todo hcarry =>
        cases h
        rintro run ⟨⟩
        obtain hfresh | ⟨row, address, hrow, -, -, htakes⟩ := System.carryOn_cases hcarry
        · cases hfresh
        obtain ⟨-, ⟨rfl, rfl⟩ | ⟨hpos, hproven⟩⟩ := System.takesUp_stands htakes
        · exact ⟨rfl, covers_nil _⟩
        · show Sending.Carries _ (if start = 0 then [] else s.readBack)
          rw [if_neg (Nat.pos_iff_ne_zero.mp hpos)]
          exact proven_covers hrow hproven
      · next session file whole todo hcarry =>
        cases h
        rintro run ⟨⟩
        obtain hfresh | ⟨row, address, hrow, -, -, htakes⟩ := System.carryOn_cases hcarry
        · cases hfresh
        obtain ⟨-, -, hproven⟩ := System.takesUp_finished htakes
        obtain ⟨hlength, hcovers⟩ := proven_covers hrow hproven
        exact complete_sentOf hlength hcovers
    · cases h
  · cases h

theorem execute_carries {run : Run} (hrun : run.Carries crates) (statement : Statement) :
    ((s.setRun run).execute run statement).Carries crates := by
  cases statement with
  | remembers row =>
    rintro run' ⟨⟩
    exact hrun
  | forgetSession | forgetUpload | opensUpload row | movesTo =>
    rintro run' ⟨⟩
    exact hrun

theorem writes_carries (hs : s.Carries crates) {ok : Bool}
    (h : s.writes ok = some t) : t.Carries crates := by
  unfold System.writes at h
  split at h
  · next before hbefore =>
    have hcarries := hs before hbefore
    split at h
    · cases h
    next statement todo htodo =>
    cases h
    have hrest : Run.Carries crates { before with todo } := hcarries
    cases ok with
    | true => exact execute_carries hrest statement
    | false =>
      rintro run ⟨⟩
      exact hrest
  · cases h

theorem offers_carry (hs : s.Carries crates) {event : Event}
    (hevent : event = .puts ∨ ∃ ok, event = .notes ok) (h : s.act crates event = some t) :
    t.Carries crates := by
  obtain rfl | ⟨ok, rfl⟩ := hevent
  · simp only [System.act, System.puts] at h
    split at h
    · next before hbefore =>
      have hcarries := hs before hbefore
      split at h
      · next loop chunk session hphase _ =>
        simp only [Run.Carries, hphase] at hcarries
        cases h
        rintro run ⟨⟩
        exact hcarries
      · cases h
    · cases h
  · simp only [System.act, System.notes] at h
    split at h
    · next before hbefore =>
      have hcarries := hs before hbefore
      split at h
      · next loop chunk hphase =>
        simp only [Run.Carries, hphase] at hcarries
        split at h
        all_goals
          cases h
          rintro run ⟨⟩
          exact hcarries
      · cases h
    · cases h

/-- What a run reads, hears, asks and looks at changes the run alone, and not its session. -/
theorem inward_cases {event : Event} (hevent : event.isInward)
    (hstep : s.act crates event = some t) :
    ∃ run after, s.run = some run ∧ t = s.setRun after ∧ after.session = run.session ∧
      (run.Carries crates → after.Carries crates) := by
  cases event with
  | reads chunk =>
    simp only [System.act, System.reads] at hstep
    split at hstep
    · next run hrest =>
      have hrun := (System.atRest_run hrest).1
      split at hstep
      · next loop hphase =>
        split at hstep
        · cases hstep
          exact ⟨run, _, hrun, rfl, breaks_session run _ _, fun _ => breaks_carries run _ _⟩
        split at hstep
        · cases hstep
          refine ⟨run, _, hrun, rfl, rfl, fun hcarries => ?_⟩
          simp only [Run.Carries, hphase] at hcarries
          refine ⟨⟨hcarries.1, ?_⟩, List.mem_cons_self⟩
          exact hcarries.2.mono (List.subset_cons_self _ _)
        · cases hstep
      · cases hstep
    · cases hstep
  | hears answer =>
    simp only [System.act, System.hears] at hstep
    split at hstep
    · next run hrun =>
      split at hstep
      · next loop chunk hphase =>
        cases hstep
        refine ⟨run, _, hrun, rfl, turns_session run _ _, fun hcarries => ?_⟩
        simp only [Run.Carries, hphase] at hcarries
        obtain ⟨hloop, hends⟩ := hears_carries crates hcarries.1 hcarries.2 answer
        exact turns_carries hloop hends
      · cases hstep
    · cases hstep
  | asks answer =>
    simp only [System.act, System.asks] at hstep
    split at hstep
    · next run hrest =>
      have hrun := (System.atRest_run hrest).1
      split at hstep
      · next loop hphase =>
        split at hstep
        · next hwhole =>
          cases hstep
          refine ⟨run, _, hrun, rfl, turns_session run _ _, fun hcarries => ?_⟩
          simp only [Run.Carries, hphase] at hcarries
          apply turns_carries hcarries
          intro sent hends
          unfold Sending.asks at hends
          split at hends
          · cases hends
          · cases hends
            exact complete_sentOf (hcarries.1.trans hwhole.2) hcarries.2
          · cases hends
        · cases hstep
      · cases hstep
    · cases hstep
  | fails err =>
    simp only [System.act, System.fails] at hstep
    split at hstep
    · next run hrest =>
      have hrun := (System.atRest_run hrest).1
      split at hstep
      · cases hstep
        exact ⟨run, _, hrun, rfl, breaks_session run _ _, fun _ => breaks_carries run _ _⟩
      all_goals
        cases hstep
      all_goals
        exact ⟨run, _, hrun, rfl, rfl, fun _ => trivial⟩
    · cases hstep
  | looks =>
    simp only [System.act, System.looks] at hstep
    split at hstep
    · next run hrest =>
      have hrun := (System.atRest_run hrest).1
      split at hstep
      · next sent hphase =>
        split at hstep
        · cases hstep
          refine ⟨run, _, hrun, rfl, rfl, fun hcarries => ?_⟩
          simpa only [Run.Carries, hphase] using hcarries
        · cases hstep
          exact ⟨run, _, hrun, rfl, rfl, fun _ => trivial⟩
      · cases hstep
    · cases hstep
  | confirms seen =>
    simp only [System.act, System.confirms] at hstep
    split at hstep
    · next run hrest =>
      have hrun := (System.atRest_run hrest).1
      split at hstep
      · next sent hphase =>
        split at hstep
        · next stored hstored =>
          cases hstep
          refine ⟨run, _, hrun, rfl, rfl, fun hcarries => ?_⟩
          simp only [Run.Carries, hphase] at hcarries
          exact ⟨hcarries, hstored⟩
        · cases hstep
          exact ⟨run, _, hrun, rfl, rfl, fun _ => trivial⟩
      · cases hstep
    · cases hstep
  | _ => cases hevent

theorem act_carries (hs : s.Carries crates) {event : Event}
    (h : s.act crates event = some t) : t.Carries crates := by
  cases event with
  | carriesOn found now answer => exact carriesOn_carries h
  | reads chunk | hears answer | asks answer | fails err | looks | confirms seen =>
    obtain ⟨before, after, hbefore, rfl, -, hcarries⟩ := inward_cases rfl h
    rintro run ⟨⟩
    exact hcarries (hs before hbefore)
  | writes ok => exact writes_carries hs h
  | notes ok => exact offers_carry hs (.inr ⟨ok, rfl⟩) h
  | puts => exact offers_carry hs (.inl rfl) h
  | rewrites archive | drops session count | forgetsUpload | forgetsSession user =>
    cases h
    exact hs
  | stops =>
    cases h
    rintro run ⟨⟩
  | takes session put count =>
    simp only [System.act, System.takes] at h
    split at h
    · split at h
      · split at h
        · cases h
          exact hs
        · cases h
      · cases h
    · cases h
  | begins user size =>
    simp only [System.act, System.begins] at h
    split at h
    · cases h
      rintro run ⟨⟩
      trivial
    · cases h
  | opens now =>
    simp only [System.act, System.opens] at h
    split at h
    · split at h
      · cases h
        rintro run ⟨⟩
        exact ⟨rfl, covers_nil _⟩
      · cases h
    · cases h

end Steps

def Sent.digest (sent : Sent) : Algorithm → String
  | .sha256 => sent.sha256
  | .md5 => sent.md5

theorem confirm_rest {sent : Sent} {size : Nat} {held : Option Nat}
    {checksum : Option (Algorithm × String)} {stored : Stored}
    (h : (if held.any (· ≠ size) || sent.covered ≠ size then .error .damaged
      else match checksum with
        | none => .ok ⟨sent.file.id, none⟩
        | some (algorithm, theirs) =>
          let ours := match algorithm with
            | .sha256 => sent.sha256
            | .md5 => sent.md5
          if eqIgnoreAsciiCase (trim theirs) ours.toList then .ok ⟨sent.file.id, some sent.md5⟩
          else .error .damaged : Except Refusal Stored) = .ok stored) :
    sent.covered = size ∧ (∀ bytes, held = some bytes → bytes = size) ∧
      (∀ md5, stored.md5 = some md5 → md5 = sent.md5) ∧
      ∀ algorithm theirs, checksum = some (algorithm, theirs) →
        agrees theirs (Sent.digest sent algorithm) := by
  split at h
  · cases h
  next hsize =>
  simp only [Bool.or_eq_true, decide_eq_true_eq, not_or, not_not] at hsize
  have hheld : ∀ bytes, held = some bytes → bytes = size := by
    rintro bytes rfl
    simpa using hsize.1
  split at h
  · next hnone =>
    cases h
    exact ⟨hsize.2, hheld, by simp, by simp⟩
  next algorithm theirs =>
  cases algorithm
  all_goals
    dsimp only at h
    split at h
    · next hagrees =>
      cases h
      refine ⟨hsize.2, hheld, by simp, ?_⟩
      rintro _ _ ⟨⟩
      exact hagrees
    · cases h

theorem confirm_ok {sent : Sent} {size : Nat} {seen : Option Uploaded} {stored : Stored}
    (h : confirm sent size seen = .ok stored) :
    sent.covered = size ∧ (∀ held, namedBytes sent.file seen = some held → held = size) ∧
      (∀ md5, stored.md5 = some md5 → md5 = sent.md5) ∧
      ∀ algorithm theirs, named sent.file seen = some (algorithm, theirs) →
        agrees theirs (Sent.digest sent algorithm) := by
  unfold confirm at h
  unfold namedBytes named
  cases hfirst : strongest sent.file.sha256Checksum sent.file.md5Checksum with
  | some checksum =>
    simp only [hfirst, Option.isSome_some, if_true] at h ⊢
    exact confirm_rest h
  | none =>
    cases seen with
    | none => simp [hfirst] at h
    | some seen =>
      simp only [hfirst, Option.isSome_none, Bool.false_eq_true, if_false, Option.map_some,
        Option.bind_some] at h ⊢
      exact confirm_rest h

/-- An upload that is returned as stored is the whole archive as it was read, and is so by all
that Google names. -/
theorem stored_uploads_are_confirmed (crates : Crates) (s t : System) (run : List Event)
    (hs : s.run = none) (hrun : (machine crates).exec s run = some t) (upload : Run)
    (sent : Sent) (seen : Option Uploaded) (stored : Stored) (hupload : t.run = some upload)
    (hstored : upload.phase = .stored sent seen stored) :
    ∃ bytes, Confirmed crates upload.reads upload.size sent.file seen stored.md5 bytes := by
  have hcarries : t.Carries crates := by
    refine (machine crates).always ?_ ?_ hrun
    · intro before event after hinv hstep
      exact act_carries (s := { before with answered := none }) hinv hstep
    · intro upload hnone
      rw [hs] at hnone
      cases hnone
  have hphase := hcarries upload hupload
  simp only [Run.Carries, hstored] at hphase
  obtain ⟨⟨bytes, hlength, hread, hmd5, hsha256⟩, hconfirm⟩ := hphase
  obtain ⟨hcovered, hheld, hours, hchecksum⟩ := confirm_ok hconfirm
  have hsize : bytes.length = upload.size := hlength.trans hcovered
  refine ⟨bytes, hsize, hread, ?_, ?_, ?_⟩
  · intro ours hstored
    rw [hours ours hstored, hmd5]
  · intro held hnamed
    rw [hheld held hnamed, hsize]
  intro algorithm theirs hnamed
  have hagrees := hchecksum algorithm theirs hnamed
  cases algorithm with
  | sha256 => rwa [Sent.digest, hsha256] at hagrees
  | md5 => rwa [Sent.digest, hmd5] at hagrees

/-- Five bytes go up in two puts, of the first of which Google takes two. -/
theorem stored_uploads_are_confirmed_in_two_puts :
    let md5 := "7cfdd07889b3295d6a550914ab35e068"
    let sha256 := "74f81fe167d99b4cb41d6d0ccda82278caee9f3e2f25d5e5a3936ff3dcec60d0"
    let crates : Crates := ⟨fun _ => md5, fun _ => sha256, List.map Char.toLower⟩
    let file : Uploaded := { id := "1a2B-_c.d", bytes := some 5, md5Checksum := some md5 }
    let run : List Event :=
      [.begins 7 5, .carriesOn true 0 (.ok (.more 0 false)), .opens 0, .writes true, .writes true,
        .reads [1, 2, 3, 4, 5], .notes true, .puts, .hears (.ok (.more 2 false)),
        .reads [3, 4, 5], .notes true, .puts, .hears (.ok (.done file)), .writes true, .writes true,
        .looks, .confirms none]
    ∃ t upload, (machine crates).exec { disk := some { bytes := [1, 2, 3, 4, 5] } } run = some t ∧
      t.run = some upload ∧
      ∃ bytes, Confirmed crates upload.reads upload.size file none (some md5) bytes := by
  intro md5 sha256 crates file run
  let sent : Sent := ⟨file, md5, sha256, 5⟩
  have hend : (machine crates).Ends { disk := some { bytes := [1, 2, 3, 4, 5] } } run fun t =>
      t.run.map Run.phase = some (.stored sent none ⟨"1a2B-_c.d", some md5⟩) := by
    decide +kernel
  obtain ⟨t, hrun, hphase⟩ := hend
  obtain ⟨upload, hupload, hstored⟩ := Option.map_eq_some_iff.mp hphase
  exact ⟨t, upload, hrun, hupload,
    stored_uploads_are_confirmed crates _ t run rfl hrun upload sent none _ hupload hstored⟩

end CraftPanel.Drive.Upload
