import CraftPanel.Servers.Power

/-!
# Boot reconciliation

`reconcile` asks for the attached, then for the rows, and clears what claims a process and is not
among the attached, all of it outside the gate. It spares the starts of its own panel exactly in
the runs in which it finds, at that moment, a server that was neither started here nor attached,
and in which nothing starts or attaches until it has cleared it.
-/

namespace CraftPanel.Servers

open Framework

/-- The next thing `reconcile` does is to clear the power state or a token. -/
def System.clearsNext (s : System) : Bool :=
  match s.recovery with
  | .clears (statement :: _) => decide (statement ∈ clearing)
  | _ => false

/-- `reconcile` clears inherited servers that are not attached, and no others. -/
def SparesFresh (s : System) : Prop :=
  s.clearsNext = true → s.startedHere = false ∧ s.hub = none

/-- Where `reconcile` reads a claim of a server it has not seen among the attached, the server is
inherited and still not attached; and until it has cleared it, no start claims the row and no
supervisor attaches. -/
def FindsInherited (s : System) : Event → Prop
  | .recovers => s.recovery = .reads false → s.row.powerState.isClaiming = true →
      s.startedHere = false ∧ s.hub = none
  | .claims _ | .attaches _ => s.clearsNext = false
  | _ => True

instance (s : System) (e : Event) : Decidable (FindsInherited s e) := by
  unfold FindsInherited
  split <;> infer_instance

/-- `reconcile` has one watcher to ask for, or it is somewhere in its clearing. -/
def Reconciles (s : System) : Prop :=
  ∀ todo, s.recovery = .clears todo →
    todo = [.watch] ∨ ∀ statement ∈ todo, statement ∈ clearing

section Steps

variable {s t : System}

theorem clearsNext_congr (h : t.recovery = s.recovery) : t.clearsNext = s.clearsNext := by
  unfold System.clearsNext
  rw [h]

theorem watch_not_clearing : Statement.watch ∉ clearing := by decide

theorem step_still {e : Event} (hrecovers : e ≠ .recovers) (hclaims : ∀ token, e ≠ .claims token)
    (hattaches : ∀ p, e ≠ .attaches p) (h : machine.step s e = some t) :
    t.recovery = s.recovery ∧ t.startedHere = s.startedHere ∧ (s.hub = none → t.hub = none) := by
  cases moved_of_step h with
  | adopts | adopted | finds | judges | clears => exact absurd rfl hrecovers
  | claims => exact absurd rfl (hclaims _)
  | attaches => exact absurd rfl (hattaches _)
  | runs _ _ hperform =>
    have hframe := System.perform_frame hperform
    exact ⟨hframe.recovery, hframe.startedHere, fun hnone => hframe.hub.trans hnone⟩
  | spawns => split <;> exact ⟨rfl, rfl, id⟩
  | hands _ hgive =>
    obtain ⟨links, rfl⟩ := System.give_eq hgive
    exact ⟨rfl, rfl, id⟩
  | @detaches k =>
    refine ⟨rfl, rfl, fun hnone => ?_⟩
    show (if s.hub = some k then none else s.hub) = none
    rw [if_neg (by simp [hnone])]
    exact hnone
  | _ => exact ⟨rfl, rfl, id⟩

theorem claims_eq {token : String} (h : machine.step s (.claims token) = some t) :
    t.recovery = s.recovery ∧ t.startedHere = true := by
  cases moved_of_step h
  exact ⟨rfl, rfl⟩

theorem attaches_eq {p : Nat} (h : machine.step s (.attaches p) = some t) :
    t.recovery = s.recovery ∧ t.hub.isSome = true := by
  cases moved_of_step h
  exact ⟨rfl, rfl⟩

theorem recovers_reconciles (hinv : Reconciles s) (h : s.recovers = some t) : Reconciles t := by
  intro todo htodo
  cases System.moved_recovers h with
  | adopts | adopted | finds => simp at htodo
  | judges =>
    simp only [Recovery.clears.injEq] at htodo
    subst htodo
    split
    · split
      · exact .inl rfl
      · exact .inr fun _ hmem => hmem
    · exact .inr (by simp)
  | @clears statement rest u todo' hrecovery hperform =>
    have hmem : statement ∈ Statement.watch :: clearing ∧ ∀ later ∈ rest, later ∈ clearing := by
      obtain hwatch | hclearing := hinv _ hrecovery
      · cases hwatch
        exact ⟨List.mem_cons_self .., by simp⟩
      · have hhead := hclearing statement (List.mem_cons_self ..)
        exact ⟨List.mem_cons_of_mem _ hhead, fun later hlater =>
          hclearing later (List.mem_cons_of_mem _ hlater)⟩
    have hnone : todo' = [] := System.perform_clearing hmem.1 hperform
    simp only [Recovery.clears.injEq, hnone, List.nil_append] at htodo
    subst htodo
    exact .inr hmem.2

theorem reconciles_step {e : Event} (hinv : Reconciles s) (h : machine.step s e = some t) :
    Reconciles t := by
  have hkept : t.recovery = s.recovery → Reconciles t := by
    intro hrecovery todo htodo
    exact hinv todo (hrecovery.symm.trans htodo)
  by_cases hrecovers : e = .recovers
  · subst hrecovers
    exact recovers_reconciles hinv h
  by_cases hclaims : ∃ token, e = .claims token
  · obtain ⟨token, rfl⟩ := hclaims
    exact hkept (claims_eq h).1
  by_cases hattaches : ∃ p, e = .attaches p
  · obtain ⟨p, rfl⟩ := hattaches
    exact hkept (attaches_eq h).1
  · exact hkept (step_still hrecovers (fun token heq => hclaims ⟨token, heq⟩)
      (fun p heq => hattaches ⟨p, heq⟩) h).1

theorem recovers_spares_iff (hinv : Reconciles s) (hspares : SparesFresh s)
    (h : s.recovers = some t) : FindsInherited s .recovers ↔ SparesFresh t := by
  have hsilent : s.recovery ≠ .reads false → t.clearsNext = false →
      (FindsInherited s .recovers ↔ SparesFresh t) := by
    intro hreads hclears
    refine iff_of_true (fun heq => absurd heq hreads) fun hnext => ?_
    rw [hclears] at hnext
    exact absurd hnext (by decide)
  cases System.moved_recovers h with
  | adopts hrecovery | adopted hrecovery | finds hrecovery =>
    exact hsilent (by simp [hrecovery]) rfl
  | @judges attached hrecovery =>
    cases attached with
    | true =>
      refine hsilent (by simp [hrecovery]) ?_
      cases hclaiming : s.row.powerState.isClaiming <;> simp [System.clearsNext, watch_not_clearing]
    | false =>
      cases hclaiming : s.row.powerState.isClaiming with
      | true => simp [FindsInherited, SparesFresh, System.clearsNext, hrecovery, hclaiming, clearing]
      | false => simp [FindsInherited, SparesFresh, System.clearsNext, hclaiming]
  | @clears statement rest u todo' hrecovery hperform =>
    have hframe := System.perform_frame hperform
    refine iff_of_true (fun heq => by simp [hrecovery] at heq) fun hnext => ?_
    obtain hwatch | hclearing := hinv _ hrecovery
    · cases hwatch
      have hnone : todo' = [] := System.perform_clearing (List.mem_cons_self ..) hperform
      simp [System.clearsNext, hnone] at hnext
    · have hhead := hclearing statement (List.mem_cons_self ..)
      have hnow := hspares (by simp [System.clearsNext, hrecovery, hhead])
      exact ⟨hframe.startedHere.trans hnow.1, hframe.hub.trans hnow.2⟩

theorem spares_step_iff {e : Event} (hinv : Reconciles s) (hspares : SparesFresh s)
    (h : machine.step s e = some t) : FindsInherited s e ↔ SparesFresh t := by
  by_cases hrecovers : e = .recovers
  · subst hrecovers
    exact recovers_spares_iff hinv hspares h
  by_cases hclaims : ∃ token, e = .claims token
  · obtain ⟨token, rfl⟩ := hclaims
    obtain ⟨hrecovery, hstarted⟩ := claims_eq h
    simp [FindsInherited, SparesFresh, clearsNext_congr hrecovery, hstarted]
  by_cases hattaches : ∃ p, e = .attaches p
  · obtain ⟨p, rfl⟩ := hattaches
    obtain ⟨hrecovery, hhub⟩ := attaches_eq h
    have hsome : t.hub ≠ none := Option.isSome_iff_ne_none.mp hhub
    simp [FindsInherited, SparesFresh, clearsNext_congr hrecovery, hsome]
  obtain ⟨hrecovery, hstarted, hhub⟩ := step_still hrecovers
    (fun token heq => hclaims ⟨token, heq⟩) (fun p heq => hattaches ⟨p, heq⟩) h
  have hok : FindsInherited s e := by
    cases e with
    | recovers => exact absurd rfl hrecovers
    | claims token => exact absurd ⟨token, rfl⟩ hclaims
    | attaches p => exact absurd ⟨p, rfl⟩ hattaches
    | _ => trivial
  refine iff_of_true hok fun hnext => ?_
  have hnow := hspares ((clearsNext_congr hrecovery).symm.trans hnext)
  exact ⟨hstarted.trans hnow.1, hhub hnow.2⟩

end Steps

/-- The runs in which `reconcile` clears no server started here and none that is attached are those
in which it finds inherited servers, and in which they stay what it found until they are cleared. -/
theorem reconcile_spares_fresh_iff {row : ServerRow} {processes : List Process} {s : System}
    {es : List Event} (hrun : machine.exec (booted row processes) es = some s) :
    machine.Meets FindsInherited (booted row processes) es ↔
      ∀ earlier u, earlier <+: es → machine.exec (booted row processes) earlier = some u →
        SparesFresh u := by
  have hinv : Reconciles (booted row processes) := by
    intro todo htodo
    simp [booted] at htodo
  have hspares : SparesFresh (booted row processes) := by
    intro hnext
    simp [booted, System.clearsNext] at hnext
  exact machine.meets_iff_always reconciles_step spares_step_iff hinv hspares hrun

/-- A server the last panel left running, whose supervisor does not come back. -/
def inherited : ServerRow :=
  { id := 1, ownerId := 2, powerState := .running, supervisorToken := some "old" }

theorem reconcile_spares_fresh_inherited :
    (∃ s, machine.exec (booted inherited []) (.replicate 8 .recovers) = some s ∧
        s.row.powerState = .stopped ∧ s.row.supervisorToken = none) ∧
      ∀ earlier u, earlier <+: List.replicate 8 Event.recovers →
        machine.exec (booted inherited []) earlier = some u → SparesFresh u := by
  have hend : machine.Ends (booted inherited []) (.replicate 8 .recovers) fun s =>
      s.row.powerState = .stopped ∧ s.row.supervisorToken = none := by decide +kernel
  have hok : machine.Meets FindsInherited (booted inherited []) (.replicate 8 .recovers) := by
    decide +kernel
  obtain ⟨s, hrun, hcleared⟩ := hend
  exact ⟨⟨s, hrun, hcleared⟩, (reconcile_spares_fresh_iff hrun).mp hok⟩

/-- A start within the grace: the process is spawned, and its supervisor not yet attached when
`reconcile` asks for the attached. -/
def startWithinGrace : List Event :=
  [Event.recovers, .recovers, .enters .start] ++ List.replicate 5 (Event.runs true) ++
    [Event.claims "fresh"] ++ List.replicate 4 (Event.runs true) ++
    [Event.spawns true true, .runs true, .recovers, .recovers]

theorem fresh_start_is_cleared :
    ¬ ∀ (row : ServerRow) (processes : List Process) (es : List Event) (s : System),
      machine.exec (booted row processes) es = some s → SparesFresh s := by
  intro hall
  have hend : machine.Ends (booted { id := 1, ownerId := 2 } []) startWithinGrace fun s =>
      s.clearsNext = true ∧ s.startedHere = true := by decide +kernel
  obtain ⟨s, hrun, hnext, hstarted⟩ := hend
  have hnow := hall _ _ _ s hrun hnext
  rw [hstarted] at hnow
  exact absurd hnow.1 (by decide)

/-- The process lives on with a token that nobody knows any more. -/
example : machine.Ends (booted { id := 1, ownerId := 2 } [])
    (startWithinGrace ++ .replicate 4 .recovers) fun s =>
      s.row.powerState = .stopped ∧ s.token = none ∧
        s.processes = [{ token := "fresh", alive := true }] := by
  decide +kernel

end CraftPanel.Servers
