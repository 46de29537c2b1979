import Mathlib.Data.List.Basic
import CraftPanel.Framework.Effects

/-!
# Handing a tree over

`chown_tree` of `craftpanel-helper/src/users.rs` with `visit` and `hand_back_file`, call by call,
while others rename, replace and link in front of every call. The stack of the walk is the
recursion here; it ends whatever the others do.
-/

namespace CraftPanel.Helper

open Framework

abbrev Ino := Nat

inductive Kind
  | regular | directory | symlink
  | special (opens : Bool)
  deriving DecidableEq

structure World where
  kind : Ino → Kind
  links : Ino → Nat
  entry : Ino → String → Option Ino
  listing : Ino → List String
  listed : ∀ dir name, name ∈ listing dir ↔ (entry dir name).isSome

inductive Errno
  | noEntry | notDirectory | loop | noDevice | other
  | secondName | nested
  deriving DecidableEq

inductive Change
  | owner (uid gid : Nat)
  | mode (mode : Nat)
  deriving DecidableEq

/-- A call that went through; a change with the kind and the names that the inode had just then. -/
inductive Call
  | opened (dir : Ino) (name : String) (ino : Ino) (kind : Kind)
  | looked (ino : Ino) (kind : Kind) (links : Nat)
  | changed (ino : Ino) (kind : Kind) (links : Nat) (change : Change)
  deriving DecidableEq

/-- What happens in front of the call of a number, and whether the call fails of itself. -/
structure Others where
  acts : Nat → World → World
  fails : Nat → Bool

/-- The calls so far, the last one first. -/
structure Run where
  world : World
  count : Nat := 0
  trace : List Call := []

section Calls

variable (others : Others) {α : Type}

def call (f : World → Except Errno α × List Call) : Effect Run Errno α := fun run =>
  let world := others.acts run.count run.world
  let done := if others.fails run.count then (.error .other, []) else f world
  (done.1, ⟨world, run.count + 1, done.2 ++ run.trace⟩)

def kindOf (dir : Ino) (name : String) : Effect Run Errno Kind :=
  call others fun world => match world.entry dir name with
    | none => (.error .noEntry, [])
    | some ino => (.ok (world.kind ino), [])

/-- With `O_DIRECTORY` and `O_NOFOLLOW`. -/
def openChild (dir : Ino) (name : String) : Effect Run Errno Ino :=
  call others fun world => match world.entry dir name with
    | none => (.error .noEntry, [])
    | some ino =>
      if world.kind ino = .directory then (.ok ino, [.opened dir name ino .directory])
      else (.error .notDirectory, [])

/-- With `O_NOFOLLOW` and `O_NONBLOCK`. -/
def openEntry (dir : Ino) (name : String) : Effect Run Errno Ino :=
  call others fun world => match world.entry dir name with
    | none => (.error .noEntry, [])
    | some ino => match world.kind ino with
      | .symlink => (.error .loop, [])
      | .special false => (.error .noDevice, [])
      | kind => (.ok ino, [.opened dir name ino kind])

def factsOf (ino : Ino) : Effect Run Errno (Kind × Nat) :=
  call others fun world =>
    (.ok (world.kind ino, world.links ino), [.looked ino (world.kind ino) (world.links ino)])

/-- `set_owner` and `set_mode`. -/
def set (ino : Ino) (change : Change) : Effect Run Errno Unit :=
  call others fun world => (.ok (), [.changed ino (world.kind ino) (world.links ino) change])

def readDir (dir : Ino) : Effect Run Errno (List String) :=
  call others fun world => (.ok (world.listing dir), [])

def dirMode : Nat := 0o2770

def fileMode : Nat := 0o660

def maxDepth : Nat := 256

inductive Step
  | skipped
  | touched
  | shared (names : Nat)
  | down (child : Ino)

variable (uid gid : Nat)

def handBackFile (dir : Ino) (name : String) : Effect Run Errno Step := do
  match ← (openEntry others dir name).attempt with
  | .error .noEntry | .error .loop | .error .noDevice => pure .skipped
  | .error errno => Effect.fail errno
  | .ok ino =>
    let facts ← factsOf others ino
    if facts.1 ≠ .regular then pure .skipped
    else if facts.2 > 1 then pure (.shared facts.2)
    else
      set others ino (.owner uid gid)
      set others ino (.mode fileMode)
      pure .touched

def visit (dir : Ino) (name : String) : Effect Run Errno Step := do
  match ← (kindOf others dir name).attempt with
  | .error .noEntry | .error .notDirectory => pure .skipped
  | .error errno => Effect.fail errno
  | .ok .symlink => pure .skipped
  | .ok .directory =>
    match ← (openChild others dir name).attempt with
    | .error .noEntry | .error .notDirectory => pure .skipped
    | .error errno => Effect.fail errno
    | .ok child =>
      set others child (.owner uid gid)
      set others child (.mode dirMode)
      pure (.down child)
  | .ok _ => handBackFile others uid gid dir name

/-- What a step adds to `touched`; `down` is the level below. -/
def enter (down : Ino → Effect Run Errno Nat) : Step → Effect Run Errno Nat
  | .skipped | .shared _ => pure 0
  | .touched => pure 1
  | .down child => down child

def level (down : Ino → Effect Run Errno Nat) (dir : Ino) : List String → Effect Run Errno Nat
  | [] => pure 0
  | name :: names => do
    let step ← visit others uid gid dir name
    let here ← enter down step
    let rest ← level down dir names
    pure (here + rest)

/-- A directory that has been changed, with as many levels below it as there is room for. -/
def descend : Nat → Ino → Effect Run Errno Nat
  | 0, _ => Effect.fail .nested
  | room + 1, dir => do
    let names ← readDir others dir
    let below ← level others uid gid (descend room) dir names
    pure (below + 1)

def chownTree (target : Ino) : Effect Run Errno Nat := do
  let facts ← factsOf others target
  if facts.1 ≠ .directory then
    let facts ← factsOf others target
    if facts.2 > 1 then Effect.fail .secondName
    else
      set others target (.owner uid gid)
      set others target (.mode fileMode)
      pure 1
  else
    set others target (.owner uid gid)
    set others target (.mode dirMode)
    descend others uid gid maxDepth target

end Calls

/-- Held open by a chain of openings that begins at the target. -/
inductive Holds (target : Ino) (trace : List Call) : Ino → Prop
  | target : Holds target trace target
  | opened {dir ino : Ino} {name : String} {kind : Kind} : Holds target trace dir →
    .opened dir name ino kind ∈ trace → Holds target trace ino

/-- What the descriptor has shown right before its inode is changed: that it is a directory, or
that the inode has no second name. -/
def Fit (ino : Ino) : List Call → Prop
  | [] => False
  | .opened _ _ ino' kind :: _ => ino' = ino ∧ kind = .directory
  | .looked ino' kind links :: _ => ino' = ino ∧ (kind = .directory ∨ links ≤ 1)
  | .changed ino' _ _ _ :: trace => ino' = ino ∧ Fit ino trace

/-- No link is opened, and nothing is opened from or changed but what is held. -/
def Sound (target : Ino) : List Call → Prop
  | [] => True
  | .looked .. :: trace => Sound target trace
  | .opened dir _ _ kind :: trace => Sound target trace ∧ Holds target trace dir ∧ kind ≠ .symlink
  | .changed ino _ _ _ :: trace => Sound target trace ∧ Holds target trace ino ∧ Fit ino trace

/-- What lies in the tree of an inode. -/
inductive InTree (world : World) : Ino → Ino → Prop
  | here {ino : Ino} : InTree world ino ino
  | down {dir ino last : Ino} {name : String} : world.kind dir = .directory →
    world.entry dir name = some ino → InTree world ino last → InTree world dir last

def HandedOver (uid gid : Nat) (trace : List Call) (ino : Ino) : Prop :=
  (∃ kind links, .changed ino kind links (.owner uid gid) ∈ trace) ∧
    ∃ kind links mode, .changed ino kind links (.mode mode) ∈ trace

/-- All directories of a tree are handed over, and all files with one name. -/
def Covered (world : World) (uid gid : Nat) (trace : List Call) (ino : Ino) : Prop :=
  ∀ last, InTree world ino last →
    world.kind last = .directory ∨ world.kind last = .regular ∧ world.links last ≤ 1 →
      HandedOver uid gid trace last

def Others.Still (others : Others) : Prop := ∀ number world, others.acts number world = world

variable {others : Others} {target dir ino : Ino} {uid gid : Nat} {name : String} {r s t : Run}
  {trace trace' : List Call}

theorem Holds.mono (h : Holds target trace ino) (hsuffix : trace <:+ trace') :
    Holds target trace' ino := by
  induction h with
  | target => exact .target
  | opened _ hmem ih => exact ih.opened (hsuffix.subset hmem)

theorem HandedOver.mono (h : HandedOver uid gid trace ino) (hsuffix : trace <:+ trace') :
    HandedOver uid gid trace' ino := by
  obtain ⟨⟨kind, links, howner⟩, kind', links', mode, hmode⟩ := h
  exact ⟨⟨kind, links, hsuffix.subset howner⟩, kind', links', mode, hsuffix.subset hmode⟩

/-- What every part of the walk leaves as it was, or has added. -/
structure Grown (target : Ino) (others : Others) (r t : Run) : Prop where
  trace : r.trace <:+ t.trace
  sound : Sound target r.trace → Sound target t.trace
  still : others.Still → t.world = r.world

instance : IsPreorder Run (Grown target others) where
  refl _ := ⟨List.suffix_rfl, id, fun _ => rfl⟩
  trans _ _ _ h h' := ⟨h.trace.trans h'.trace, h'.sound ∘ h.sound,
    fun hstill => (h'.still hstill).trans (h.still hstill)⟩

theorem call_ends {α : Type} {f : World → Except Errno α × List Call}
    (hsound : ∀ world, Sound target r.trace → Sound target ((f world).2 ++ r.trace)) :
    (call others f).Ends r fun result t => Grown target others r t ∧
      (result = .error .other ∨ ∃ world, (others.Still → world = r.world) ∧
        result = (f world).1 ∧ t.trace = (f world).2 ++ r.trace) := by
  simp only [Effect.Ends, call]
  split
  · exact ⟨⟨List.suffix_rfl, id, fun h => h _ _⟩, .inl rfl⟩
  · exact ⟨⟨List.suffix_append _ _, hsound _, fun h => h _ _⟩, .inr ⟨_, fun h => h _ _, rfl, rfl⟩⟩

/-- A call that cannot but go through, and is noted. -/
theorem noted_leads {α : Type} {a : World → α} {note : World → List Call}
    (hsound : ∀ world, Sound target r.trace → Sound target (note world ++ r.trace)) :
    (call others fun world => (.ok (a world), note world)).Leads (Grown target others) r fun b t =>
      ∃ world, (others.Still → world = r.world) ∧ b = a world ∧
        t.trace = note world ++ r.trace := by
  refine Effect.Ends.mono (call_ends hsound) fun result t h => ⟨h.1, fun b hb => ?_⟩
  subst hb
  obtain ⟨world, hworld, hresult, htrace⟩ := h.2.resolve_left nofun
  exact ⟨world, hworld, Except.ok.inj hresult, htrace⟩

theorem set_leads {change : Change} (hheld : Holds target r.trace ino) (hfit : Fit ino r.trace) :
    (set others ino change).Leads (Grown target others) r fun _ t =>
      Fit ino t.trace ∧ ∃ kind links, .changed ino kind links change ∈ t.trace := by
  unfold set
  refine Effect.Leads.mono (noted_leads fun _ h => ⟨h, hheld, hfit⟩) fun _ t _ h => ?_
  obtain ⟨world, -, -, htrace⟩ := h
  rw [htrace]
  exact ⟨⟨rfl, hfit⟩, _, _, List.mem_cons_self⟩

theorem factsOf_leads (target : Ino) :
    (factsOf others ino).Leads (Grown target others) r fun facts t =>
      t.trace = .looked ino facts.1 facts.2 :: r.trace ∧
        (others.Still → facts = (r.world.kind ino, r.world.links ino)) := by
  refine (noted_leads fun _ h => h).mono fun facts t _ h => ?_
  obtain ⟨world, hworld, rfl, htrace⟩ := h
  exact ⟨htrace, fun hstill => by rw [hworld hstill]⟩

/-- Both changes, whatever comes after them. -/
theorem handOver_leads {α : Type} {mode : Nat} {next : Effect Run Errno α} {post : α → Run → Prop}
    (hheld : Holds target r.trace ino) (hfit : Fit ino r.trace)
    (hnext : ∀ t, Grown target others r t → HandedOver uid gid t.trace ino →
      next.Leads (Grown target others) t post) :
    Effect.Leads (Grown target others)
      (do set others ino (.owner uid gid); set others ino (.mode mode); next) r post := by
  refine (set_leads hheld hfit).bind fun _ s hs hfit' => ?_
  obtain ⟨hfit', kind, links, howner⟩ := hfit'
  refine (set_leads (hheld.mono hs.trace) hfit').bind fun _ t ht hset => ?_
  obtain ⟨-, kind', links', hmode⟩ := hset
  exact hnext t (trans_of _ hs ht)
    ⟨⟨kind, links, ht.trace.subset howner⟩, kind', links', mode, hmode⟩

/-- What an entry leads to, where nobody else is at work. -/
def Stands (others : Others) (r : Run) (dir : Ino) (name : String) (ino : Ino) : Prop :=
  others.Still ∧ r.world.entry dir name = some ino

theorem Grown.stands (h : Grown target others r s) :
    Stands others s dir name ino ↔ Stands others r dir name ino :=
  and_congr_right fun hstill => by rw [h.still hstill]

theorem covered_of_leaf {world : World} (hkind : world.kind ino ≠ .directory)
    (h : world.kind ino = .regular → world.links ino ≤ 1 → HandedOver uid gid trace ino) :
    Covered world uid gid trace ino := by
  intro last hin hlast
  cases hin with
  | here => exact hlast.elim (absurd · hkind) fun hfile => h hfile.1 hfile.2
  | down hdir => exact absurd hdir hkind

theorem Covered.mono {world : World} (h : Covered world uid gid trace ino)
    (hsuffix : trace <:+ trace') : Covered world uid gid trace' ino :=
  fun last hin hlast => (h last hin hlast).mono hsuffix

/-- What a step leaves to do: a directory to go down into, or nothing. -/
def Settled (others : Others) (target dir : Ino) (name : String) (uid gid : Nat) (r : Run) :
    Step → Run → Prop
  | .down child, t => Holds target t.trace child ∧ HandedOver uid gid t.trace child ∧
      ∀ ino, Stands others r dir name ino → ino = child
  | _, t => ∀ ino, Stands others r dir name ino → Covered r.world uid gid t.trace ino

theorem Settled.of_grown {step : Step} (h : Settled others target dir name uid gid s step t)
    (hgrown : Grown target others r s) : Settled others target dir name uid gid r step t := by
  cases step with
  | down child => exact ⟨h.1, h.2.1, fun ino hino => h.2.2 ino (hgrown.stands.2 hino)⟩
  | skipped | touched | shared names =>
    exact fun ino hino => hgrown.still hino.1 ▸ h ino (hgrown.stands.2 hino)

theorem kindOf_ends (target : Ino) :
    (kindOf others dir name).Ends r fun result t => Grown target others r t ∧
      ∀ ino, Stands others r dir name ino →
        result = .ok (r.world.kind ino) ∨ result = .error .other := by
  unfold kindOf
  refine Effect.Ends.mono (call_ends fun world h => ?_) fun result t h => ⟨h.1, fun ino hino => ?_⟩
  · split <;> exact h
  obtain hfail | ⟨world, hworld, hresult, -⟩ := h.2
  · exact .inr hfail
  · rw [hworld hino.1, hino.2] at hresult
    exact .inl hresult

/-- What the two openings have in common: `taken` are the kinds that are opened. -/
structure Opened (others : Others) (target dir : Ino) (name : String) (taken : Kind → Prop)
    (r : Run) (result : Except Errno Ino) (t : Run) : Prop where
  held : ∀ ino, result = .ok ino →
    ∃ kind, t.trace = .opened dir name ino kind :: r.trace ∧ taken kind ∧ Holds target t.trace ino
  same : ∀ ino ino', Stands others r dir name ino → result = .ok ino' → ino = ino'
  left : ∀ ino errno, Stands others r dir name ino → result = .error errno → errno ≠ .other →
    ¬ taken (r.world.kind ino)

/-- A call that opens an entry of the kinds that are taken and answers an error of its own for the
others. -/
theorem opened_ends {taken : Kind → Prop} {f : World → Except Errno Ino × List Call}
    (hheld : Holds target r.trace dir) (hlink : ¬ taken .symlink)
    (hf : ∀ world,
      (∃ ino, world.entry dir name = some ino ∧ taken (world.kind ino) ∧
        f world = (.ok ino, [.opened dir name ino (world.kind ino)])) ∨
      ∃ errno, f world = (.error errno, []) ∧
        ∀ ino, world.entry dir name = some ino → ¬ taken (world.kind ino)) :
    (call others f).Ends r fun result t => Grown target others r t ∧
      Opened others target dir name taken r result t := by
  have hsound : ∀ world, Sound target r.trace → Sound target ((f world).2 ++ r.trace) := by
    intro world h
    obtain ⟨ino, -, hkind, heq⟩ | ⟨errno, heq, -⟩ := hf world
    · rw [heq]
      exact ⟨h, hheld, fun hsym => hlink (hsym ▸ hkind)⟩
    · rw [heq]
      exact h
  refine (call_ends hsound).mono fun result t h => ⟨h.1, ?_⟩
  obtain ⟨hgrown, rfl | ⟨world, hworld, hresult, htrace⟩⟩ := h
  · exact ⟨nofun, fun _ _ _ => nofun, fun _ _ _ herr hne => absurd (Except.error.inj herr).symm hne⟩
  obtain ⟨ino, hentry, hkind, heq⟩ | ⟨errno, heq, hnot⟩ := hf world
  · rw [heq] at hresult htrace
    subst hresult
    refine ⟨fun ino' hino => ?_, fun ino' _ hino' hino => ?_, fun _ _ _ => nofun⟩
    · cases hino
      have hmem : Call.opened dir name ino (world.kind ino) ∈ t.trace := by
        rw [htrace]
        exact List.mem_cons_self
      exact ⟨_, htrace, hkind, (hheld.mono hgrown.trace).opened hmem⟩
    · rw [hworld hino'.1, hino'.2] at hentry
      exact Option.some.inj (hentry.trans (congrArg some (Except.ok.inj hino)))
  · rw [heq] at hresult
    subst hresult
    refine ⟨nofun, fun _ _ _ => nofun, fun ino _ hino _ _ => ?_⟩
    rw [hworld hino.1] at hnot
    exact hnot ino hino.2

theorem openChild_ends (hheld : Holds target r.trace dir) :
    (openChild others dir name).Ends r fun result t => Grown target others r t ∧
      Opened others target dir name (· = .directory) r result t := by
  refine opened_ends hheld nofun fun world => ?_
  cases hentry : world.entry dir name with
  | none => exact .inr ⟨.noEntry, rfl, nofun⟩
  | some ino =>
    by_cases hkind : world.kind ino = .directory
    · exact .inl ⟨ino, rfl, hkind, by simp only [hkind, if_true]⟩
    · refine .inr ⟨.notDirectory, by simp only [if_neg hkind], fun ino' hino => ?_⟩
      cases hino
      exact hkind

theorem openEntry_ends (hheld : Holds target r.trace dir) :
    (openEntry others dir name).Ends r fun result t => Grown target others r t ∧
      Opened others target dir name (fun kind => kind ≠ .symlink ∧ kind ≠ .special false) r
        result t := by
  refine opened_ends hheld (fun h => h.1 rfl) fun world => ?_
  cases hentry : world.entry dir name with
  | none => exact .inr ⟨.noEntry, rfl, nofun⟩
  | some ino =>
    cases hkind : world.kind ino with
    | regular | directory => exact .inl ⟨ino, rfl, by simp [hkind], by simp only [hkind]⟩
    | symlink =>
      refine .inr ⟨.loop, by simp only [hkind], fun ino' hino h => ?_⟩
      cases hino
      exact h.1 hkind
    | special opens =>
      cases opens with
      | true => exact .inl ⟨ino, rfl, by simp [hkind], by simp only [hkind]⟩
      | false =>
        refine .inr ⟨.noDevice, by simp only [hkind], fun ino' hino h => ?_⟩
        cases hino
        exact h.2 hkind

theorem handBackFile_leads (hheld : Holds target r.trace dir)
    (hkind : ∀ ino, Stands others r dir name ino → r.world.kind ino ≠ .directory) :
    (handBackFile others uid gid dir name).Leads (Grown target others) r
      (Settled others target dir name uid gid r) := by
  refine Effect.Leads.attempt (openEntry_ends hheld) fun result s hs hopened => ?_
  cases result with
  | error errno =>
    have hskip : errno ≠ .other → Settled others target dir name uid gid r .skipped s := by
      refine fun hne ino hino => covered_of_leaf (hkind ino hino) fun hregular => ?_
      refine absurd ?_ (hopened.left ino errno hino rfl hne)
      rw [hregular]
      exact ⟨nofun, nofun⟩
    cases errno with
    | noEntry | loop | noDevice => exact Effect.leads_pure (hskip nofun)
    | notDirectory | other | secondName | nested => exact Effect.leads_fail
  | ok ino =>
    obtain ⟨kind, -, -, hino⟩ := hopened.held ino rfl
    refine (factsOf_leads target).bind fun facts t ht hlooked => ?_
    have hsame : ∀ ino', Stands others r dir name ino' → ino' = ino ∧
        facts = (r.world.kind ino', r.world.links ino') := by
      intro ino' hino'
      obtain rfl := hopened.same ino' ino hino' rfl
      exact ⟨rfl, by rw [hlooked.2 hino'.1, hs.still hino'.1]⟩
    by_cases hregular : facts.1 ≠ .regular
    · rw [if_pos hregular]
      refine Effect.leads_pure fun ino' hino' => covered_of_leaf (hkind ino' hino') fun h => ?_
      rw [(hsame ino' hino').2] at hregular
      exact absurd h hregular
    rw [if_neg hregular]
    by_cases hlinks : facts.2 > 1
    · rw [if_pos hlinks]
      refine Effect.leads_pure fun ino' hino' => covered_of_leaf (hkind ino' hino') fun _ h => ?_
      rw [(hsame ino' hino').2] at hlinks
      exact absurd h (Nat.not_le.2 hlinks)
    rw [if_neg hlinks]
    refine handOver_leads (hino.mono ht.trace) (hlooked.1 ▸ ⟨rfl, .inr (Nat.not_lt.1 hlinks)⟩)
      fun u _ hover => Effect.leads_pure fun ino' hino' => ?_
    exact covered_of_leaf (hkind ino' hino') fun _ _ => (hsame ino' hino').1 ▸ hover

theorem visit_leads (hheld : Holds target r.trace dir) :
    (visit others uid gid dir name).Leads (Grown target others) r
      (Settled others target dir name uid gid r) := by
  refine Effect.Leads.attempt (kindOf_ends target) fun result s hs hfound => ?_
  have hheld' := hheld.mono hs.trace
  cases result with
  | error errno =>
    have hskip : errno ≠ .other → Settled others target dir name uid gid r .skipped s := by
      rintro hne ino hino
      obtain hok | herr := hfound ino hino
      · cases hok
      · exact absurd (Except.error.inj herr) hne
    cases errno with
    | noEntry | notDirectory => exact Effect.leads_pure (hskip nofun)
    | loop | noDevice | other | secondName | nested => exact Effect.leads_fail
  | ok kind =>
    have hkind : ∀ ino, Stands others r dir name ino → r.world.kind ino = kind :=
      fun ino hino => (Except.ok.inj ((hfound ino hino).resolve_right nofun)).symm
    have hfile (hne : kind ≠ .directory) : (handBackFile others uid gid dir name).Leads
        (Grown target others) s (Settled others target dir name uid gid r) := by
      refine (handBackFile_leads hheld' fun ino hino => ?_).mono fun _ _ _ h => h.of_grown hs
      rw [hs.still hino.1, hkind ino (hs.stands.1 hino)]
      exact hne
    cases kind with
    | symlink =>
      refine Effect.leads_pure fun ino hino => ?_
      have hlink := hkind ino hino
      exact covered_of_leaf (by simp [hlink]) fun hregular => by simp [hlink] at hregular
    | directory =>
      refine Effect.Leads.attempt (openChild_ends hheld') fun result t ht hopened => ?_
      cases result with
      | error errno =>
        have hskip : errno ≠ .other → Settled others target dir name uid gid r .skipped t := by
          refine fun hne ino hino => absurd ?_ (hopened.left ino errno (hs.stands.2 hino) rfl hne)
          rw [hs.still hino.1]
          exact hkind ino hino
        cases errno with
        | noEntry | notDirectory => exact Effect.leads_pure (hskip nofun)
        | loop | noDevice | other | secondName | nested => exact Effect.leads_fail
      | ok child =>
        obtain ⟨_, htrace, rfl, hchild⟩ := hopened.held child rfl
        refine handOver_leads hchild (htrace ▸ ⟨rfl, rfl⟩) fun u hu hover => ?_
        exact Effect.leads_pure ⟨hchild.mono hu.trace, hover,
          fun ino hino => hopened.same ino child (hs.stands.2 hino) rfl⟩
    | regular | special opens => exact hfile nofun

/-- What the level below must do with a directory that is held and handed over. -/
def Descends (others : Others) (target : Ino) (uid gid : Nat)
    (down : Ino → Effect Run Errno Nat) : Prop :=
  ∀ child r, Holds target r.trace child → HandedOver uid gid r.trace child →
    (down child).Leads (Grown target others) r fun _ t =>
      others.Still → Covered r.world uid gid t.trace child

variable {down : Ino → Effect Run Errno Nat}

theorem enter_leads {step : Step} (hdown : Descends others target uid gid down)
    (hgrown : Grown target others r s) (h : Settled others target dir name uid gid r step s) :
    (enter down step).Leads (Grown target others) s fun _ t =>
      ∀ ino, Stands others r dir name ino → Covered r.world uid gid t.trace ino := by
  cases step with
  | skipped | shared names | touched => exact Effect.leads_pure h
  | down child =>
    refine (hdown child s h.1 h.2.1).mono fun _ t _ hcovered ino hino => ?_
    rw [h.2.2 ino hino, ← hgrown.still hino.1]
    exact hcovered hino.1

theorem level_leads (hdown : Descends others target uid gid down) (names : List String)
    (hheld : Holds target r.trace dir) :
    (level others uid gid down dir names).Leads (Grown target others) r fun _ t =>
      ∀ name ∈ names, ∀ ino, Stands others r dir name ino →
        Covered r.world uid gid t.trace ino := by
  induction names generalizing r with
  | nil => exact Effect.leads_pure nofun
  | cons name names ih =>
    refine (visit_leads hheld).bind fun step s hs hsettled => ?_
    refine (enter_leads hdown hs hsettled).bind fun _ t ht hhere => ?_
    have hgrown := trans_of (Grown target others) hs ht
    refine (ih (hheld.mono hgrown.trace)).bind fun _ u hu hrest => ?_
    refine Effect.leads_pure (List.forall_mem_cons.2 ⟨?_, fun name' hname ino hino => ?_⟩)
    · exact fun ino hino => (hhere ino hino).mono hu.trace
    · rw [← hgrown.still hino.1]
      exact hrest name' hname ino (hgrown.stands.2 hino)

theorem descend_leads (room : Nat) :
    Descends others target uid gid (descend others uid gid room) := by
  induction room with
  | zero => exact fun _ _ _ _ => Effect.leads_fail
  | succ room ih =>
    intro dir r hheld hover
    refine (noted_leads fun _ h => h).bind fun names s hs hnames => ?_
    refine (level_leads ih names (hheld.mono hs.trace)).bind fun _ t ht hrest => ?_
    refine Effect.leads_pure fun hstill last hin hlast => ?_
    cases hin with
    | here => exact hover.mono (hs.trace.trans ht.trace)
    | @down _ ino _ name hdir hentry hin =>
      obtain ⟨world, hworld, rfl, -⟩ := hnames
      have hthere : name ∈ world.listing dir := by
        rw [hworld hstill, r.world.listed, hentry]
        rfl
      have hino : Stands others r dir name ino := ⟨hstill, hentry⟩
      have hcovered := hrest name hthere ino (hs.stands.2 hino)
      rw [hs.still hstill] at hcovered
      exact hcovered last hin hlast

/-- Whatever others do in between, the walk ends, opens no link, and changes only what it holds by
a chain of openings from the target, directories and what it has just seen with no second name. In
a tree that stays as it is nothing is left out when it succeeds. -/
theorem chown_tree_stays_beneath (others : Others) (uid gid : Nat) (target : Ino) (world : World) :
    (chownTree others uid gid target).Ends { world } fun result run =>
      Sound target run.trace ∧ (others.Still → ∀ touched, result = .ok touched →
        Covered world uid gid run.trace target) := by
  suffices h : (chownTree others uid gid target).Leads (Grown target others) { world } fun _ run =>
      others.Still → Covered world uid gid run.trace target from
    ⟨h.1.sound trivial, fun hstill touched hok => h.2 touched hok hstill⟩
  refine (factsOf_leads target).bind fun facts s hs hlooked => ?_
  by_cases hkind : facts.1 ≠ .directory
  · rw [if_pos hkind]
    refine (factsOf_leads target).bind fun facts' t ht hlooked' => ?_
    by_cases hlinks : facts'.2 > 1
    · rw [if_pos hlinks]
      exact Effect.leads_fail
    rw [if_neg hlinks]
    refine handOver_leads .target (hlooked'.1 ▸ ⟨rfl, .inr (Nat.not_lt.1 hlinks)⟩)
      fun u _ hover => Effect.leads_pure fun hstill => covered_of_leaf ?_ fun _ _ => hover
    rw [hlooked.2 hstill] at hkind
    exact hkind
  · rw [if_neg hkind]
    refine handOver_leads .target (hlooked.1 ▸ ⟨rfl, .inl (not_not.1 hkind)⟩) fun t ht hover => ?_
    refine (descend_leads maxDepth target t .target hover).mono fun _ u _ hcovered hstill => ?_
    have hsame : t.world = world := (trans_of (Grown target others) hs ht).still hstill
    rw [← hsame]
    exact hcovered hstill

/-- A directory with one file. -/
def oneFile (names : Nat) : World where
  kind := fun ino => if ino = 0 then .directory else .regular
  links := fun _ => names
  entry := fun dir name => if dir = 0 ∧ name = "a" then some 1 else none
  listing := fun dir => if dir = 0 then ["a"] else []
  listed := by
    intro dir name
    by_cases hdir : dir = 0
    · simp [hdir]
    · simp [hdir]

/-- The file is given a second name between the look at it and its change. -/
def linked : Others where
  acts := fun number world => if number = 7 then oneFile 2 else world
  fails := fun _ => false

theorem a_second_name_is_not_seen : ¬ ∀ (others : Others) (uid gid : Nat) (target : Ino)
    (world : World) (ino : Ino) (links : Nat) (change : Change),
    .changed ino .regular links change ∈ (chownTree others uid gid target { world }).2.trace →
      links ≤ 1 :=
  fun h => absurd (h linked 9 9 0 (oneFile 1) 1 2 (.owner 9 9) (by decide +kernel)) (by decide)

end CraftPanel.Helper
