import CraftPanel.Content.Updates
import CraftPanel.Framework.Worklist
import Mathlib.Algebra.Order.BigOperators.Group.List
import Mathlib.Algebra.Order.Ring.Nat
import Mathlib.Data.List.Pairwise

/-!
# Install plans

`content/install.rs`, `resolve`: from what is asked for, and what that requires, which versions are
wanted. The walk goes by the names that projects are asked for under, and a project has more than
one: its id, its slug, and any other project's name that one of its versions is asked for with. A
plan is closed as long as these names agree with the ids of the projects.
-/

namespace CraftPanel.Content.Planning

open Framework
open Compat (Target)

def FABRIC_API : String := "P7dR8mSH"

/-- What Modrinth answers: a version of an id, the versions of a project, and of a project that it
knows the type, where it has one. -/
structure Modrinth where
  version : String → Except Upstream MrVersion := fun id => .error (.notFound id)
  versions : String → Except Upstream (List MrVersion) := fun id => .error (.notFound id)
  cachedProject : String → Except Upstream (Option (Option String)) := fun _ => .ok none

def kindOf (projectType : String) : Option ContentProjectType :=
  if projectType = "mod" then some .mod
  else if projectType = "plugin" then some .plugin
  else if projectType = "datapack" then some .datapack
  else if projectType = "resourcepack" then some .resourcepack
  else if projectType = "shader" ∨ projectType = "shaderpack" then some .shader
  else none

inductive PlanReason
  | requested | dependency
  deriving DecidableEq

inductive ContentSkipReason
  | alreadyInstalled | duplicateProject | conflictingDependency | noCompatibleVersion
  | missingVersion | quiltFabricApi
  deriving DecidableEq

/-- `ContentInstallTarget`. -/
structure InstallTarget where
  projectId : String
  versionId : Option String := none

/-- An entry of the queue. -/
structure Asked where
  projectId : String
  versionId : Option String
  reason : PlanReason

structure Wanted where
  projectId : String
  version : MrVersion
  file : MrFile
  reason : PlanReason
  replaces : Option Id := none
  deriving DecidableEq

/-- `ContentSkippedEntry`. -/
structure SkippedEntry where
  projectId : String
  versionId : Option String
  reason : ContentSkipReason
  deriving DecidableEq

structure Plan where
  wanted : List Wanted := []
  skipped : List SkippedEntry := []
  deriving DecidableEq

section Resolve

variable (lowercase : String → String) (modrinth : Modrinth) (target : Target)
  (channel : UpdateChannel)

def targetFor (known : Option (Option String)) : Target :=
  { target with projectType := known.bind fun projectType => projectType.bind kindOf }

def newestFitting (projectId : String) : Except Upstream (Option MrVersion) :=
  (modrinth.cachedProject projectId).bind fun known =>
    match modrinth.versions projectId with
    | .error (.notFound _) => .ok none
    | .error err => .error err
    | .ok versions =>
      let fitting := versions.filter fun version =>
        Compat.fits lowercase version (targetFor target known) &&
          Channels.allows version.versionType channel none
      .ok (MrVersion.newestFirst fitting).head?

def chosen (asked : Asked) : Except Upstream (Option MrVersion) :=
  match asked.versionId with
  | some wanted => match modrinth.version wanted with
    | .ok version => .ok (some version)
    | .error (.notFound _) => .ok none
    | .error err => .error err
  | none => newestFitting lowercase modrinth target channel asked.projectId

variable (already : List String)

def skip (asked : Asked) (versionId : Option String) (reason : ContentSkipReason) :
    SkippedEntry ⊕ Wanted :=
  .inl { projectId := asked.projectId, versionId, reason }

def found (asked : Asked) : Option MrVersion → SkippedEntry ⊕ Wanted
  | none => skip asked none
      (if asked.versionId.isSome then .missingVersion else .noCompatibleVersion)
  | some version => match version.primaryFile with
    | none => skip asked (some version.id) .missingVersion
    | some file => .inr { projectId := asked.projectId, version, file, reason := asked.reason }

def consider (asked : Asked) : Except Upstream (SkippedEntry ⊕ Wanted) :=
  if asked.projectId ∈ already then .ok (skip asked asked.versionId .alreadyInstalled)
  else if asked.projectId = FABRIC_API ∧ target.loader = .quilt then
    .ok (skip asked asked.versionId .quiltFabricApi)
  else (chosen lowercase modrinth target channel asked).map (found asked)

/-- The plan, and the versions that projects are pinned to. -/
abbrev Draft := Plan × List (String × String)

def Draft.skip (draft : Draft) (entry : SkippedEntry) : Draft :=
  ({ draft.1 with skipped := draft.1.skipped ++ [entry] }, draft.2)

def Draft.want (draft : Draft) (wanted : Wanted) : Draft :=
  ({ draft.1 with wanted := draft.1.wanted ++ [wanted] },
    (wanted.projectId, wanted.version.id) :: draft.2)

def askAgain (asked : Asked) (draft : Draft) : Draft :=
  let clashes := match asked.versionId, draft.2.lookup asked.projectId with
    | some wanted, some planned => decide (wanted ≠ planned)
    | _, _ => false
  draft.skip {
    projectId := asked.projectId
    versionId := asked.versionId
    reason := if clashes then .conflictingDependency else .duplicateProject }

variable (followDependencies : Bool)

def planning : Walk Asked Draft String Upstream where
  key := Asked.projectId
  item := fun dependency => { projectId := dependency, versionId := none, reason := .dependency }
  again := askAgain
  visit := fun asked draft =>
    (consider lowercase modrinth target channel already asked).map fun verdict =>
      match verdict with
      | .inl entry => ([], draft.skip entry)
      | .inr wanted =>
        (if followDependencies then wanted.version.requires else [], draft.want wanted)

def queueOf (requests : List InstallTarget) : List Asked :=
  requests.map fun item => ⟨item.projectId, item.versionId, .requested⟩

def resolve (installed : List ItemRow) (requests : List InstallTarget) (fuel : Nat) :
    Option (Except Upstream Plan) :=
  ((planning lowercase modrinth target channel (installed.filterMap ItemRow.projectId)
    followDependencies).run fuel { seen := [], queue := queueOf requests, out := ({}, []) }).map
      fun result => result.map Prod.fst

end Resolve

/-- The dependency is on this project, or on this version. -/
def Names (dependency : MrDependency) (projectId versionId : Option String) : Prop :=
  dependency.projectId.isSome = true ∧ dependency.projectId = projectId ∨
    dependency.versionId.isSome = true ∧ dependency.versionId = versionId

/-- What a plan is made from. -/
structure Inputs where
  lowercase : String → String
  modrinth : Modrinth
  target : Target
  channel : UpdateChannel
  installed : List ItemRow
  requests : List InstallTarget
  followDependencies : Bool

namespace Inputs

variable (given : Inputs)

def plan (fuel : Nat) : Option (Except Upstream Plan) :=
  resolve given.lowercase given.modrinth given.target given.channel given.followDependencies
    given.installed given.requests fuel

/-- The version suits the server and the channel, for the kind of thing that the project is. -/
def Suits (wanted : Wanted) : Prop :=
  ∃ known, given.modrinth.cachedProject wanted.projectId = .ok known ∧
    Compat.fits given.lowercase wanted.version (targetFor given.target known) = true ∧
    Channels.allows wanted.version.versionType given.channel none = true

/-- The version was asked for by its id. -/
def AskedFor (wanted : Wanted) : Prop :=
  ∃ request ∈ given.requests, request.projectId = wanted.projectId ∧
    ∃ id, request.versionId = some id ∧ given.modrinth.version id = .ok wanted.version

/-- A required dependency is wanted, installed or listed as skipped. -/
def Settled (plan : Plan) (dependency : MrDependency) : Prop :=
  (∃ wanted ∈ plan.wanted, dependency.projectId = some wanted.projectId ∨
    Names dependency (some wanted.version.projectId) (some wanted.version.id)) ∨
  (∃ row ∈ given.installed, Names dependency row.projectId row.versionId) ∨
  ∃ entry ∈ plan.skipped, dependency.projectId = some entry.projectId

structure Closed (plan : Plan) : Prop where
  once : plan.wanted.Pairwise fun wanted other =>
    wanted.version.projectId ≠ other.version.projectId
  fresh : ∀ wanted ∈ plan.wanted, ∀ row ∈ given.installed,
    row.projectId ≠ some wanted.version.projectId
  suits : ∀ wanted ∈ plan.wanted, given.AskedFor wanted ∨ given.Suits wanted
  settled : ∀ wanted ∈ plan.wanted, ∀ dependency ∈ wanted.version.dependencies,
    dependency.dependencyType = "required" → given.Settled plan dependency

def walk : Walk Asked Draft String Upstream :=
  planning given.lowercase given.modrinth given.target given.channel
    (given.installed.filterMap ItemRow.projectId) given.followDependencies

def verdict (asked : Asked) : Except Upstream (SkippedEntry ⊕ Wanted) :=
  consider given.lowercase given.modrinth given.target given.channel
    (given.installed.filterMap ItemRow.projectId) asked

def leads (asked : Asked) : List String :=
  match given.verdict asked with
  | .ok (.inr wanted) => if given.followDependencies then wanted.version.requires else []
  | _ => []

/-- A name that is requested, or that a chosen version requires, with the version it is asked for
with. -/
def Named (asked : Asked) : Prop :=
  given.walk.Reached given.leads (queueOf given.requests) asked

/-- The version that is chosen for a name. -/
def Chosen (wanted : Wanted) : Prop :=
  ∃ asked, given.Named asked ∧ given.verdict asked = .ok (.inr wanted)

/-- No two names lead to versions of one project, and none to a version of an installed one; and
the chosen versions require projects, by names that are followed or that are there anyway. -/
structure Closing : Prop where
  once : ∀ wanted other, given.Chosen wanted → given.Chosen other →
    wanted.projectId ≠ other.projectId → wanted.version.projectId ≠ other.version.projectId
  fresh : ∀ wanted, given.Chosen wanted → ∀ row ∈ given.installed,
    row.projectId ≠ some wanted.version.projectId
  followed : ∀ wanted, given.Chosen wanted → ∀ dependency ∈ wanted.version.dependencies,
    dependency.dependencyType = "required" →
      (given.followDependencies = true ∧ dependency.projectId.isSome = true) ∨
      (∃ asked, given.Named asked ∧ dependency.projectId = some asked.projectId) ∨
      (∃ other, given.Chosen other ∧
        Names dependency (some other.version.projectId) (some other.version.id)) ∨
      ∃ row ∈ given.installed, Names dependency row.projectId row.versionId

/-- A plan is what is chosen for the names, each of which is in it. -/
structure Complete (plan : Plan) : Prop where
  wanted : ∀ wanted, wanted ∈ plan.wanted ↔ given.Chosen wanted
  distinct : (plan.wanted.map Wanted.projectId).Nodup
  skipped : ∀ entry ∈ plan.skipped, ∃ asked,
    given.Named asked ∧ entry.projectId = asked.projectId
  settled : ∀ asked, given.Named asked →
    (∃ wanted ∈ plan.wanted, wanted.projectId = asked.projectId) ∨
      ∃ entry ∈ plan.skipped, entry.projectId = asked.projectId

end Inputs

section Walking

variable {lowercase : String → String} {modrinth : Modrinth} {target : Target}
  {channel : UpdateChannel} {already : List String} {asked : Asked} {wanted : Wanted}
  {entry : SkippedEntry}

theorem found_skipped {version : Option MrVersion} (h : found asked version = .inl entry) :
    entry.projectId = asked.projectId := by
  cases version with
  | none =>
    cases h
    rfl
  | some version =>
    simp only [found] at h
    split at h <;> cases h
    rfl

theorem found_wanted {version : Option MrVersion} (h : found asked version = .inr wanted) :
    wanted.projectId = asked.projectId ∧ version = some wanted.version := by
  cases version with
  | none => cases h
  | some version =>
    simp only [found] at h
    split at h <;> cases h
    exact ⟨rfl, rfl⟩

theorem consider_ok {verdict : SkippedEntry ⊕ Wanted}
    (h : consider lowercase modrinth target channel already asked = .ok verdict) :
    (∃ reason, verdict = skip asked asked.versionId reason) ∨
      ∃ version, chosen lowercase modrinth target channel asked = .ok version ∧
        verdict = found asked version := by
  unfold consider at h
  split at h
  · exact .inl ⟨_, (Except.ok.inj h).symm⟩
  split at h
  · exact .inl ⟨_, (Except.ok.inj h).symm⟩
  cases hchosen : chosen lowercase modrinth target channel asked with
  | error err =>
    rw [hchosen] at h
    cases h
  | ok version =>
    rw [hchosen] at h
    exact .inr ⟨version, rfl, (Except.ok.inj h).symm⟩

theorem consider_skipped (h : consider lowercase modrinth target channel already asked =
    .ok (.inl entry)) : entry.projectId = asked.projectId := by
  rcases consider_ok h with ⟨reason, hskip⟩ | ⟨version, -, hfound⟩
  · cases hskip
    rfl
  · exact found_skipped hfound.symm

theorem consider_wanted (h : consider lowercase modrinth target channel already asked =
    .ok (.inr wanted)) : wanted.projectId = asked.projectId ∧
      chosen lowercase modrinth target channel asked = .ok (some wanted.version) := by
  rcases consider_ok h with ⟨reason, hskip⟩ | ⟨version, hchosen, hfound⟩
  · cases hskip
  · obtain ⟨hproject, hversion⟩ := found_wanted hfound.symm
    exact ⟨hproject, hversion ▸ hchosen⟩

theorem newestFitting_suits {projectId : String} {version : MrVersion}
    (h : newestFitting lowercase modrinth target channel projectId = .ok (some version)) :
    ∃ known versions, modrinth.cachedProject projectId = .ok known ∧
      modrinth.versions projectId = .ok versions ∧ version ∈ versions ∧
      Compat.fits lowercase version (targetFor target known) = true ∧
      Channels.allows version.versionType channel none = true := by
  unfold newestFitting at h
  cases hknown : modrinth.cachedProject projectId with
  | error err =>
    rw [hknown] at h
    cases h
  | ok known =>
    rw [hknown] at h
    cases hversions : modrinth.versions projectId with
    | error err =>
      simp only [Except.bind, hversions] at h
      cases err <;> cases h
    | ok versions =>
      simp only [Except.bind, hversions] at h
      have hhead := Except.ok.inj h
      have hmem := MrVersion.mem_newestFirst.mp (List.mem_of_head? hhead)
      obtain ⟨hlisted, hfits⟩ := List.mem_filter.mp hmem
      obtain ⟨hfits, hallows⟩ := (Bool.and_eq_true _ _).mp hfits
      exact ⟨known, versions, rfl, rfl, hlisted, hfits, hallows⟩

theorem chosen_mem {catalogue : List MrVersion} {version : MrVersion}
    (hversion : ∀ id version, modrinth.version id = .ok version → version ∈ catalogue)
    (hversions : ∀ id versions, modrinth.versions id = .ok versions → versions ⊆ catalogue)
    (h : chosen lowercase modrinth target channel asked = .ok (some version)) :
    version ∈ catalogue := by
  unfold chosen at h
  cases hid : asked.versionId with
  | some id =>
    rw [hid] at h
    cases hanswer : modrinth.version id with
    | ok answer =>
      simp only [hanswer] at h
      obtain rfl := Option.some.inj (Except.ok.inj h)
      exact hversion id _ hanswer
    | error err =>
      simp only [hanswer] at h
      cases err <;> cases h
  | none =>
    rw [hid] at h
    obtain ⟨_, versions, -, hanswer, hmem, -⟩ := newestFitting_suits h
    exact hversions _ _ hanswer hmem

end Walking

section Plans

variable {lowercase : String → String} {modrinth : Modrinth} {target : Target}
  {channel : UpdateChannel}

/-- What has become of the entries that have been looked at. -/
structure Drafted (verdict : Asked → Except Upstream (SkippedEntry ⊕ Wanted)) (visited : List Asked)
    (draft : Draft) : Prop where
  wanted : ∀ wanted, wanted ∈ draft.1.wanted ↔ ∃ asked ∈ visited, verdict asked = .ok (.inr wanted)
  names : (draft.1.wanted.map Wanted.projectId).Sublist (visited.map Asked.projectId)
  skipped : ∀ entry ∈ draft.1.skipped, entry.projectId ∈ visited.map Asked.projectId
  settled : ∀ asked ∈ visited, (∃ wanted, verdict asked = .ok (.inr wanted)) ∨
    ∃ entry ∈ draft.1.skipped, entry.projectId = asked.projectId

theorem Drafted.again {verdict : Asked → Except Upstream (SkippedEntry ⊕ Wanted)}
    {visited : List Asked} {draft : Draft} {asked : Asked} (h : Drafted verdict visited draft)
    (hseen : asked.projectId ∈ visited.map Asked.projectId) :
    Drafted verdict visited (askAgain asked draft) where
  wanted := h.wanted
  names := h.names
  skipped := by
    intro entry hentry
    rcases List.mem_append.mp hentry with hbefore | hlast
    · exact h.skipped entry hbefore
    · rw [List.mem_singleton.mp hlast]
      exact hseen
  settled := by
    intro other hother
    rcases h.settled other hother with hwanted | ⟨entry, hentry, hname⟩
    · exact .inl hwanted
    · exact .inr ⟨entry, List.mem_append_left _ hentry, hname⟩

theorem Drafted.skip {already : List String} {visited : List Asked} {draft : Draft} {asked : Asked}
    {entry : SkippedEntry}
    (h : Drafted (consider lowercase modrinth target channel already) visited draft)
    (hverdict : consider lowercase modrinth target channel already asked = .ok (.inl entry)) :
    Drafted (consider lowercase modrinth target channel already) (visited ++ [asked])
      (draft.skip entry) where
  wanted := by
    intro wanted
    rw [Draft.skip, h.wanted]
    constructor
    · rintro ⟨other, hother, hwanted⟩
      exact ⟨other, List.mem_append_left _ hother, hwanted⟩
    · rintro ⟨other, hother, hwanted⟩
      rcases List.mem_append.mp hother with hbefore | hlast
      · exact ⟨other, hbefore, hwanted⟩
      · rw [List.mem_singleton.mp hlast, hverdict] at hwanted
        cases hwanted
  names := by
    rw [List.map_append]
    exact h.names.trans (List.sublist_append_left _ _)
  skipped := by
    intro other hother
    rw [List.map_append]
    rcases List.mem_append.mp hother with hbefore | hlast
    · exact List.mem_append_left _ (h.skipped other hbefore)
    · rw [List.mem_singleton.mp hlast, consider_skipped hverdict]
      exact List.mem_append_right _ List.mem_cons_self
  settled := by
    intro other hother
    rcases List.mem_append.mp hother with hbefore | hlast
    · rcases h.settled other hbefore with hwanted | ⟨found, hfound, hname⟩
      · exact .inl hwanted
      · exact .inr ⟨found, List.mem_append_left _ hfound, hname⟩
    · rw [List.mem_singleton.mp hlast]
      exact .inr ⟨entry, List.mem_append_right _ List.mem_cons_self, consider_skipped hverdict⟩

theorem Drafted.want {already : List String} {visited : List Asked} {draft : Draft} {asked : Asked}
    {wanted : Wanted}
    (h : Drafted (consider lowercase modrinth target channel already) visited draft)
    (hverdict : consider lowercase modrinth target channel already asked = .ok (.inr wanted)) :
    Drafted (consider lowercase modrinth target channel already) (visited ++ [asked])
      (draft.want wanted) where
  wanted := by
    intro other
    simp only [Draft.want, List.mem_append, List.mem_singleton, h.wanted]
    constructor
    · rintro (⟨found, hfound, hwanted⟩ | rfl)
      · exact ⟨found, .inl hfound, hwanted⟩
      · exact ⟨asked, .inr rfl, hverdict⟩
    · rintro ⟨found, hfound | rfl, hwanted⟩
      · exact .inl ⟨found, hfound, hwanted⟩
      · rw [hverdict] at hwanted
        exact .inr (Sum.inr.inj (Except.ok.inj hwanted)).symm
  names := by
    simp only [Draft.want, List.map_append, List.map_cons, List.map_nil,
      (consider_wanted hverdict).1]
    exact h.names.append (List.Sublist.refl _)
  skipped := by
    intro entry hentry
    rw [List.map_append]
    exact List.mem_append_left _ (h.skipped entry hentry)
  settled := by
    intro other hother
    rcases List.mem_append.mp hother with hbefore | hlast
    · exact h.settled other hbefore
    · rw [List.mem_singleton.mp hlast]
      exact .inl ⟨wanted, hverdict⟩

variable {given : Inputs} {asked : Asked} {draft draft' : Draft} {keys : List String} {fuel : Nat}
  {plan : Plan} {wanted : Wanted}

theorem visit_cases (h : given.walk.visit asked draft = .ok (keys, draft')) :
    keys = given.leads asked ∧
      ((∃ entry, given.verdict asked = .ok (.inl entry) ∧ draft' = draft.skip entry) ∨
        ∃ wanted, given.verdict asked = .ok (.inr wanted) ∧ draft' = draft.want wanted) := by
  have hvisit : (given.verdict asked).map (fun verdict =>
      match verdict with
      | .inl entry => ([], draft.skip entry)
      | .inr wanted =>
        (if given.followDependencies then wanted.version.requires else [], draft.want wanted)) =
      .ok (keys, draft') := h
  unfold Inputs.leads
  cases hverdict : given.verdict asked with
  | error err =>
    rw [hverdict] at hvisit
    cases hvisit
  | ok verdict =>
    rw [hverdict] at hvisit
    cases verdict with
    | inl entry =>
      cases hvisit
      exact ⟨rfl, .inl ⟨entry, rfl, rfl⟩⟩
    | inr wanted =>
      cases hvisit
      exact ⟨rfl, .inr ⟨wanted, rfl, rfl⟩⟩

theorem complete_of_plan (h : given.plan fuel = some (.ok plan)) : given.Complete plan := by
  obtain ⟨result, hrun, hresult⟩ := Option.map_eq_some_iff.mp h
  cases result with
  | error err => cases hresult
  | ok draft =>
    cases hresult
    have hvisits := given.walk.run_visits (I := Drafted given.verdict)
      (fun _ => rfl) (fun _ _ _ _ hvisit => (visit_cases hvisit).1)
      (fun visited asked draft hdrafted hseen => hdrafted.again hseen)
      (fun visited asked draft keys draft' hdrafted _ hvisit => by
        rcases (visit_cases hvisit).2 with ⟨entry, hverdict, rfl⟩ | ⟨wanted, hverdict, rfl⟩
        · exact hdrafted.skip hverdict
        · exact hdrafted.want hverdict)
      ⟨by simp, List.Sublist.refl _, by simp, by simp⟩ hrun
    obtain ⟨visited, hdrafted, hnodup, hnamed⟩ := hvisits
    refine ⟨?_, hnodup.sublist hdrafted.names, ?_, ?_⟩
    · intro wanted
      rw [hdrafted.wanted]
      constructor
      · rintro ⟨asked, hasked, hverdict⟩
        exact ⟨asked, (hnamed asked).mp hasked, hverdict⟩
      · rintro ⟨asked, hasked, hverdict⟩
        exact ⟨asked, (hnamed asked).mpr hasked, hverdict⟩
    · intro entry hentry
      obtain ⟨asked, hasked, hname⟩ := List.mem_map.mp (hdrafted.skipped entry hentry)
      exact ⟨asked, (hnamed asked).mp hasked, hname.symm⟩
    intro asked hasked
    rcases hdrafted.settled asked ((hnamed asked).mpr hasked) with ⟨wanted, hverdict⟩ | hskipped
    · exact .inl ⟨wanted, (hdrafted.wanted wanted).mpr ⟨asked, (hnamed asked).mpr hasked, hverdict⟩,
        (consider_wanted hverdict).1⟩
    · exact .inr hskipped

theorem chosen_suits (h : given.Chosen wanted) : given.AskedFor wanted ∨ given.Suits wanted := by
  obtain ⟨asked, hnamed, hverdict⟩ := h
  obtain ⟨hproject, hchosen⟩ := consider_wanted hverdict
  unfold chosen at hchosen
  cases hid : asked.versionId with
  | none =>
    rw [hid] at hchosen
    obtain ⟨known, _, hknown, -, -, hfits, hallows⟩ := newestFitting_suits hchosen
    exact .inr ⟨known, hproject ▸ hknown, hfits, hallows⟩
  | some id =>
    -- Only a request has a version with it.
    have hqueued : asked ∈ queueOf given.requests := by
      cases hnamed with
      | first hfirst => exact List.mem_of_find?_eq_some hfirst
      | led _ _ _ => cases hid
    obtain ⟨request, hrequest, rfl⟩ := List.mem_map.mp hqueued
    refine .inl ⟨request, hrequest, hproject.symm, id, hid, ?_⟩
    rw [hid] at hchosen
    cases hanswer : given.modrinth.version id with
    | ok answer =>
      simp only [hanswer] at hchosen
      rw [Option.some.inj (Except.ok.inj hchosen)]
    | error err =>
      simp only [hanswer] at hchosen
      cases err <;> cases hchosen

theorem named_of_required (h : given.Chosen wanted) (hfollow : given.followDependencies = true)
    {dependency : MrDependency} (hmem : dependency ∈ wanted.version.dependencies)
    (hrequired : dependency.dependencyType = "required") {name : String}
    (hname : dependency.projectId = some name) :
    ∃ asked, given.Named asked ∧ asked.projectId = name := by
  obtain ⟨asked, hnamed, hverdict⟩ := h
  have hleads : name ∈ given.leads asked := by
    simp only [Inputs.leads, hverdict, hfollow, if_true, MrVersion.requires]
    apply List.mem_filterMap.mpr
    exact ⟨dependency, List.mem_filter.mpr ⟨hmem, by simpa using hrequired⟩, hname⟩
  cases hfirst : (queueOf given.requests).find? fun other => other.projectId = name with
  | none =>
    refine ⟨_, .led hnamed hleads ?_, rfl⟩
    intro other hother hkey
    exact absurd (decide_eq_true hkey) (List.find?_eq_none.mp hfirst other hother)
  | some first =>
    have hkey : first.projectId = name := by simpa using List.find?_some hfirst
    refine ⟨first, .first ?_, hkey⟩
    subst hkey
    exact hfirst

theorem closed_iff_closing (h : given.Complete plan) : given.Closed plan ↔ given.Closing := by
  constructor
  · intro hclosed
    refine ⟨?_, ?_, ?_⟩
    · intro wanted other hwanted hother hnames
      have hmem := (h.wanted wanted).mpr hwanted
      have hmem' := (h.wanted other).mpr hother
      have hsymm : Std.Symm fun wanted other : Wanted =>
          wanted.version.projectId ≠ other.version.projectId := ⟨fun _ _ => Ne.symm⟩
      apply hclosed.once.forall hmem hmem'
      rintro rfl
      exact hnames rfl
    · exact fun wanted hwanted => hclosed.fresh wanted ((h.wanted wanted).mpr hwanted)
    intro wanted hwanted dependency hdependency hrequired
    rcases hclosed.settled wanted ((h.wanted wanted).mpr hwanted) dependency hdependency hrequired
      with ⟨other, hother, hname | hnames⟩ | hinstalled | ⟨entry, hentry, hname⟩
    · obtain ⟨asked, hnamed, hverdict⟩ := (h.wanted other).mp hother
      exact .inr (.inl ⟨asked, hnamed, by rw [hname, (consider_wanted hverdict).1]⟩)
    · exact .inr (.inr (.inl ⟨other, (h.wanted other).mp hother, hnames⟩))
    · exact .inr (.inr (.inr hinstalled))
    · obtain ⟨asked, hnamed, hsame⟩ := h.skipped entry hentry
      exact .inr (.inl ⟨asked, hnamed, hsame ▸ hname⟩)
  · intro hclosing
    -- A name of the walk is wanted or skipped.
    have hnamed : ∀ (dependency : MrDependency) asked, given.Named asked →
        dependency.projectId = some asked.projectId → given.Settled plan dependency := by
      intro dependency asked hasked hname
      rcases h.settled asked hasked with ⟨other, hother, hsame⟩ | ⟨entry, hentry, hsame⟩
      · exact .inl ⟨other, hother, .inl (hsame ▸ hname)⟩
      · exact .inr (.inr ⟨entry, hentry, hsame ▸ hname⟩)
    refine ⟨?_, ?_, ?_, ?_⟩
    · have hdistinct := List.pairwise_map.mp h.distinct
      apply hdistinct.imp_of_mem
      intro wanted other hwanted hother hnames
      exact hclosing.once wanted other ((h.wanted wanted).mp hwanted) ((h.wanted other).mp hother)
        hnames
    · exact fun wanted hwanted => hclosing.fresh wanted ((h.wanted wanted).mp hwanted)
    · exact fun wanted hwanted => chosen_suits ((h.wanted wanted).mp hwanted)
    intro wanted hwanted dependency hdependency hrequired
    have hchosen := (h.wanted wanted).mp hwanted
    rcases hclosing.followed wanted hchosen dependency hdependency hrequired
      with ⟨hfollow, hsome⟩ | ⟨asked, hasked, hname⟩ | ⟨other, hother, hnames⟩ | hinstalled
    · obtain ⟨name, hname⟩ := Option.isSome_iff_exists.mp hsome
      obtain ⟨asked, hasked, rfl⟩ := named_of_required hchosen hfollow hdependency hrequired hname
      exact hnamed dependency asked hasked hname
    · exact hnamed dependency asked hasked hname
    · exact .inl ⟨other, (h.wanted other).mpr hother, .inr hnames⟩
    · exact .inr (.inl hinstalled)

theorem leads_bounded {catalogue : List MrVersion}
    (hversion : ∀ id version, given.modrinth.version id = .ok version → version ∈ catalogue)
    (hversions : ∀ id versions, given.modrinth.versions id = .ok versions → versions ⊆ catalogue)
    (asked : Asked) :
    given.leads asked ⊆ catalogue.flatMap MrVersion.requires ∧
      (given.leads asked).length ≤ (catalogue.map fun version => version.requires.length).sum := by
  unfold Inputs.leads
  cases hverdict : given.verdict asked with
  | error err => exact ⟨List.nil_subset _, Nat.zero_le _⟩
  | ok verdict =>
    cases verdict with
    | inl entry => exact ⟨List.nil_subset _, Nat.zero_le _⟩
    | inr wanted =>
      have hmem := chosen_mem hversion hversions (consider_wanted hverdict).2
      cases given.followDependencies with
      | false => exact ⟨List.nil_subset _, Nat.zero_le _⟩
      | true =>
        constructor
        · exact fun name hname => List.mem_flatMap.mpr ⟨wanted.version, hmem, hname⟩
        · apply List.single_le_sum (fun _ _ => Nat.zero_le _)
          exact List.mem_map.mpr ⟨wanted.version, hmem, rfl⟩

/-- From finitely many versions a plan is made, or Modrinth's error is the answer; and the plan is
closed if and only if the names that are gone through are those of different projects, of which none
is installed, and the dependencies are followed by them. -/
theorem plans_are_closed_iff (given : Inputs) (catalogue : List MrVersion)
    (hversion : ∀ id version, given.modrinth.version id = .ok version → version ∈ catalogue)
    (hversions : ∀ id versions, given.modrinth.versions id = .ok versions → versions ⊆ catalogue) :
    ∃ fuel result, (∀ more, fuel ≤ more → given.plan more = some result) ∧
      ∀ plan, result = .ok plan → (given.Closed plan ↔ given.Closing) := by
  have hkeys : ∀ asked draft keys draft', given.walk.visit asked draft = .ok (keys, draft') →
      keys ⊆ given.requests.map InstallTarget.projectId ++ catalogue.flatMap MrVersion.requires ∧
        keys.length ≤ (catalogue.map fun version => version.requires.length).sum := by
    intro asked draft keys draft' hvisit
    obtain rfl := (visit_cases hvisit).1
    obtain ⟨hsub, hlength⟩ := leads_bounded hversion hversions asked
    exact ⟨fun name hname => List.mem_append_right _ (hsub hname), hlength⟩
  have hqueue : ∀ asked ∈ queueOf given.requests, asked.projectId ∈
      given.requests.map InstallTarget.projectId ++ catalogue.flatMap MrVersion.requires := by
    intro asked hasked
    obtain ⟨request, hrequest, rfl⟩ := List.mem_map.mp hasked
    exact List.mem_append_left _ (List.mem_map_of_mem hrequest)
  let start : Worklist Asked Draft String :=
    { seen := [], queue := queueOf given.requests, out := ({}, []) }
  have hstart : ∀ asked ∈ start.queue, given.walk.key asked ∈
      given.requests.map InstallTarget.projectId ++ catalogue.flatMap MrVersion.requires := hqueue
  have hends := given.walk.run_isSome (fun _ => rfl) hkeys hstart (Nat.lt_succ_self _)
  obtain ⟨result, hresult⟩ := Option.isSome_iff_exists.mp hends
  have hplan : ∀ more, _ ≤ more → given.plan more = some (result.map Prod.fst) := fun more hmore =>
    Option.map_eq_some_iff.mpr ⟨result, Walk.run_mono hresult hmore, rfl⟩
  refine ⟨_, _, hplan, ?_⟩
  intro plan hok
  have hfuel := hplan _ (Nat.le_refl _)
  rw [hok] at hfuel
  exact closed_iff_closing (complete_of_plan hfuel)

end Plans

def api : MrVersion where
  id := "api"
  projectId := FABRIC_API
  gameVersions := ["1.21.1"]
  loaders := ["fabric"]
  published := some 1
  files := [{ filename := "fabric-api.jar".toList }]

def sodium : MrVersion :=
  { api with
    id := "sodium"
    projectId := "AANobbMI"
    dependencies := [{ projectId := some FABRIC_API, dependencyType := "required" }]
    files := [{ filename := "sodium.jar".toList }] }

def someProjects : Modrinth where
  versions := fun id =>
    if id = FABRIC_API ∨ id = "fabric-api" then .ok [api]
    else if id = "AANobbMI" then .ok [sodium]
    else .error (.notFound id)

def asking (requests : List InstallTarget) : Inputs where
  lowercase := id
  modrinth := someProjects
  target := { gameVersion := "1.21.1", loader := .fabric }
  channel := .release
  installed := []
  requests := requests
  followDependencies := true

theorem sodium_planned :
    ∃ fuel result, (∀ more, fuel ≤ more →
        (asking [{ projectId := "AANobbMI" }]).plan more = some result) ∧
      ∀ plan, result = .ok plan → ((asking [{ projectId := "AANobbMI" }]).Closed plan ↔
        (asking [{ projectId := "AANobbMI" }]).Closing) := by
  apply plans_are_closed_iff (asking [{ projectId := "AANobbMI" }]) [api, sodium]
  · intro id version hanswer
    cases hanswer
  intro id versions hanswer
  simp only [asking, someProjects] at hanswer
  split at hanswer
  · cases hanswer
    simp
  · split at hanswer <;> cases hanswer
    simp

/-- What is asked for by its slug, and required by its id, is wanted twice. -/
theorem wanted_twice :
    ¬ ∀ (given : Inputs) (fuel : Nat) (plan : Plan), given.plan fuel = some (.ok plan) →
      given.Closed plan := by
  intro hall
  have hplan : (asking [{ projectId := "fabric-api" }, { projectId := "AANobbMI" }]).plan 4 =
      some (.ok {
        wanted := [⟨"fabric-api", api, { filename := "fabric-api.jar".toList }, .requested, none⟩,
          ⟨"AANobbMI", sodium, { filename := "sodium.jar".toList }, .requested, none⟩,
          ⟨FABRIC_API, api, { filename := "fabric-api.jar".toList }, .dependency, none⟩]
        skipped := [] }) := by
    decide +kernel
  have hclosed := hall _ _ _ hplan
  exact List.rel_of_pairwise_cons hclosed.once (List.mem_cons_of_mem _ List.mem_cons_self) rfl

end CraftPanel.Content.Planning
