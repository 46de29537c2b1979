import CraftPanel.Content.Modrinth
import CraftPanel.Framework.Firsts
import Mathlib.Data.Fintype.Basic

/-!
# Updates

`content/compat.rs`, `content/channels.rs`, and `update_for` of `content/install.rs`: which versions
of a project fit a server, and which one of them an item is offered. What is offered was published
after what is installed; and whoever installs it is offered nothing more, although the channels that
are asked for depend on what is installed.
-/

namespace CraftPanel.Content

open Framework
open Settings (LoaderId)

def asStr : LoaderId → String
  | .vanilla => "vanilla"
  | .paper => "paper"
  | .folia => "folia"
  | .purpur => "purpur"
  | .leaf => "leaf"
  | .fabric => "fabric"
  | .velocity => "velocity"
  | .neoForge => "neoforge"
  | .quilt => "quilt"
  | .forge => "forge"

namespace Compat

def ALIAS_GROUPS : List (List String) :=
  [["paper", "purpur", "spigot", "bukkit"], ["neoforge", "neo"]]

structure Target where
  gameVersion : String
  loader : LoaderId
  projectType : Option ContentProjectType := none

section Matching

-- `str::to_lowercase`
variable (lowercase : String → String)

def normaliseLoader (loader : String) : String :=
  String.ofList ((lowercase loader).toList.filter fun letter => letter ∉ ['_', '-', ' '])

def aliases (loader : String) : List String :=
  let loader := normaliseLoader lowercase loader
  match ALIAS_GROUPS.find? fun group => loader ∈ group with
  | some group => loader :: group
  | none => [loader]

/-- `matches`. Of what needs no loader, the kinds that an item can have are shaders and resource
packs. -/
def fits (version : MrVersion) (target : Target) : Bool :=
  if target.gameVersion = "" ∨ target.gameVersion ∉ version.gameVersions then false
  else
    let loaders := version.loaders.map (normaliseLoader lowercase)
    match target.projectType with
    | some .datapack => "datapack" ∈ loaders
    | some .resourcepack | some .shader => true
    | some .mod | some .plugin | none =>
      loaders.any fun loader => loader ∈ aliases lowercase (asStr target.loader)

end Matching

end Compat

inductive UpdateChannel
  | release | beta | alpha
  deriving DecidableEq

instance fintypeUpdateChannel : Fintype UpdateChannel where
  elems := ⟨↑[UpdateChannel.release, .beta, .alpha], by decide⟩
  complete := fun channel => by cases channel <;> decide

namespace Channels

open UpdateChannel

def normalise (versionType : String) : UpdateChannel :=
  if versionType = "alpha" then alpha
  else if versionType = "beta" then beta
  else release

def rank : UpdateChannel → Nat
  | release => 0
  | beta => 1
  | alpha => 2

def effective (policy : UpdateChannel) (installedType : Option String) : UpdateChannel :=
  match installedType with
  | none => policy
  | some installed => if rank (normalise installed) > rank policy then normalise installed else policy

def fallbacks : UpdateChannel → List (List UpdateChannel)
  | release => [[release], [beta], [alpha]]
  | beta => [[release, beta], [alpha]]
  | alpha => [[release, beta, alpha]]

def allows (versionType : String) (policy : UpdateChannel) (installedType : Option String) : Bool :=
  normalise versionType ∈ (fallbacks (effective policy installedType)).headD []

def isOf (step : List UpdateChannel) (version : MrVersion) : Bool :=
  normalise version.versionType ∈ step

def newestEligible (versions : List MrVersion) (installedId : String)
    (installedPublished : Option Timestamp) (policy : UpdateChannel)
    (installedType : Option String) : Option MrVersion :=
  match (fallbacks (effective policy installedType)).find? fun step => versions.any (isOf step) with
  | none => none
  | some step => (MrVersion.newestFirst versions).find? fun version =>
    version.id ≠ installedId && isOf step version &&
      match installedPublished with
      | none => true
      | some installed => version.published.any fun «when» => installed < «when»

end Channels

section Updates

variable (lowercase : String → String) (answers : String → Except Upstream (List MrVersion))

/-- The version that an item is offered, of those that fit the target; `answers` is what Modrinth
says the versions of a project are. -/
def updateFor (row : ItemRow) (target : Compat.Target) (channel : UpdateChannel) :
    Except Upstream (Option MrVersion) :=
  match row.projectId, row.versionId with
  | some projectId, some versionId => match answers projectId with
    | .error (.notFound _) => .ok none
    | .error err => .error err
    | .ok versions =>
      let installed := versions.find? fun version => version.id = versionId
      .ok (Channels.newestEligible (versions.filter fun version => Compat.fits lowercase version target)
        versionId (installed.bind MrVersion.published) channel (installed.map MrVersion.versionType))
  | _, _ => .ok none

end Updates

namespace Channels

section Groups

variable {policy : UpdateChannel}

/-- Which group a channel is in: the one of the setting takes in all the channels below it. -/
def level (policy channel : UpdateChannel) : Nat := max (rank policy) (rank channel)

theorem le_effective (policy : UpdateChannel) (installedType : Option String) :
    rank policy ≤ rank (effective policy installedType) := by
  cases installedType with
  | none => exact Nat.le_refl _
  | some installed =>
    simp only [effective]
    split <;> omega

theorem rank_effective_some (policy : UpdateChannel) (installed : String) :
    rank (effective policy (some installed)) = max (rank policy) (rank (normalise installed)) := by
  simp only [effective]
  split <;> omega

theorem nth_levels : ∀ (policy channel other : UpdateChannel) (n : Fin 3),
    ∀ group ∈ (fallbacks policy)[n.val]?, channel ∈ group →
      (other ∈ group ↔ level policy other = level policy channel) ∧
      ((∀ step ∈ (fallbacks policy).take n, other ∉ step) ↔
        level policy channel ≤ level policy other) := by
  decide

theorem fallbacks_levels {narrower wider : List (List UpdateChannel)} {group : List UpdateChannel}
    {channel : UpdateChannel} (h : fallbacks policy = narrower ++ group :: wider)
    (hchannel : channel ∈ group) (other : UpdateChannel) :
    (other ∈ group ↔ level policy other = level policy channel) ∧
      ((∀ step ∈ narrower, other ∉ step) ↔ level policy channel ≤ level policy other) := by
  have hlength : narrower.length < 3 := by
    have htotal := congrArg List.length h
    have hthree : (fallbacks policy).length ≤ 3 := by cases policy <;> decide
    rw [List.length_append, List.length_cons] at htotal
    omega
  have hgroup : group ∈ (fallbacks policy)[narrower.length]? := by simp [h]
  have htake : (fallbacks policy).take narrower.length = narrower := by simp [h]
  have hlevels := nth_levels policy channel other ⟨narrower.length, hlength⟩ group hgroup hchannel
  rwa [htake] at hlevels

end Groups

section Newest

variable {versions : List MrVersion} {id : String} {published : Option Timestamp}
  {policy : UpdateChannel} {installedType : Option String} {offered : MrVersion}

/-- The version is of the first group of channels in which there is one, and it is the newest of
that group. -/
def NewestOfFirst (versions : List MrVersion) (channel : UpdateChannel) (offered : MrVersion) : Prop :=
  ∃ narrower group wider, fallbacks channel = narrower ++ group :: wider ∧
    (∀ step ∈ narrower, ∀ version ∈ versions, isOf step version = false) ∧
    isOf group offered = true ∧
    ∀ version ∈ versions, isOf group version = true → ¬ offered.Before version

/-- What `newestEligible` looks for in the group that it has come to. -/
def eligible (installedId : String) (installedPublished : Option Timestamp)
    (step : List UpdateChannel) (version : MrVersion) : Bool :=
  version.id ≠ installedId && isOf step version &&
    match installedPublished with
    | none => true
    | some installed => version.published.any fun «when» => installed < «when»

theorem newestEligible_some (h : newestEligible versions id published policy installedType =
    some offered) :
    ∃ narrower group wider, fallbacks (effective policy installedType) = narrower ++ group :: wider ∧
      (∀ step ∈ narrower, ∀ version ∈ versions, isOf step version = false) ∧
      (MrVersion.newestFirst versions).find? (eligible id published group) = some offered := by
  unfold newestEligible at h
  cases hgroup : (fallbacks (effective policy installedType)).find?
      fun step => versions.any (isOf step) with
  | none =>
    rw [hgroup] at h
    cases h
  | some group =>
    rw [hgroup] at h
    obtain ⟨-, narrower, wider, hsplit, hnarrower⟩ := List.find?_eq_some_iff_append.mp hgroup
    refine ⟨narrower, group, wider, hsplit, ?_, h⟩
    intro step hstep
    simpa using hnarrower step hstep

theorem mem_of_newestEligible (h : newestEligible versions id published policy installedType =
    some offered) : offered ∈ versions ∧ offered.id ≠ id ∧
      ∀ before, published = some before →
        ∃ «when», offered.published = some «when» ∧ before < «when» := by
  obtain ⟨_, group, _, -, -, hfound⟩ := newestEligible_some h
  have hmem := List.mem_of_find?_eq_some hfound
  have heligible := List.find?_some hfound
  simp only [eligible, Bool.and_eq_true, decide_eq_true_eq] at heligible
  obtain ⟨⟨hid, -⟩, hdate⟩ := heligible
  refine ⟨MrVersion.mem_newestFirst.mp hmem, hid, ?_⟩
  rintro before rfl
  simpa [Option.any_eq_true] using hdate

theorem newestEligible_newest
    (hinstalled : ∀ version ∈ versions, version.id = id → published = version.published)
    (h : newestEligible versions id published policy installedType = some offered) :
    NewestOfFirst versions (effective policy installedType) offered := by
  obtain ⟨hmem, hid, hlater⟩ := mem_of_newestEligible h
  obtain ⟨narrower, group, wider, hsplit, hnarrower, hfound⟩ := newestEligible_some h
  have heligible := List.find?_some hfound
  simp only [eligible, Bool.and_eq_true] at heligible
  refine ⟨narrower, group, wider, hsplit, hnarrower, heligible.1.2, ?_⟩
  rintro version hversion hgroup ⟨now, «when», hnow, hwhen, hlt⟩
  by_cases hother : eligible id published group version = true
  · have hsorted : (MrVersion.newestFirst versions).Pairwise fun left right =>
        MrVersion.later left right = true := MrVersion.pairwise_newestFirst versions
    have hlist := MrVersion.mem_newestFirst.mpr hversion
    rcases find?_pairwise hsorted hfound hlist hother with rfl | hlate
    · rw [hnow] at hwhen
      cases hwhen
      exact Nat.lt_irrefl _ hlt
    · rw [MrVersion.later, hwhen, hnow] at hlate
      exact absurd (of_decide_eq_true hlate) (Nat.not_le.mpr hlt)
  -- What is passed over is installed already, or not newer than what is.
  obtain ⟨before, hbefore, hle⟩ : ∃ before, published = some before ∧ «when» ≤ before := by
    cases hpublished : published with
    | none =>
      rw [hpublished] at hinstalled hother
      have hsame : version.id = id := by simpa [eligible, hgroup] using hother
      rw [← hinstalled version hversion hsame] at hwhen
      cases hwhen
    | some before =>
      refine ⟨before, rfl, ?_⟩
      by_cases hsame : version.id = id
      · rw [hinstalled version hversion hsame, hwhen] at hpublished
        exact Nat.le_of_eq (Option.some.inj hpublished)
      · rw [hpublished] at hother
        simpa [eligible, hgroup, hsame, hwhen] using hother
  obtain ⟨date, hdate, hless⟩ := hlater before hbefore
  rw [hnow] at hdate
  cases hdate
  dsimp only [Timestamp] at *
  omega

/-- Whoever has the newest version of the first group is offered nothing: the channels that are
asked for then are no more than those it was chosen from. -/
theorem newestEligible_settled (hmem : offered ∈ versions)
    (hdate : offered.published.isSome = true)
    (h : NewestOfFirst versions (effective policy installedType) offered) :
    newestEligible versions offered.id offered.published policy (some offered.versionType) = none := by
  obtain ⟨narrower, group, wider, hsplit, hnarrower, hof, hnewest⟩ := h
  cases hagain : newestEligible versions offered.id offered.published policy
      (some offered.versionType) with
  | none => rfl
  | some other =>
    obtain ⟨hother, -, hlater⟩ := mem_of_newestEligible hagain
    obtain ⟨now, hnow⟩ := Option.isSome_iff_exists.mp hdate
    obtain ⟨«when», hwhen, hlt⟩ := hlater now hnow
    obtain ⟨narrower', group', wider', hsplit', hnarrower', hfound⟩ := newestEligible_some hagain
    have heligible := List.find?_some hfound
    simp only [eligible, Bool.and_eq_true] at heligible
    have hof' := heligible.1.2
    apply absurd ⟨now, «when», hnow, hwhen, hlt⟩ (hnewest other hother _)
    -- The group of the second question has nothing of a wider channel in it.
    simp only [isOf, decide_eq_true_eq] at hof hof' ⊢
    apply ((fallbacks_levels hsplit hof _).1).mpr
    have hfirst := ((fallbacks_levels hsplit hof (normalise other.versionType)).2).mp
      fun step hstep => by simpa [isOf] using hnarrower step hstep other hother
    have hsecond := ((fallbacks_levels hsplit' hof' (normalise offered.versionType)).2).mp
      fun step hstep => by simpa [isOf] using hnarrower' step hstep offered hmem
    have hwidened := le_effective policy installedType
    have hrank := rank_effective_some policy offered.versionType
    simp only [level] at hfirst hsecond ⊢
    omega

end Newest

end Channels

section Converging

variable {lowercase : String → String} {answers : String → Except Upstream (List MrVersion)}
  {row : ItemRow} {target : Compat.Target} {channel : UpdateChannel} {projectId versionId : String}
  {versions : List MrVersion} {offered : MrVersion}

theorem updateFor_eq (hproject : row.projectId = some projectId)
    (hversion : row.versionId = some versionId) (hanswer : answers projectId = .ok versions) :
    updateFor lowercase answers row target channel =
      .ok (Channels.newestEligible
        (versions.filter fun version => Compat.fits lowercase version target) versionId
        ((versions.find? fun version => version.id = versionId).bind MrVersion.published) channel
        ((versions.find? fun version => version.id = versionId).map MrVersion.versionType)) := by
  simp only [updateFor, hproject, hversion, hanswer]

theorem find?_of_id {version : MrVersion}
    (hids : ∀ version ∈ versions, ∀ other ∈ versions, version.id = other.id → version = other)
    (hmem : version ∈ versions) :
    versions.find? (fun other => other.id = version.id) = some version := by
  cases hfind : versions.find? fun other => other.id = version.id with
  | none => exact absurd hmem (by simpa using fun h => List.find?_eq_none.mp hfind version h)
  | some found =>
    have hid : found.id = version.id := by simpa using List.find?_some hfind
    rw [hids found (List.mem_of_find?_eq_some hfind) version hmem hid]

/-- An item is offered a version that fits, published after the installed one where that is listed,
and the newest one of the first group of channels that has any that fits; and once it is installed,
nothing more is offered. -/
theorem updates_converge (hproject : row.projectId = some projectId)
    (hversion : row.versionId = some versionId) (hanswer : answers projectId = .ok versions)
    (hdated : ∀ version ∈ versions, version.published.isSome = true)
    (hids : ∀ version ∈ versions, ∀ other ∈ versions, version.id = other.id → version = other)
    (hoffer : updateFor lowercase answers row target channel = .ok (some offered)) :
    offered ∈ versions ∧ Compat.fits lowercase offered target = true ∧ offered.id ≠ versionId ∧
      (∀ installed ∈ versions, installed.id = versionId → installed.Before offered) ∧
      Channels.NewestOfFirst (versions.filter fun version => Compat.fits lowercase version target)
        (Channels.effective channel
          ((versions.find? fun version => version.id = versionId).map MrVersion.versionType))
        offered ∧
      ∀ after : ItemRow, after.projectId = some projectId → after.versionId = some offered.id →
        updateFor lowercase answers after target channel = .ok none := by
  rw [updateFor_eq hproject hversion hanswer] at hoffer
  have hoffered := Except.ok.inj hoffer
  obtain ⟨hfitting, hid, hlater⟩ := Channels.mem_of_newestEligible hoffered
  obtain ⟨hmem, hfits⟩ := List.mem_filter.mp hfitting
  have hpublished : ∀ version ∈ versions.filter fun version => Compat.fits lowercase version target,
      version.id = versionId →
      (versions.find? fun version => version.id = versionId).bind MrVersion.published =
        version.published := by
    intro version hfit heq
    rw [← heq, find?_of_id hids (List.mem_of_mem_filter hfit), Option.bind_some]
  have hnewest := Channels.newestEligible_newest hpublished hoffered
  refine ⟨hmem, hfits, hid, ?_, hnewest, ?_⟩
  · rintro installed hinstalled rfl
    obtain ⟨before, hbefore⟩ := Option.isSome_iff_exists.mp (hdated installed hinstalled)
    rw [find?_of_id hids hinstalled, Option.bind_some] at hlater
    obtain ⟨now, hnow, hlt⟩ := hlater before hbefore
    exact ⟨before, now, hbefore, hnow, hlt⟩
  · intro after hproject' hversion'
    rw [updateFor_eq hproject' hversion' hanswer, find?_of_id hids hmem, Option.bind_some,
      Option.map_some, Channels.newestEligible_settled hfitting (hdated offered hmem) hnewest]

end Converging

def pinned : ItemRow :=
  { id := 1, serverId := 1, fileName := "sodium.jar".toList, filePath := "mods/sodium.jar".toList,
    projectId := some "AANobbMI", versionId := some "installed" }

def fabric : Compat.Target := { gameVersion := "1.21.1", loader := .fabric }

def release : MrVersion where
  id := "release"
  gameVersions := ["1.21.1"]
  loaders := ["fabric"]
  published := some 2

def withdrawn : MrVersion := { release with id := "installed", published := some 3 }

def outgrown : MrVersion :=
  { release with id := "installed", gameVersions := ["1.20.1"], published := some 1 }

def beta : MrVersion := { release with id := "beta", versionType := "beta" }

theorem release_converges :
    updateFor id (fun _ => .ok [outgrown, release]) pinned fabric .release = .ok (some release) ∧
      updateFor id (fun _ => .ok [outgrown, release])
        { pinned with versionId := some "release" } fabric .release = .ok none := by
  have hoffer : updateFor id (fun _ => .ok [outgrown, release]) pinned fabric .release =
      .ok (some release) := by
    decide +kernel
  have hanswer : (.ok [outgrown, release] : Except Upstream (List MrVersion)) =
      .ok [outgrown, release] := rfl
  have hlist := updates_converge rfl rfl hanswer (by decide +kernel) (by decide +kernel) hoffer
  exact ⟨hoffer, hlist.2.2.2.2.2 _ rfl rfl⟩

/-- An item whose version is no longer on Modrinth is offered an older one; and where no release
fits, a beta is offered although the project has releases. -/
theorem offers_beyond :
    (¬ ∀ (lowercase : String → String) (answers : String → Except Upstream (List MrVersion))
      (row : ItemRow) (target : Compat.Target) (channel : UpdateChannel) (projectId : String)
      (versions : List MrVersion) (installed offered : MrVersion),
      row.projectId = some projectId → row.versionId = some installed.id →
      answers projectId = .ok versions →
      (∀ version ∈ installed :: versions, version.published.isSome = true) →
      (∀ version ∈ installed :: versions, ∀ other ∈ installed :: versions,
        version.id = other.id → version = other) →
      updateFor lowercase answers row target channel = .ok (some offered) →
      ¬ offered.Before installed) ∧
    ¬ ∀ (lowercase : String → String) (answers : String → Except Upstream (List MrVersion))
      (row : ItemRow) (target : Compat.Target) (channel : UpdateChannel) (projectId : String)
      (versions : List MrVersion) (installed offered : MrVersion),
      row.projectId = some projectId → row.versionId = some installed.id →
      answers projectId = .ok versions → installed ∈ versions →
      (∀ version ∈ versions, version.published.isSome = true) →
      (∀ version ∈ versions, ∀ other ∈ versions, version.id = other.id → version = other) →
      updateFor lowercase answers row target channel = .ok (some offered) →
      Channels.NewestOfFirst versions (Channels.effective channel (some installed.versionType))
        offered := by
  constructor
  · intro hall
    have hoffer : updateFor id (fun _ => .ok [release]) pinned fabric .release =
        .ok (some release) := by
      decide +kernel
    exact hall id _ pinned fabric .release _ [release] withdrawn release rfl rfl rfl (by decide)
      (by decide +kernel) hoffer ⟨2, 3, rfl, rfl, by decide⟩
  · intro hall
    have hoffer : updateFor id (fun _ => .ok [outgrown, beta]) pinned fabric .release =
        .ok (some beta) := by
      decide +kernel
    obtain ⟨narrower, group, wider, hsplit, hnarrower, hof, -⟩ := hall id _ pinned fabric .release
      _ [outgrown, beta] outgrown beta rfl rfl rfl (by decide +kernel) (by decide)
      (by decide +kernel) hoffer
    have hlevels := Channels.fallbacks_levels hsplit (of_decide_eq_true hof) .release
    have hnone : ∀ step ∈ narrower, UpdateChannel.release ∉ step := by
      intro step hstep
      exact of_decide_eq_false (hnarrower step hstep outgrown (by decide +kernel))
    exact absurd (hlevels.2.mp hnone) (by decide +kernel)

end CraftPanel.Content
