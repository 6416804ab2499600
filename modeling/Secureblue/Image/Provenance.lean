import Secureblue.Image.Reference

/-! The tags that CI gives to the images it builds (build-one-recipe.yml, build-sealed-image.yml) and
    the branch that verify-provenance.sh reads back from a tag.

    A tag is `br-` and the branch and the version, so the branch is what stands before the last hyphen,
    whatever hyphens it has itself. What goes wrong is the suffix of sealed images: it is removed before,
    so an unsealed image of version `uki` loses its version, and then a part of its branch if that has a
    hyphen (`verified_branch`). -/

namespace Image
open Py Shell

/-! ### The code -/

/-- The run of a workflow, as GitHub describes it. -/
structure WorkflowRun where
  GITHUB_REF : Text
  GITHUB_REF_NAME : Text
  DEFAULT_BRANCH : Text
  PR_EVENT_NUMBER : Text

/-- `refs/heads/` -/
def heads : Text := "refs/heads/"

/-- `refs/pull/` -/
def pulls : Text := "refs/pull/"

def latest : Text := "latest"

def live : Text := "live"

/-- `br-`, before the branch in a tag. -/
def brPrefix : Text := "br-"

/-- `image_tag` of build-one-recipe.yml, with its version (`45`). -/
def imageTag (version : Text) (run : WorkflowRun) : Text :=
  if Matches (lit (heads ++ run.DEFAULT_BRANCH)) run.GITHUB_REF then latest
  else if Matches (lit pulls ++ wild) run.GITHUB_REF then
    ("pr-" : Text) ++ run.PR_EVENT_NUMBER ++ '-' :: version
  else brPrefix ++ run.GITHUB_REF_NAME ++ '-' :: version

def uki : Text := "uki"

/-- `-uki`, the suffix of sealed images. -/
def ukiSuffix : Text := "-uki"

/-- What an image should have been built from. -/
structure Source where
  source_uri : Text
  branch : Text
  deriving DecidableEq, Repr

/-- `github.com/secureblue/secureblue` -/
def sourceUri : Text := "github.com/secureblue/secureblue"

/-- `ghcr.io/secureblue/` -/
def registry : Text := "ghcr.io/secureblue/"

/-- The tags of the default branch. -/
def liveTags : List Text := [latest, "latest-uki", uki]

/-- The case distinctions of verify-provenance.sh, with its warnings. -/
def sourceOf (image_ref : Text) : Except Text Source :=
  if Matches (lit registry ++ wild) image_ref then
    let image_tag := removeLongestPrefix image_ref (wild ++ lit [':'])
    if image_tag ∈ liveTags then .ok ⟨sourceUri, live⟩
    else if Matches (lit brPrefix ++ wild) image_tag then
      let branch := removeSuffix image_tag (lit ukiSuffix)
      let branch := Shell.removePrefix branch (lit brPrefix)
      .ok ⟨sourceUri, removeSuffix branch (lit ['-'] ++ wild)⟩
    else .error (("WARNING: Unknown image tag '" : Text) ++ image_tag ++ "'; unable to check provenance.")
  else .error (("WARNING: Unknown image reference '" : Text) ++ image_ref ++ "'; unable to check provenance.")

/-- The arguments of `slsa-verifier verify-image`. -/
structure Verification where
  source : Source
  full_ref : Text
  deriving DecidableEq, Repr

/-- verify-provenance.sh up to its last command; `crane` is `crane digest --full-ref`. -/
def verifyProvenance (crane : Text → Except Text Text) (booted : Booted) : Except Text Verification := do
  let image_ref := provenanceRef booted
  let source ← sourceOf image_ref
  let full_ref ← crane image_ref
  return { source, full_ref }

/-! ### Images of a branch -/

/-- The tags that an image of a branch is built for. -/
inductive Kind where
  /-- the image of a recipe -/
  | recipe
  /-- the sealed image -/
  | sealedImage
  /-- the sealed image of the default branch, by its short tag -/
  | uki
  deriving DecidableEq, Repr

/-- An image that CI builds from a branch whose name can be part of a tag. -/
structure Build where
  branch : Text
  version : Text
  kind : Kind
  branch_colon : ':' ∉ branch
  version_colon : ':' ∉ version
  version_hyphen : '-' ∉ version
  uki_default : kind = .uki → branch = live

/-- The run of a workflow on a branch, where `live` is the default one. -/
def onBranch (branch : Text) : WorkflowRun where
  GITHUB_REF := heads ++ branch
  GITHUB_REF_NAME := branch
  DEFAULT_BRANCH := live
  PR_EVENT_NUMBER := []

/-- The tag of an image. -/
def Build.tag (B : Build) : Text :=
  let base := imageTag B.version (onBranch B.branch)
  match B.kind with
  | .recipe => base
  | .sealedImage => base ++ ukiSuffix
  | .uki => Image.uki

/-- The version of an unsealed image looks like the suffix of sealed ones, and a part of the branch
    looks like a version. -/
def Build.Ambiguous (B : Build) : Prop :=
  B.kind = .recipe ∧ B.version = uki ∧ '-' ∈ B.branch

/-- The system runs an image of the registry. -/
def Booted.Runs (booted : Booted) (name tag : Text) : Prop :=
  provenanceRef booted = registry ++ name ++ ':' :: tag

/-- Whenever the registry knows the image, its provenance is verified for the branch. -/
def VerifiesAgainst (booted : Booted) (branch : Text) : Prop :=
  ∀ crane full_ref, crane (provenanceRef booted) = .ok full_ref →
    verifyProvenance crane booted = .ok ⟨⟨sourceUri, branch⟩, full_ref⟩

/-! ### Reading a tag back -/

/-- The tag that an image has when it is not of the default branch. -/
def branchTag (branch version : Text) : Text := brPrefix ++ (branch ++ '-' :: version)

theorem ukiSuffix_eq : ukiSuffix = '-' :: uki := by decide

theorem uki_mem : uki ∈ liveTags := by decide

theorem uki_colon : ':' ∉ uki := by decide

theorem imageTag_onBranch (version branch : Text) :
    imageTag version (onBranch branch) =
      if branch = live then latest else branchTag branch version := by
  have hhead : Matches (lit (heads ++ live)) (heads ++ branch) ↔
      branch = live := by
    rw [matches_lit]
    exact ⟨fun h => List.append_cancel_left h, fun h => by rw [h]⟩
  have hpull : Matches (lit pulls ++ wild) (heads ++ branch) = false :=
    not_matches matches_lit_wild fun h =>
      absurd (List.prefix_of_prefix_length_le h (List.prefix_append _ branch) (by decide)) (by decide)
  simp only [imageTag, onBranch, hhead, hpull, branchTag, List.append_assoc]
  rfl

theorem verifiesAgainst_iff {booted : Booted} {branch : Text} :
    VerifiesAgainst booted branch ↔ sourceOf (provenanceRef booted) = .ok ⟨sourceUri, branch⟩ := by
  constructor
  · intro h
    have hok := h .ok (provenanceRef booted) rfl
    rw [verifyProvenance] at hok
    obtain ⟨source, hsource, hok⟩ := bind_eq_ok.mp hok
    cases hok
    exact hsource
  · intro h crane full_ref hcrane
    rw [verifyProvenance, h]
    simp only [hcrane]
    rfl

section
variable (name : Text)

/-- The script reads the tag of an image of the registry. -/
theorem sourceOf_registry {tag : Text} (htag : ':' ∉ tag) :
    Matches (lit registry ++ wild) (registry ++ name ++ ':' :: tag) ∧
      removeLongestPrefix (registry ++ name ++ ':' :: tag) (wild ++ lit [':']) = tag :=
  ⟨matches_lit_wild.mpr ⟨name ++ ':' :: tag, (List.append_assoc ..).symm⟩,
    removeLongestPrefix_wild_char htag _⟩

theorem sourceOf_live {tag : Text} (htag : tag ∈ liveTags) :
    sourceOf (registry ++ name ++ ':' :: tag) = .ok ⟨sourceUri, live⟩ := by
  have hcolon : ∀ t ∈ liveTags, ':' ∉ t := by decide
  obtain ⟨hreg, hlong⟩ := sourceOf_registry name (hcolon tag htag)
  rw [sourceOf, if_pos hreg]
  simp only [hlong]
  rw [if_pos htag]

theorem sourceOf_branch {rest : Text} (hrest : ':' ∉ rest) :
    sourceOf (registry ++ name ++ ':' :: (brPrefix ++ rest)) =
      .ok ⟨sourceUri, removeSuffix (Shell.removePrefix (removeSuffix (brPrefix ++ rest) (lit ukiSuffix))
        (lit brPrefix)) (lit ['-'] ++ wild)⟩ := by
  have hcolon : ':' ∉ brPrefix ++ rest := by
    rw [List.mem_append]
    exact not_or.mpr ⟨by decide, hrest⟩
  obtain ⟨hreg, hlong⟩ := sourceOf_registry name hcolon
  have hlive : brPrefix ++ rest ∉ liveTags := by
    intro h
    have hhead : ∀ t ∈ liveTags, t.head? ≠ some 'b' := by decide
    exact hhead _ h rfl
  rw [sourceOf, if_pos hreg]
  simp only [hlong]
  rw [if_neg hlive, if_pos (matches_lit_wild.mpr (List.prefix_append _ rest))]

/-- The branch of a tag is read back, if the tag does not end like that of a sealed image. -/
theorem sourceOf_branchTag {branch version : Text} (hb : ':' ∉ branch) (hv : ':' ∉ version)
    (hyphen : '-' ∉ version) (huki : version ≠ uki) :
    sourceOf (registry ++ name ++ ':' :: branchTag branch version) = .ok ⟨sourceUri, branch⟩ := by
  have hsuffix : ¬ukiSuffix <:+ brPrefix ++ (branch ++ '-' :: version) := by
    rintro ⟨t, ht⟩
    rw [ukiSuffix_eq, ← List.append_assoc] at ht
    exact huki (append_cons_inj_last (by decide) hyphen ht).2.symm
  rw [branchTag, sourceOf_branch name (by simp [hb, hv]), removeSuffix_lit_of_not hsuffix, removePrefix_lit,
    removeSuffix_char_wild hyphen]

/-- The suffix of a sealed image is the one that is removed. -/
theorem sourceOf_sealed {branch version : Text} (hb : ':' ∉ branch) (hv : ':' ∉ version)
    (hyphen : '-' ∉ version) :
    sourceOf (registry ++ name ++ ':' :: (branchTag branch version ++ ukiSuffix)) =
      .ok ⟨sourceUri, branch⟩ := by
  have hcolon : ':' ∉ branch ++ '-' :: version ++ ukiSuffix := by simp [hb, hv, ukiSuffix_eq, uki_colon]
  have htag : branchTag branch version ++ ukiSuffix = brPrefix ++ (branch ++ '-' :: version ++ ukiSuffix) :=
    List.append_assoc ..
  rw [htag, sourceOf_branch name hcolon, ← List.append_assoc, removeSuffix_lit, removePrefix_lit,
    removeSuffix_char_wild hyphen]

/-- When the version is taken for the suffix, the branch is cut at its last hyphen, if it has one. -/
theorem sourceOf_uki_iff {branch : Text} (hb : ':' ∉ branch) :
    sourceOf (registry ++ name ++ ':' :: branchTag branch uki) = .ok ⟨sourceUri, branch⟩ ↔ '-' ∉ branch := by
  have htag : branch ++ '-' :: uki = branch ++ ukiSuffix := by rw [ukiSuffix_eq]
  have hcolon : ':' ∉ branch ++ ukiSuffix := by simp [hb, ukiSuffix_eq, uki_colon]
  rw [branchTag, htag, sourceOf_branch name hcolon, ← List.append_assoc, removeSuffix_lit, removePrefix_lit]
  constructor
  · intro h hmem
    obtain ⟨a, b, rfl, hlast⟩ := exists_last hmem
    rw [removeSuffix_char_wild hlast] at h
    have hlen := congrArg List.length (congrArg Source.branch (Except.ok.inj h))
    simp only [List.length_append, List.length_cons] at hlen
    omega
  · intro hmem
    rw [removeSuffix_char_wild_of_not hmem]

end

/-! ### Builds -/

/-- The script reads the branch of a build back unless the tag is ambiguous. -/
theorem sourceOf_build (B : Build) (name : Text) :
    sourceOf (registry ++ name ++ ':' :: B.tag) = .ok ⟨sourceUri, B.branch⟩ ↔ ¬B.Ambiguous := by
  obtain ⟨branch, version, kind, hb, hv, hyphen, hdefault⟩ := B
  simp only [Build.tag, Build.Ambiguous, imageTag_onBranch]
  cases kind with
  | uki =>
    obtain rfl := hdefault rfl
    exact ⟨fun _ h => (nomatch h.1), fun _ => sourceOf_live name uki_mem⟩
  | sealedImage =>
    refine ⟨fun _ h => (nomatch h.1), fun _ => ?_⟩
    by_cases hlive : branch = live
    · subst hlive
      rw [if_pos rfl]
      exact sourceOf_live name (by decide)
    · rw [if_neg hlive]
      exact sourceOf_sealed name hb hv hyphen
  | recipe =>
    by_cases hlive : branch = live
    · subst hlive
      rw [if_pos rfl]
      exact ⟨fun _ h => absurd h.2.2 (by decide), fun _ => sourceOf_live name (by decide)⟩
    · rw [if_neg hlive]
      by_cases huki : version = uki
      · subst huki
        rw [sourceOf_uki_iff name hb]
        exact ⟨fun h h' => h h'.2.2, fun h hmem => h ⟨rfl, rfl, hmem⟩⟩
      · exact ⟨fun _ h => huki h.2.1, fun _ => sourceOf_branchTag name hb hv hyphen huki⟩

/-- CORRECT: an image is verified against the branch it was built from exactly when its tag is not
    ambiguous, and images of different branches with such tags are never verified against one. -/
theorem verified_branch :
    (∀ (B : Build) (name : Text) (booted : Booted), booted.Runs name B.tag →
      (VerifiesAgainst booted B.branch ↔ ¬B.Ambiguous)) ∧
    ∀ (B B' : Build) (name name' : Text) (booted booted' : Booted) (branch : Text),
      booted.Runs name B.tag → booted'.Runs name' B'.tag → ¬B.Ambiguous → ¬B'.Ambiguous →
      VerifiesAgainst booted branch → VerifiesAgainst booted' branch → B.branch = B'.branch := by
  have hall : ∀ (B : Build) (name : Text) (booted : Booted), booted.Runs name B.tag → ¬B.Ambiguous →
      ∀ branch, VerifiesAgainst booted branch → branch = B.branch := by
    intro B name booted hruns hB branch h
    rw [verifiesAgainst_iff, hruns, (sourceOf_build B name).mpr hB] at h
    exact (congrArg Source.branch (Except.ok.inj h)).symm
  constructor
  · intro B name booted hruns
    rw [verifiesAgainst_iff, hruns]
    exact sourceOf_build B name
  · intro B B' name name' booted booted' branch hruns hruns' hB hB' hv hv'
    rw [← hall B name booted hruns hB branch hv, hall B' name' booted' hruns' hB' branch hv']

/-- The sealed image of branch `br-a-uki` at the version that CI builds. -/
def sealedBuild : Build where
  branch := "br-a-uki"
  version := "45"
  kind := .sealedImage
  branch_colon := by decide
  version_colon := by decide
  version_hyphen := by decide
  uki_default := nofun

def sealedBooted : Booted :=
  .composefs (registry ++ "silverblue-main-hardened" ++ ':' :: sealedBuild.tag)

theorem sealedBuild_verified : VerifiesAgainst sealedBooted "br-a-uki" := by
  have hruns : provenanceRef sealedBooted = registry ++ "silverblue-main-hardened" ++ ':' :: sealedBuild.tag := by
    decide +kernel
  exact (verified_branch.1 sealedBuild "silverblue-main-hardened" sealedBooted hruns).mpr fun h => nomatch h.1

/-- The image of branch `a-b` at version `uki`. -/
def ambiguousBuild : Build where
  branch := "a-b"
  version := uki
  kind := .recipe
  branch_colon := by decide
  version_colon := by decide
  version_hyphen := by decide
  uki_default := nofun

def ambiguousBooted : Booted :=
  .composefs (registry ++ "silverblue-main-hardened" ++ ':' :: ambiguousBuild.tag)

/-- It is verified against the branch `a`. -/
theorem ambiguousBuild_verified :
    ¬VerifiesAgainst ambiguousBooted ambiguousBuild.branch ∧ VerifiesAgainst ambiguousBooted "a" :=
  ⟨mt verifiesAgainst_iff.mp (by decide +kernel), verifiesAgainst_iff.mpr (by decide +kernel)⟩

end Image
