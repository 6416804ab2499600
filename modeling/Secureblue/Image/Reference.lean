import Secureblue.Auditor.Runner
import Secureblue.Shell

/-! The reference of the booted image, as `rpm-ostree status` reports it, and the three scripts that
    take the image out of it: verify-provenance.sh, system-update-available and `audit_signed_image`.

    The reference names a transport before the image. Each script strips it in its own way, and only
    system-update-available knows all of them: verify-provenance.sh leaves `ostree-unverified-registry`
    in place, and `audit_signed_image` leaves `ostree-unverified-image` in the reference it tells the
    user to rebase to. So the three agree exactly on signed references (`agree_iff`). -/

namespace Image
open Py Auditor Shell

/-! ### The code -/

/-- The booted image, as rpm-ostree reports it in `container-image-reference`, or bootc where
    rpm-ostree is not installed. -/
inductive Booted where
  | ostree (containerImageReference : Text)
  | composefs (image : Text)

/-- `"docker://"` -/
def docker : Text := "docker://"

/-- `image_ref` of verify-provenance.sh -/
def provenanceRef : Booted → Text
  | .ostree image_ref => Shell.removePrefix image_ref (wild ++ lit (':' :: docker))
  | .composefs image_ref => image_ref

/-- `image_ref` of system-update-available, which leaves the check to bootc on composefs. -/
def updateRef : Booted → Option Text
  | .ostree image_ref =>
    let image_ref := Shell.removePrefix image_ref (wild ++ lit [':'])
    some (Shell.removePrefix image_ref (lit docker))
  | .composefs _ => none

/-- `"ostree-image-signed:"` -/
def signedPrefix : Text := "ostree-image-signed:"

/-- `"ostree-unverified-registry:"` -/
def unverifiedRegistryPrefix : Text := "ostree-unverified-registry:"

/-- The recommendation of `audit_signed_image`, to rebase to a signed reference. -/
def rebaseRec (signed_image_ref : Text) : Text :=
  ['\n'].intercalate
    ["The current image is not signed.",
      "To rebase to a signed image, run the following command:",
      ("$ rpm-ostree rebase " : Text) ++ signed_image_ref]

/-- `signed_image_ref` -/
def signedImageRef (image_ref : Text) : Text :=
  let image_ref_no_prefix := Py.removePrefix image_ref unverifiedRegistryPrefix
  let image_ref_no_prefix := Py.removePrefix image_ref_no_prefix docker
  signedPrefix ++ docker ++ image_ref_no_prefix

/-- The report of `audit_signed_image`. -/
def signedImageReport (image_ref : Text) : Report :=
  let description : Text := "Ensuring a signed image is in use"
  if startsWith image_ref signedPrefix then
    { description, status := .pass, notes := [], recs := [] }
  else
    { description, status := .fail, notes := [], recs := [⟨rebaseRec (signedImageRef image_ref), none⟩] }

/-- `audit_signed_image`, with the value of `Image.from_running()`. -/
def auditSignedImage {V E : Type} (fromRunning : V) (booted : Booted) (state : Dict Text V) :
    Outcome V E :=
  { reports := match booted with
      | .ostree image_ref => [signedImageReport image_ref]
      | .composefs _ => []
    raised := none
    state := state.set "image" fromRunning }

/-! ### Image names and their references -/

/-- An image name `registry/path:tag`. -/
structure ImageName where
  registry : Text
  path : Text
  tag : Text
  registry_slash : '/' ∉ registry
  path_head : ∀ c ∈ path.head?, c ≠ '/'
  path_colon : ':' ∉ path
  tag_colon : ':' ∉ tag
  tag_slash : '/' ∉ tag

def ImageName.text (R : ImageName) : Text := R.registry ++ '/' :: R.path ++ ':' :: R.tag

/-- The forms of a reference in a container registry. -/
inductive Form where
  | imageSigned
  | unverifiedRegistry
  | unverifiedImage
  deriving DecidableEq, Repr

/-- The transport of a reference, before the colon. -/
def Form.transport : Form → Text
  | imageSigned => "ostree-image-signed"
  | unverifiedRegistry => "ostree-unverified-registry"
  | unverifiedImage => "ostree-unverified-image"

/-- What a reference has between its transport and the image: `docker://` or nothing. -/
def Form.scheme : Form → Text
  | imageSigned => docker
  | unverifiedRegistry => []
  | unverifiedImage => docker

/-- The reference to an image in one of the forms. -/
def Form.refer (form : Form) (R : ImageName) : Booted := .ostree (form.transport ++ ':' :: (form.scheme ++ R.text))

/-- All scripts name the image itself: provenance is checked for it, updates are looked up for it,
    and where it is not signed the signed reference to it is recommended. -/
def Agree {V : Type} (E : Type) (fromRunning : V) (state : Dict Text V) (form : Form) (R : ImageName) :
    Prop :=
  provenanceRef (form.refer R) = R.text ∧ updateRef (form.refer R) = some R.text ∧
    (form ≠ .imageSigned →
      (auditSignedImage (E := E) fromRunning (form.refer R) state).reports.flatMap Report.recs =
        [⟨rebaseRec (signedPrefix ++ docker ++ R.text), none⟩])

/-! ### What each script makes of a reference -/

theorem Form.colon_not_mem (form : Form) : ':' ∉ form.transport := by
  cases form <;> decide

theorem unverifiedRegistryPrefix_eq :
    unverifiedRegistryPrefix = Form.unverifiedRegistry.transport ++ [':'] := by decide +kernel

theorem docker_eq : docker = ("docker:" : Text) ++ ['/', '/'] := by decide +kernel

/-- No image name starts with the scheme: it would be a registry with an absolute path. -/
theorem ImageName.not_docker (R : ImageName) : ¬docker <+: R.text := by
  rintro ⟨t, ht⟩
  rw [docker_eq, List.append_assoc, ImageName.text, List.append_assoc] at ht
  have hsplit : ("docker:" : Text) ++ '/' :: ('/' :: t) = R.registry ++ '/' :: (R.path ++ ':' :: R.tag) := ht
  obtain ⟨-, hrest⟩ := append_cons_inj (by decide) R.registry_slash hsplit
  cases hp : R.path with
  | nil => rw [hp] at hrest; cases hrest
  | cons c path =>
    rw [hp] at hrest
    exact R.path_head c (by rw [hp]; rfl) (List.cons.inj hrest).1.symm

/-- system-update-available strips every transport, with the scheme or without. -/
theorem updateRef_refer (form : Form) (R : ImageName) : updateRef (form.refer R) = some R.text := by
  simp only [Form.refer, updateRef, removePrefix_wild_char form.colon_not_mem]
  cases form with
  | imageSigned => rw [Form.scheme, removePrefix_lit]
  | unverifiedImage => rw [Form.scheme, removePrefix_lit]
  | unverifiedRegistry =>
    rw [Form.scheme, List.nil_append, removePrefix_lit_of_not R.not_docker]

/-- The part of a reference that verify-provenance.sh strips, when it finds it. -/
def stripped (transport : Text) : Text := transport ++ ':' :: docker

/-- Where the scheme follows the transport, verify-provenance.sh strips both. -/
theorem provenance_stripped {transport : Text}
    (h : ∀ k < (stripped transport).length,
      Matches (wild ++ lit (':' :: docker)) ((stripped transport).take k) = false)
    (R : Text) :
    Shell.removePrefix (transport ++ ':' :: (docker ++ R)) (wild ++ lit (':' :: docker)) = R := by
  have hw : transport ++ ':' :: (docker ++ R) = stripped transport ++ R := by simp [stripped]
  rw [hw]
  exact removePrefix_eq (matches_wild_lit.mpr (List.suffix_append _ _)) h

/-- Where the scheme does not follow, the reference keeps its transport. -/
theorem provenance_kept {transport : Text} (h : ¬(':' :: docker) <:+ transport ++ [':']) (R : Text) :
    Shell.removePrefix (transport ++ ':' :: R) (wild ++ lit (':' :: docker)) ≠ R := by
  intro heq
  rcases removePrefix_cases (wild ++ lit (':' :: docker)) (transport ++ ':' :: R) with hw | ⟨a, ha, hw⟩
  · have hlen := congrArg List.length (hw.symm.trans heq)
    simp only [List.length_append, List.length_cons] at hlen
    omega
  · rw [heq, ← List.singleton_append, ← List.append_assoc] at hw
    rw [← List.append_cancel_right hw] at ha
    exact h (matches_wild_lit.mp ha)

/-- verify-provenance.sh names the image unless the reference has no scheme. -/
theorem provenanceRef_iff (form : Form) (R : ImageName) :
    provenanceRef (form.refer R) = R.text ↔ form ≠ .unverifiedRegistry := by
  cases form with
  | imageSigned => exact ⟨fun _ => nofun, fun _ => provenance_stripped (by decide +kernel) R.text⟩
  | unverifiedImage => exact ⟨fun _ => nofun, fun _ => provenance_stripped (by decide +kernel) R.text⟩
  | unverifiedRegistry =>
    exact ⟨fun h => absurd h (provenance_kept (by decide +kernel) R.text), fun h => absurd rfl h⟩

theorem not_startsWith_append {p a : Text} (hlen : p.length ≤ a.length) (h : ¬p <+: a) (b : Text) :
    startsWith (a ++ b) p = false :=
  Bool.eq_false_iff.mpr fun hp =>
    h (List.prefix_of_prefix_length_le (startsWith_iff.mp hp) (List.prefix_append a b) hlen)

theorem removePrefix_eq_self {p s : Text} (h : startsWith s p = false) : Py.removePrefix s p = s := by
  rw [Py.removePrefix, if_neg (by simp [h])]

theorem rebaseRec_injective : Function.Injective rebaseRec := by
  intro a b h
  simp only [rebaseRec, List.intercalate_cons_cons, List.intercalate_singleton, List.append_assoc] at h
  have h := List.append_cancel_left (List.append_cancel_left h)
  exact List.append_cancel_left (List.append_cancel_left (List.append_cancel_left h))

/-- `audit_signed_image` takes the image out of a reference in the form that it strips. -/
theorem signedImageRef_registry (R : ImageName) :
    signedImageRef (unverifiedRegistryPrefix ++ R.text) = signedPrefix ++ docker ++ R.text := by
  have hd : startsWith R.text docker = false := Bool.eq_false_iff.mpr (mt startsWith_iff.mp R.not_docker)
  simp only [signedImageRef, removePrefix_append, removePrefix_eq_self hd]

/-- What starts with neither text that it strips is taken for an image. -/
theorem signedImageRef_whole {a : Text} (hlen : unverifiedRegistryPrefix.length ≤ a.length)
    (hreg : ¬unverifiedRegistryPrefix <+: a) (hdocker : ¬docker <+: a) (R : Text) :
    signedImageRef (a ++ R) = signedPrefix ++ docker ++ (a ++ R) := by
  have hd : docker.length ≤ a.length := Nat.le_trans (by decide +kernel) hlen
  simp only [signedImageRef, removePrefix_eq_self (not_startsWith_append hlen hreg R),
    removePrefix_eq_self (not_startsWith_append hd hdocker R)]

/-- The reference of an unsigned image starts otherwise than that of a signed one. -/
theorem unsigned_report {a : Text} (hlen : signedPrefix.length ≤ a.length) (h : ¬signedPrefix <+: a)
    (R : Text) : (signedImageReport (a ++ R)).recs = [⟨rebaseRec (signedImageRef (a ++ R)), none⟩] := by
  rw [signedImageReport, if_neg (by simp [not_startsWith_append hlen h R])]

/-- The recommended reference is the signed one to the image for one form of unsigned references. -/
theorem rebase_iff {V E : Type} (fromRunning : V) (state : Dict Text V) {form : Form}
    (hform : form ≠ .imageSigned) (R : ImageName) :
    (auditSignedImage (E := E) fromRunning (form.refer R) state).reports.flatMap Report.recs =
      [⟨rebaseRec (signedPrefix ++ docker ++ R.text), none⟩] ↔ form = .unverifiedRegistry := by
  simp only [auditSignedImage, Form.refer, List.flatMap_singleton]
  cases form with
  | imageSigned => exact absurd rfl hform
  | unverifiedRegistry =>
    have hw : Form.unverifiedRegistry.transport ++ ':' :: (Form.unverifiedRegistry.scheme ++ R.text) =
        unverifiedRegistryPrefix ++ R.text := by simp [unverifiedRegistryPrefix_eq, Form.scheme]
    rw [hw, unsigned_report (by decide +kernel) (by decide +kernel), signedImageRef_registry]
    exact ⟨fun _ => rfl, fun _ => rfl⟩
  | unverifiedImage =>
    have hw : Form.unverifiedImage.transport ++ ':' :: (Form.unverifiedImage.scheme ++ R.text) =
        stripped Form.unverifiedImage.transport ++ R.text := by simp [stripped, Form.scheme]
    rw [hw, unsigned_report (by decide +kernel) (by decide +kernel),
      signedImageRef_whole (by decide +kernel) (by decide +kernel) (by decide +kernel)]
    constructor
    · intro h
      have hrec := rebaseRec_injective (congrArg Recommendation.text (List.singleton_inj.mp h))
      have hlen := congrArg List.length (List.append_cancel_left hrec)
      simp only [stripped, List.length_append, List.length_cons] at hlen
      omega
    · intro h
      cases h

/-! ### Agreement -/

/-- CORRECT: for every image name, the scripts agree on the image exactly when the reference is a
    signed one. -/
theorem agree_iff {V : Type} (E : Type) (fromRunning : V) (state : Dict Text V) (form : Form) (R : ImageName) :
    Agree E fromRunning state form R ↔ form = .imageSigned := by
  constructor
  · rintro ⟨hprov, -, hrebase⟩
    by_contra hform
    exact (provenanceRef_iff form R).mp hprov ((rebase_iff fromRunning state hform R).mp (hrebase hform))
  · rintro rfl
    exact ⟨(provenanceRef_iff _ R).mpr nofun, updateRef_refer _ R, fun h => absurd rfl h⟩

/-- A desktop image that was rebased to from a live system. -/
def unsignedImage : ImageName where
  registry := "ghcr.io"
  path := "secureblue/silverblue-main-hardened"
  tag := "latest"
  registry_slash := by decide
  path_head := by decide
  path_colon := by decide
  tag_colon := by decide
  tag_slash := by decide

/-- For a reference of rpm-ostree to an unsigned image, verify-provenance.sh checks another text than
    the image; for the other unsigned form, another reference is recommended than the signed one. -/
theorem unsigned_disagree :
    ¬Agree Empty () (∅ : Dict Text Unit) .unverifiedRegistry unsignedImage ∧
      ¬Agree Empty () (∅ : Dict Text Unit) .unverifiedImage unsignedImage :=
  ⟨fun h => absurd h.1 (by decide +kernel), fun h => absurd (h.2.2 nofun) (by decide +kernel)⟩

end Image
