import Secureblue.Efi.SignatureList

/-! Staging a certificate for enrolment by shim (`inner/secure_boot.py`).

    `enrollMokKey` writes two UEFI variables: `MokNew`, a signature list with the certificate as its
    only entry, and `MokAuth`, a digest of that list and a password. The sizes it packs are the ones
    `isCertInSignatureList` walks by: the list it builds is well formed and is found at any position
    of a database (`enrollMok_roundTrip`). -/

namespace Efi
open Py

/-! ### The code -/

def efivars : Text := "/sys/firmware/efi/efivars"
def efiNsShim : Text := "605dab50-e046-4300-abb6-3dd810dd8b23"

def efiAttrNonVolatile : ℕ := 0x00000001
def efiAttrBootservice : ℕ := 0x00000002
def efiAttrRuntime : ℕ := 0x00000004

/-- What the worker does to the system, in order. -/
inductive Action where
  | chattr (flag : Text) (path : Text)
  | umask (mask : ℕ)
  | writeBytes (path : Text) (data : Bytes)
  deriving DecidableEq

/-- `EFIVARS / f"{variable}-{ns_guid}"` -/
def efivarPath (name nsGuid : Text) : Text := efivars ++ "/" ++ name ++ "-" ++ nsGuid

/-- `_write_efi_bytes`: the attributes as a word, then the payload. The immutable flag of an
    existing variable is cleared first and set again afterwards. -/
def writeEfiBytes (pathExists : Text → Bool) (name nsGuid : Text) (attributes : ℕ)
    (payload : Bytes) : Except Exn (List Action) := do
  let path := efivarPath name nsGuid
  let word ← packU32 attributes
  let clear := if pathExists path then [Action.chattr "-i" path] else []
  return clear ++ [.umask 0o022, .writeBytes path (word ++ payload), .chattr "+i" path]

/-- One code point in UTF-16, low byte first. -/
def utf16Units (c : Char) : List ℕ :=
  let n := c.toNat
  if n < 0x10000 then [n] else [0xd800 + (n - 0x10000) / 0x400, 0xdc00 + (n - 0x10000) % 0x400]

/-- `s.encode("utf-16-le")` -/
def encodeUtf16Le (s : Text) : Bytes :=
  (s.flatMap utf16Units).flatMap fun u => [UInt8.ofNat u, UInt8.ofNat (u / 2 ^ 8)]

/-- `_mok_auth_hash`, over the digest function. -/
def mokAuthHash (sha256 : Bytes → Bytes) (listData : Bytes) (password : Text) : Bytes :=
  sha256 (listData ++ encodeUtf16Le password)

/-- The `MokNew` payload of `enroll_mok_key`. -/
def mokNewPayload (derBytes : Bytes) : Except Exn Bytes := do
  let signatureSize := efiGuidSize + derBytes.length
  let signatureListSize := efiGuidSize + efiUint32Size * 3 + signatureSize
  let signatureHeaderSize := 0
  let signatureOwner := List.replicate efiGuidSize (0 : UInt8)
  let sizes ← packU32x3 signatureListSize signatureHeaderSize signatureSize
  return x509Guid ++ sizes ++ signatureOwner ++ derBytes

def mokAttrs : ℕ := efiAttrNonVolatile ||| efiAttrBootservice ||| efiAttrRuntime

/-- `enroll_mok_key` on the contents of the DER file. -/
def enrollMokKey (sha256 : Bytes → Bytes) (pathExists : Text → Bool) (derBytes : Bytes)
    (password : Text) : Except Exn (List Action) := do
  let payload ← mokNewPayload derBytes
  let mokAuthPayload := mokAuthHash sha256 payload password
  let new ← writeEfiBytes pathExists "MokNew" efiNsShim mokAttrs payload
  let auth ← writeEfiBytes pathExists "MokAuth" efiNsShim mokAttrs mokAuthPayload
  return new ++ auth

/-! ### The list it builds -/

theorem signatureSize_lt {n : ℕ} (h : 44 + n < 2 ^ 32) : efiGuidSize + n < 2 ^ 32 := by
  simp only [efiGuidSize]
  omega

theorem signatureListSize_lt {n : ℕ} (h : 44 + n < 2 ^ 32) :
    sigListHeaderSize + 0 + 1 * (efiGuidSize + n) < 2 ^ 32 := by
  simp only [sigListHeaderSize, efiGuidSize, efiUint32Size]
  omega

/-- The request as a signature list: one X.509 signature without an owner. -/
def mokRequest (der : Bytes) (h : 44 + der.length < 2 ^ 32) : SignatureList where
  signatureType := x509Guid
  header := []
  signatureSize := efiGuidSize + der.length
  signatures := [⟨List.replicate efiGuidSize 0, der, by simp⟩]
  type_length := length_x509Guid
  guid_le_size := Nat.le_add_right _ _
  data_length := by simp
  size_lt := signatureSize_lt h
  listSize_lt := signatureListSize_lt h

theorem mokNewPayload_eq (der : Bytes) (h : 44 + der.length < 2 ^ 32) :
    mokNewPayload der = .ok (mokRequest der h).serialize := by
  have hfit : efiGuidSize + efiUint32Size * 3 + (efiGuidSize + der.length) < 2 ^ 32 ∧
      0 < 2 ^ 32 ∧ efiGuidSize + der.length < 2 ^ 32 := by
    simp only [efiGuidSize, efiUint32Size]; omega
  simp only [mokNewPayload, packU32x3, if_pos hfit]
  simp [mokRequest, SignatureList.serialize, SignatureList.listSize, SignatureData.serialize,
    sigListHeaderSize, Bind.bind, Except.bind, Pure.pure, Except.pure]

theorem stores_mokRequest {der : Bytes} {h : 44 + der.length < 2 ^ 32} {der' : Bytes} :
    (mokRequest der h).Stores der' ↔ der = der' := by
  simp [SignatureList.Stores, mokRequest]

/-- A variable is written as its attribute word followed by the payload. -/
theorem writeEfiBytes_spec (pathExists : Text → Bool) (name nsGuid : Text) {attributes : ℕ}
    (payload : Bytes) (h : attributes < 2 ^ 32) :
    ∃ actions, writeEfiBytes pathExists name nsGuid attributes payload = .ok actions ∧
      Action.writeBytes (efivarPath name nsGuid) (leU32 attributes ++ payload) ∈ actions := by
  refine ⟨_, by rw [writeEfiBytes, packU32, if_pos h]; rfl, ?_⟩
  exact List.mem_append_right _ (List.mem_cons_of_mem _ List.mem_cons_self)

theorem enrollMokKey_writes (sha256 : Bytes → Bytes) (pathExists : Text → Bool) (der : Bytes)
    (password : Text) (h : 44 + der.length < 2 ^ 32) :
    ∃ actions, enrollMokKey sha256 pathExists der password = .ok actions ∧
      Action.writeBytes (efivarPath "MokNew" efiNsShim)
        (leU32 mokAttrs ++ (mokRequest der h).serialize) ∈ actions := by
  have hattrs : mokAttrs < 2 ^ 32 := by decide
  obtain ⟨new, hnew, hmem⟩ := writeEfiBytes_spec pathExists "MokNew" efiNsShim
    (mokRequest der h).serialize hattrs
  obtain ⟨auth, hauth, -⟩ := writeEfiBytes_spec pathExists "MokAuth" efiNsShim
    (mokAuthHash sha256 (mokRequest der h).serialize password) hattrs
  refine ⟨new ++ auth, ?_, List.mem_append_left _ hmem⟩
  simp only [enrollMokKey, mokNewPayload_eq der h, Bind.bind, Except.bind, hnew, hauth]
  rfl

/-- CORRECT: the request for a certificate is one well-formed list, `MokNew` holds it behind the
    attributes, the certificate is found in it at any position between other lists, and no other
    certificate is found in it. -/
theorem enrollMok_roundTrip {der : Bytes} (hne : 1 ≤ der.length) (h : 44 + der.length < 2 ^ 32) :
    ∃ l : SignatureList, mokNewPayload der = .ok l.serialize ∧
      (∀ sha256 pathExists password, ∃ actions,
        enrollMokKey sha256 pathExists der password = .ok actions ∧
        Action.writeBytes (efivarPath "MokNew" efiNsShim) (leU32 mokAttrs ++ l.serialize) ∈ actions) ∧
      (∀ pre post : List SignatureList, isCertInSignatureList der
        (leU32 mokAttrs ++ pre.flatMap SignatureList.serialize ++ l.serialize ++
          post.flatMap SignatureList.serialize) = .ok true) ∧
      (∀ der', der' ≠ [] → isCertInSignatureList der' (leU32 mokAttrs ++ l.serialize) = .ok true →
        der' = der) := by
  have hder : der ≠ [] := by rintro rfl; simp at hne
  refine ⟨mokRequest der h, mokNewPayload_eq der h,
    fun sha pe pw => enrollMokKey_writes sha pe der pw h, fun pre post => ?_,
    fun der' hne' hfound => ?_⟩
  · have heq : leU32 mokAttrs ++ pre.flatMap SignatureList.serialize ++ (mokRequest der h).serialize
        ++ post.flatMap SignatureList.serialize
        = leU32 mokAttrs ++ (pre ++ mokRequest der h :: post).flatMap SignatureList.serialize := by
      simp
    rw [heq, isCert_wellFormed hder rfl]
    exact ⟨mokRequest der h, by simp, stores_mokRequest.mpr rfl⟩
  · have heq : (mokRequest der h).serialize
        = [mokRequest der h].flatMap SignatureList.serialize := by simp
    rw [heq, isCert_wellFormed hne' rfl] at hfound
    obtain ⟨l, hl, hs⟩ := hfound
    rw [List.mem_singleton.mp hl] at hs
    exact (stores_mokRequest.mp hs).symm

/-- The request for the one-byte certificate `0x30`, between two other lists. -/
theorem enrollMok_oneByte : ∃ l : SignatureList, mokNewPayload [0x30] = .ok l.serialize ∧
    isCertInSignatureList [0x30] (leU32 mokAttrs ++ digestList.serialize ++ l.serialize ++ oneByteList.serialize)
      = .ok true ∧
    isCertInSignatureList [0x31] (leU32 mokAttrs ++ l.serialize) ≠ .ok true := by
  have hne : 1 ≤ [(0x30 : UInt8)].length := by decide
  obtain ⟨l, hl, -, hfound, hother⟩ := enrollMok_roundTrip hne (by decide)
  refine ⟨l, hl, by simpa using hfound [digestList] [oneByteList], fun h => ?_⟩
  exact absurd (hother [0x31] (by decide) h) (by decide)

end Efi
