import Secureblue.Py.Bytes
import Secureblue.While

/-! The lookup of a certificate in an EFI signature database (`shared/secure_boot.py`).

    A UEFI variable holds four attribute bytes and then `EFI_SIGNATURE_LIST`s one behind the other:
    a type GUID, three 32-bit sizes, an optional header and a table of signatures of one size, each
    an owner GUID and its data. `isCertInSignatureList` walks the lists by their declared sizes and
    compares every entry of an X.509 list with the DER file. On well-formed lists the walk finds
    exactly the certificates stored (`isCert_wellFormed`). On arbitrary bytes it also accepts an
    entry that overruns its list or the variable, and only then is a positive answer unsound
    (`isCert_sound_iff`). Whatever the bytes are, the walk ends and nothing raises
    (`isCert_terminates`). -/

namespace Efi
open Py

/-! ### The code -/

def efiUint32Size : ℕ := 4
def efiGuidSize : ℕ := 16

/-- `EFI_TYPE_X509`, the GUID `a5c059a1-94e4-4aa7-87b5-ab155c2bf072` as written. -/
def efiTypeX509 : Bytes :=
  [0xa5, 0xc0, 0x59, 0xa1, 0x94, 0xe4, 0x4a, 0xa7, 0x87, 0xb5, 0xab, 0x15, 0x5c, 0x2b, 0xf0, 0x72]

/-- `uuid.UUID(s).bytes_le`: the first three fields with their bytes reversed. -/
def bytesLe (u : Bytes) : Bytes :=
  (u.take 4).reverse ++ ((u.drop 4).take 2).reverse ++ ((u.drop 6).take 2).reverse ++ u.drop 8

def x509Guid : Bytes := bytesLe efiTypeX509

theorem length_x509Guid : x509Guid.length = efiGuidSize := rfl

def sigListHeaderSize : ℕ := efiGuidSize + efiUint32Size * 3

/-- The body of the `while` loop: compare the entries of the list at `listOffset` with the
    certificate, if the list is an X.509 list with room for data in its signatures. -/
def searchEntries (derBytes sigList : Bytes) (listOffset sigListSize sigHeaderSize sigSize : ℕ) :
    Except Exn Bool :=
  if slice sigList listOffset (listOffset + efiGuidSize) = x509Guid ∧ sigSize > efiGuidSize then
    let entriesStart := listOffset + sigListHeaderSize + sigHeaderSize
    let entriesEnd := listOffset + sigListSize
    match range entriesStart entriesEnd sigSize with
    | .error e => .error e
    | .ok entryOffsets => .ok (entryOffsets.any fun entryOffset =>
        slice sigList (entryOffset + efiGuidSize) (entryOffset + sigSize) == derBytes)
  else .ok false

/-- The `while` loop from offset `listOffset` on. -/
def searchLists (derBytes sigList : Bytes) (listOffset : ℕ) : Except Exn Bool :=
  if listOffset + sigListHeaderSize ≤ sigList.length then
    match unpackU32x3 sigList (listOffset + efiGuidSize) with
    | .error e => .error e
    | .ok (sigListSize, sigHeaderSize, sigSize) =>
      if sigListSize = 0 then .ok false
      else match searchEntries derBytes sigList listOffset sigListSize sigHeaderSize sigSize with
        | .error e => .error e
        | .ok true => .ok true
        | .ok false => searchLists derBytes sigList (listOffset + sigListSize)
  else .ok false
termination_by sigList.length - listOffset
decreasing_by
  have : sigListHeaderSize = 28 := rfl
  omega

/-- One iteration of the `while` loop, from the offset `listOffset`. -/
def iteration (derBytes sigList : Bytes) (listOffset : ℕ) : Except Exn (While.Outcome ℕ Bool) :=
  if listOffset + sigListHeaderSize ≤ sigList.length then
    match unpackU32x3 sigList (listOffset + efiGuidSize) with
    | .error e => .error e
    | .ok (sigListSize, sigHeaderSize, sigSize) =>
      if sigListSize = 0 then .ok (.stop false)
      else match searchEntries derBytes sigList listOffset sigListSize sigHeaderSize sigSize with
        | .error e => .error e
        | .ok true => .ok (.stop true)
        | .ok false => .ok (.next (listOffset + sigListSize))
  else .ok (.stop false)

/-- `is_cert_in_signature_list` on the contents of the two files. -/
def isCertInSignatureList (derBytes efivar : Bytes) : Except Exn Bool :=
  searchLists derBytes (efivar.drop efiUint32Size) 0

/-! ### Signature lists -/

/-- `EFI_SIGNATURE_DATA` -/
structure SignatureData where
  owner : Bytes
  data : Bytes
  owner_length : owner.length = efiGuidSize

/-- A well-formed `EFI_SIGNATURE_LIST`: all signatures have the declared size and every size field
    fits its word. -/
structure SignatureList where
  signatureType : Bytes
  header : Bytes
  signatureSize : ℕ
  signatures : List SignatureData
  type_length : signatureType.length = efiGuidSize
  guid_le_size : efiGuidSize ≤ signatureSize
  data_length : ∀ s ∈ signatures, s.data.length = signatureSize - efiGuidSize
  size_lt : signatureSize < 2 ^ 32
  listSize_lt : sigListHeaderSize + header.length + signatures.length * signatureSize < 2 ^ 32

namespace SignatureData

/-- The bytes of a signature: owner, then data. -/
def serialize (s : SignatureData) : Bytes := s.owner ++ s.data

end SignatureData

namespace SignatureList

/-- The value of the `SignatureListSize` field. -/
def listSize (l : SignatureList) : ℕ :=
  sigListHeaderSize + l.header.length + l.signatures.length * l.signatureSize

/-- The bytes of a list in the layout of the EDK2 structure. -/
def serialize (l : SignatureList) : Bytes :=
  l.signatureType ++ (leU32 l.listSize ++ leU32 l.header.length ++ leU32 l.signatureSize) ++
    l.header ++ l.signatures.flatMap SignatureData.serialize

/-- The list is an X.509 list and stores the certificate `der`. -/
def Stores (l : SignatureList) (der : Bytes) : Prop :=
  l.signatureType = x509Guid ∧ ∃ s ∈ l.signatures, s.data = der

instance (l : SignatureList) (der : Bytes) : Decidable (l.Stores der) :=
  inferInstanceAs (Decidable (_ ∧ _))

theorem length_signature {l : SignatureList} {s : SignatureData} (hs : s ∈ l.signatures) :
    s.serialize.length = l.signatureSize := by
  have := l.guid_le_size
  rw [SignatureData.serialize, List.length_append, s.owner_length, l.data_length s hs]
  omega

theorem length_serialize (l : SignatureList) : l.serialize.length = l.listSize := by
  have hsigs : (l.signatures.flatMap SignatureData.serialize).length
      = l.signatures.length * l.signatureSize := by
    rw [List.length_flatMap, List.map_congr_left fun s hs => length_signature hs,
      List.map_const', List.sum_replicate_nat]
  simp only [serialize, List.length_append, hsigs, l.type_length, length_leU32, listSize,
    sigListHeaderSize, efiUint32Size]

end SignatureList

/-! ### Lookup in well-formed lists -/

/-- The entries of a table of signatures that starts at `pre.length` are the signatures. -/
theorem any_entries {der : Bytes} {size : ℕ} (hsize : efiGuidSize < size) :
    ∀ {sigs : List SignatureData}, (∀ s ∈ sigs, s.data.length = size - efiGuidSize) →
    ∀ {b pre : Bytes} (post : Bytes), b = pre ++ sigs.flatMap SignatureData.serialize ++ post →
      ((List.range' pre.length sigs.length size).any fun entryOffset =>
          slice b (entryOffset + efiGuidSize) (entryOffset + size) == der)
        = sigs.any fun s => s.data == der
  | [], _, _, _, _, _ => rfl
  | s :: sigs, h, b, pre, post, hb => by
      have hs := h s List.mem_cons_self
      have hd : slice b (pre.length + efiGuidSize) (pre.length + size) = s.data := by
        refine slice_mid (pre ++ s.owner) (sigs.flatMap SignatureData.serialize ++ post) ?_ ?_ ?_
        · simp [hb, SignatureData.serialize]
        · simp [s.owner_length]
        · omega
      have hl : pre.length + size = (pre ++ s.serialize).length := by
        simp only [SignatureData.serialize, List.length_append, s.owner_length, hs]
        omega
      rw [List.length_cons, List.range'_succ, List.any_cons, List.any_cons, hd, hl,
        any_entries hsize (fun t ht => h t (List.mem_cons_of_mem _ ht)) post (by simp [hb])]

/-- The loop body on a well-formed list. -/
theorem searchEntries_list {der b pre post : Bytes} (hder : der ≠ []) (l : SignatureList)
    (hb : b = pre ++ l.serialize ++ post) :
    searchEntries der b pre.length l.listSize l.header.length l.signatureSize
      = .ok (decide (l.Stores der)) := by
  have htype : slice b pre.length (pre.length + efiGuidSize) = l.signatureType := by
    refine slice_mid pre (l.serialize.drop efiGuidSize ++ post) ?_ rfl ?_
    · simp [hb, SignatureList.serialize, ← l.type_length]
    · rw [l.type_length]
  by_cases hsize : efiGuidSize < l.signatureSize
  · by_cases ht : l.signatureType = x509Guid
    · have hstop : pre.length + l.listSize = pre.length + sigListHeaderSize + l.header.length
          + l.signatures.length * l.signatureSize := by
        rw [SignatureList.listSize]; omega
      have hstart : pre.length + sigListHeaderSize + l.header.length
          = (pre ++ l.signatureType ++ (leU32 l.listSize ++ leU32 l.header.length ++
              leU32 l.signatureSize) ++ l.header).length := by
        simp only [List.length_append, l.type_length, length_leU32, sigListHeaderSize,
          efiUint32Size]
        omega
      rw [searchEntries, if_pos ⟨htype.trans ht, hsize⟩]
      simp only [hstop]
      rw [range_mul (by omega)]
      simp only [hstart]
      rw [any_entries hsize l.data_length post (by simp [hb, SignatureList.serialize])]
      simp only [SignatureList.Stores, ht, true_and]
      congr 1
      rw [Bool.eq_iff_iff]
      simp
    · rw [searchEntries, if_neg (by rw [htype]; exact fun h => ht h.1)]
      simp [SignatureList.Stores, ht]
  · -- signatures without data hold no certificate
    rw [searchEntries, if_neg (fun h => hsize h.2)]
    have : ¬ l.Stores der := by
      rintro ⟨-, s, hs, rfl⟩
      refine hder (List.eq_nil_of_length_eq_zero ?_)
      rw [l.data_length s hs]
      omega
    simp [this]

/-- The walk visits well-formed lists one after the other, whatever precedes them. -/
theorem searchLists_serialize {der : Bytes} (hder : der ≠ []) :
    ∀ (ls : List SignatureList) (pre : Bytes),
      searchLists der (pre ++ ls.flatMap SignatureList.serialize) pre.length
        = .ok (decide (∃ l ∈ ls, l.Stores der))
  | [], pre => by
      rw [searchLists, if_neg (by simp [sigListHeaderSize, efiGuidSize, efiUint32Size])]
      simp
  | l :: ls, pre => by
      have hlen := l.length_serialize
      have hsize : sigListHeaderSize ≤ l.listSize := by rw [SignatureList.listSize]; omega
      have hb : pre ++ (l :: ls).flatMap SignatureList.serialize
          = pre ++ l.serialize ++ ls.flatMap SignatureList.serialize := by simp
      have hhdr : unpackU32x3 (pre ++ l.serialize ++ ls.flatMap SignatureList.serialize)
          (pre.length + efiGuidSize) = .ok (l.listSize, l.header.length, l.signatureSize) := by
        have := l.listSize_lt
        exact unpackU32x3_pack (pre ++ l.signatureType)
          (l.header ++ l.signatures.flatMap SignatureData.serialize ++
            ls.flatMap SignatureList.serialize) l.listSize_lt (by omega) l.size_lt
          (by simp only [SignatureList.serialize, List.append_assoc])
          (by simp [l.type_length])
      rw [hb, searchLists, if_pos (by simp only [List.length_append]; omega), hhdr]
      simp only
      rw [if_neg (by simp [sigListHeaderSize, efiGuidSize] at hsize; omega),
        searchEntries_list hder l rfl]
      have ih := searchLists_serialize hder ls (pre ++ l.serialize)
      rw [List.length_append, hlen] at ih
      by_cases hl : l.Stores der
      · simp [hl]
      · simp only [hl, decide_false, ih, List.exists_mem_cons_iff, false_or]

theorem isCert_serialize {der attrs : Bytes} (hder : der ≠ []) (hattrs : attrs.length = efiUint32Size)
    (ls : List SignatureList) : isCertInSignatureList der (attrs ++ ls.flatMap SignatureList.serialize) =
      .ok (decide (∃ l ∈ ls, l.Stores der)) := by
  have h := searchLists_serialize hder ls []
  rw [List.nil_append, List.length_nil] at h
  rw [isCertInSignatureList, List.drop_left' hattrs, h]

/-- CORRECT: behind any four attribute bytes, a certificate is found in well-formed lists exactly
    when an X.509 list stores it. -/
theorem isCert_wellFormed {der attrs : Bytes} (hder : der ≠ []) (hattrs : attrs.length = efiUint32Size)
    (ls : List SignatureList) :
    isCertInSignatureList der (attrs ++ ls.flatMap SignatureList.serialize) = .ok true
      ↔ ∃ l ∈ ls, l.signatureType = x509Guid ∧ ∃ s ∈ l.signatures, s.data = der := by
  have hdrop : (attrs ++ ls.flatMap SignatureList.serialize).drop efiUint32Size
      = ls.flatMap SignatureList.serialize := List.drop_left' hattrs
  have h := searchLists_serialize hder ls []
  rw [List.nil_append, List.length_nil] at h
  rw [isCertInSignatureList, hdrop, h, Except.ok.injEq, decide_eq_true_iff]
  rfl

/-- An X.509 list of two signatures with one byte each, behind a header. -/
def oneByteList : SignatureList where
  signatureType := x509Guid
  header := [0xff, 0xff, 0xff]
  signatureSize := 17
  signatures := [⟨List.replicate 16 0, [0x31], rfl⟩, ⟨List.replicate 16 1, [0x30], rfl⟩]
  type_length := length_x509Guid
  guid_le_size := by decide
  data_length := by decide
  size_lt := by decide
  listSize_lt := by decide

theorem stores_oneByteList : oneByteList.Stores [0x30] := by decide

/-- A list of one SHA-256 digest. -/
def digestList : SignatureList where
  signatureType := [0x26, 0x16, 0xc4, 0xc1, 0x4c, 0x50, 0x92, 0x40, 0xac, 0xa9, 0x41, 0xf9, 0x36, 0x93, 0x43, 0x28]
  header := []
  signatureSize := 48
  signatures := [⟨List.replicate 16 0, List.replicate 32 0x30, rfl⟩]
  type_length := rfl
  guid_le_size := by decide
  data_length := by decide
  size_lt := by decide
  listSize_lt := by decide

/-- A certificate is found between lists of another type, and nothing is found in these. -/
theorem isCert_oneByteList :
    let efivar := [7, 0, 0, 0] ++ [digestList, oneByteList, digestList].flatMap SignatureList.serialize
    isCertInSignatureList [0x30] efivar = .ok true ∧
      isCertInSignatureList (List.replicate 32 0x30) efivar ≠ .ok true := by
  intro efivar
  refine ⟨(isCert_wellFormed (by decide) rfl [digestList, oneByteList, digestList]).mpr ?_, fun h => ?_⟩
  · exact ⟨oneByteList, by simp, stores_oneByteList⟩
  · obtain ⟨l, hl, hstores⟩ := (isCert_wellFormed (by decide) rfl [digestList, oneByteList, digestList]).mp h
    have hnone : ¬oneByteList.Stores (List.replicate 32 0x30) ∧ ¬digestList.Stores (List.replicate 32 0x30) := by
      decide
    simp only [List.mem_cons, List.not_mem_nil, or_false] at hl
    rcases hl with rfl | rfl | rfl
    · exact hnone.2 hstores
    · exact hnone.1 hstores
    · exact hnone.2 hstores

/-! ### Lookup in arbitrary bytes -/

variable (data : Bytes)

/-- The `SignatureType` bytes of the list at `off`. -/
def typeAt (off : ℕ) : Bytes := slice data off (off + efiGuidSize)

/-- The `SignatureListSize` field of the list at `off`. -/
def listSizeAt (off : ℕ) : ℕ := fromLE (slice data (off + efiGuidSize) (off + efiGuidSize + 4))

/-- The `SignatureHeaderSize` field of the list at `off`. -/
def headerSizeAt (off : ℕ) : ℕ := fromLE (slice data (off + efiGuidSize + 4) (off + efiGuidSize + 8))

/-- The `SignatureSize` field of the list at `off`. -/
def sigSizeAt (off : ℕ) : ℕ := fromLE (slice data (off + efiGuidSize + 8) (off + efiGuidSize + 12))

/-- A list header fits at `off` and declares a size. -/
def HeaderAt (off : ℕ) : Prop := off + sigListHeaderSize ≤ data.length ∧ listSizeAt data off ≠ 0

/-- The list after the one at `a` starts at `b`. -/
def NextList (a b : ℕ) : Prop := HeaderAt data a ∧ b = a + listSizeAt data a

/-- A list starts at `off`, counted from the first by the declared sizes. -/
def ListAt (off : ℕ) : Prop := Relation.ReflTransGen (NextList data) 0 off ∧ HeaderAt data off

/-- An entry of the X.509 list at `off` starts at `e`, before the declared end of the list. -/
def EntryOf (off e : ℕ) : Prop :=
  typeAt data off = x509Guid ∧ efiGuidSize < sigSizeAt data off ∧
    ∃ k, e = off + sigListHeaderSize + headerSizeAt data off + k * sigSizeAt data off ∧
      e < off + listSizeAt data off

/-- The bytes the code compares for the entry at `e` of the list at `off`. -/
def entryBytes (off e : ℕ) : Bytes := slice data (e + efiGuidSize) (e + sigSizeAt data off)

/-- The entry at `e` lies inside its list, and the list inside the variable. -/
def Inside (off e : ℕ) : Prop :=
  e + sigSizeAt data off ≤ off + listSizeAt data off ∧ off + listSizeAt data off ≤ data.length

variable {data}

theorem unpack_header {off : ℕ} (h : off + sigListHeaderSize ≤ data.length) :
    unpackU32x3 data (off + efiGuidSize)
      = .ok (listSizeAt data off, headerSizeAt data off, sigSizeAt data off) := by
  rw [unpackU32x3, if_pos (by simp only [sigListHeaderSize, efiUint32Size] at h; omega)]
  rfl

/-- The loop body never raises, and succeeds exactly on an entry with the certificate's bytes. -/
theorem searchEntries_spec (der data : Bytes) (off : ℕ) :
    ∃ found, searchEntries der data off (listSizeAt data off) (headerSizeAt data off)
        (sigSizeAt data off) = .ok found ∧
      (found = true ↔ ∃ e, EntryOf data off e ∧ entryBytes data off e = der) := by
  by_cases h : typeAt data off = x509Guid ∧ sigSizeAt data off > efiGuidSize
  · have hpos : 0 < sigSizeAt data off := Nat.zero_lt_of_lt h.2
    have hr : range (off + sigListHeaderSize + headerSizeAt data off) (off + listSizeAt data off)
        (sigSizeAt data off) = .ok _ := if_neg hpos.ne'
    refine ⟨_, (if_pos h).trans (by simp only [hr]; rfl), ?_⟩
    simp only [List.any_eq_true, mem_range' hpos, beq_iff_eq]
    exact ⟨fun ⟨e, he, hd⟩ => ⟨e, ⟨h.1, h.2, he⟩, hd⟩, fun ⟨e, ⟨_, _, he⟩, hd⟩ => ⟨e, he, hd⟩⟩
  · refine ⟨false, by rw [searchEntries]; exact if_neg h, by simp, ?_⟩
    rintro ⟨e, ⟨ht, hs, -⟩, -⟩
    exact absurd ⟨ht, hs⟩ h

/-- An iteration at a header, in terms of what its body finds. -/
theorem iteration_header {der : Bytes} {off : ℕ} (h : HeaderAt data off) {found : Bool}
    (hbody : searchEntries der data off (listSizeAt data off) (headerSizeAt data off)
      (sigSizeAt data off) = .ok found) : iteration der data off
        = .ok (if found then .stop true else .next (off + listSizeAt data off)) := by
  rw [iteration, if_pos h.1, unpack_header h.1]
  simp only [if_neg h.2, hbody]
  cases found <;> rfl

/-- The loop stops where no header fits, or it declares size zero. -/
theorem iteration_stop (der : Bytes) {off : ℕ} (h : ¬ HeaderAt data off) :
    iteration der data off = .ok (.stop false) := by
  rw [iteration]
  by_cases hlen : off + sigListHeaderSize ≤ data.length
  · rw [if_pos hlen, unpack_header hlen]
    exact if_pos (by_contra fun hsize => h ⟨hlen, hsize⟩)
  · exact if_neg hlen

/-- The walk goes on as an iteration says. -/
theorem searchLists_iteration (der data : Bytes) (off : ℕ) : searchLists der data off =
    match iteration der data off with
    | .error e => .error e
    | .ok (.stop found) => .ok found
    | .ok (.next off') => searchLists der data off' := by
  rw [searchLists, iteration]
  split_ifs with hlen
  · rw [unpack_header hlen]
    dsimp only
    split_ifs
    · rfl
    · rcases searchEntries der data off (listSizeAt data off) (headerSizeAt data off) (sigSizeAt data off) with
        e | (_ | _) <;> rfl
  · rfl

/-- From any offset the walk ends without an exception, and succeeds exactly when some list it
    reaches has an entry with the certificate's bytes. -/
theorem searchLists_spec (der data : Bytes) (a : ℕ) :
    ∃ found, searchLists der data a = .ok found ∧
      (found = true ↔ ∃ off e, Relation.ReflTransGen (NextList data) a off ∧ HeaderAt data off ∧
        EntryOf data off e ∧ entryBytes data off e = der) := by
  induction h : data.length - a using Nat.strong_induction_on generalizing a with
  | _ n ih =>
    by_cases hhdr : HeaderAt data a
    · obtain ⟨hlen, hsize⟩ := hhdr
      obtain ⟨found, hbody, hfound⟩ := searchEntries_spec der data a
      have heq : searchLists der data a =
          if found then .ok true else searchLists der data (a + listSizeAt data a) := by
        rw [searchLists_iteration, iteration_header ⟨hlen, hsize⟩ hbody]
        cases found <;> rfl
      cases found with
      | true =>
        obtain ⟨e, he, hd⟩ := hfound.mp rfl
        exact ⟨true, by rw [heq, if_pos rfl], fun _ => ⟨a, e, .refl, ⟨hlen, hsize⟩, he, hd⟩,
          fun _ => rfl⟩
      | false =>
        have hlt : data.length - (a + listSizeAt data a) < n := by
          simp only [sigListHeaderSize, efiGuidSize, efiUint32Size] at hlen
          omega
        obtain ⟨found', hf, hspec⟩ := ih _ hlt (a + listSizeAt data a) rfl
        refine ⟨found', by rw [heq]; exact hf, hspec.trans ⟨?_, ?_⟩⟩
        · rintro ⟨off, e, hr, rest⟩
          exact ⟨off, e, .head ⟨⟨hlen, hsize⟩, rfl⟩ hr, rest⟩
        · rintro ⟨off, e, hr, hoff, he, hd⟩
          obtain rfl | ⟨b, ⟨-, rfl⟩, hr⟩ := hr.cases_head
          · exact absurd (hfound.mpr ⟨e, he, hd⟩) (by simp)
          · exact ⟨off, e, hr, hoff, he, hd⟩
    · refine ⟨false, by rw [searchLists_iteration, iteration_stop der hhdr], by simp, ?_⟩
      rintro ⟨off, e, hr, hoff, -⟩
      obtain rfl | ⟨b, hb, -⟩ := hr.cases_head
      · exact absurd hoff hhdr
      · exact absurd hb.1 hhdr

/-- Some entry of a list the walk reaches has exactly the bytes `der`, and is inside its list and
    the variable. -/
def StoredIn (der data : Bytes) : Prop :=
  ∃ off e, ListAt data off ∧ EntryOf data off e ∧ Inside data off e ∧ entryBytes data off e = der

/-- Some entry of a list the walk reaches runs past the end of its list or of the variable, and what
    the slice leaves of it is `der`. -/
def OverrunIn (der data : Bytes) : Prop :=
  ∃ off e, ListAt data off ∧ EntryOf data off e ∧ ¬ Inside data off e ∧ entryBytes data off e = der

/-- A positive answer means a stored entry or an overrunning one. -/
theorem isCert_iff (der efivar : Bytes) :
    isCertInSignatureList der efivar = .ok true
      ↔ StoredIn der (efivar.drop efiUint32Size) ∨ OverrunIn der (efivar.drop efiUint32Size) := by
  obtain ⟨found, hf, hspec⟩ := searchLists_spec der (efivar.drop efiUint32Size) 0
  rw [isCertInSignatureList, hf, Except.ok.injEq, hspec]
  constructor
  · rintro ⟨off, e, hr, hoff, he, hd⟩
    by_cases hin : Inside (efivar.drop efiUint32Size) off e
    · exact Or.inl ⟨off, e, ⟨hr, hoff⟩, he, hin, hd⟩
    · exact Or.inr ⟨off, e, ⟨hr, hoff⟩, he, hin, hd⟩
  · rintro (⟨off, e, ⟨hr, hoff⟩, he, -, hd⟩ | ⟨off, e, ⟨hr, hoff⟩, he, -, hd⟩) <;>
      exact ⟨off, e, hr, hoff, he, hd⟩

/-- CORRECT: a positive answer is sound, i.e. the certificate is the complete data of a signature
    inside an X.509 list inside the variable, exactly when no overrunning entry is cut to the
    certificate's bytes or the certificate is stored as well. -/
theorem isCert_sound_iff (der efivar : Bytes) :
    (isCertInSignatureList der efivar = .ok true → StoredIn der (efivar.drop efiUint32Size))
      ↔ (OverrunIn der (efivar.drop efiUint32Size) → StoredIn der (efivar.drop efiUint32Size)) := by
  rw [isCert_iff]
  exact ⟨fun h ho => h (Or.inr ho), fun h => Or.rec id h⟩

/-- A variable that ends two bytes into the four-byte data of its only signature. -/
def truncatedVariable : Bytes :=
  [7, 0, 0, 0] ++ x509Guid ++ (leU32 48 ++ leU32 0 ++ leU32 20) ++ List.replicate 16 0 ++ [0x30, 0x82]

/-- The first two bytes of a truncated signature are taken for a certificate. -/
theorem truncated_signature_accepted :
    isCertInSignatureList [0x30, 0x82] truncatedVariable = .ok true ∧
      ¬ StoredIn [0x30, 0x82] (truncatedVariable.drop efiUint32Size) := by
  have hsize : listSizeAt (truncatedVariable.drop efiUint32Size) 0 = 48 := by decide
  have hhdr : HeaderAt (truncatedVariable.drop efiUint32Size) 0 := ⟨by decide, by decide⟩
  have hout : ∀ off e, ListAt (truncatedVariable.drop efiUint32Size) off →
      ¬ Inside (truncatedVariable.drop efiUint32Size) off e := by
    -- the only list starts at 0 and declares 48 bytes, two more than there are
    rintro off e ⟨hr, hoff⟩ hin
    have hend : ¬ HeaderAt (truncatedVariable.drop efiUint32Size) 48 := fun h =>
      absurd h.1 (by decide)
    obtain rfl | ⟨b, ⟨-, rfl⟩, hr⟩ := hr.cases_head
    · exact absurd hin.2 (by decide)
    · rw [hsize, Nat.zero_add] at hr
      obtain rfl | ⟨c, hc, -⟩ := hr.cases_head
      · exact hend hoff
      · exact hend hc.1
  refine ⟨(isCert_iff _ _).mpr (Or.inr ⟨0, 28, ⟨.refl, hhdr⟩, ?_, hout 0 28 ⟨.refl, hhdr⟩, ?_⟩), ?_⟩
  · exact ⟨by decide, by decide, 0, by decide, by decide⟩
  · decide
  · rintro ⟨off, e, hl, -, hin, -⟩
    exact hout off e hl hin

/-! ### The loop, iteration by iteration -/

theorem sigListHeaderSize_eq : sigListHeaderSize = efiGuidSize + 12 := rfl

/-- Where a header is read, the bytes of its sizes are inside the data. -/
theorem sizes_inside {off : ℕ} (h : off + sigListHeaderSize ≤ data.length) :
    off + efiGuidSize + 12 ≤ data.length := by
  rw [sigListHeaderSize_eq] at h
  omega

/-- Where entries are gone through, the step of the range is not zero. -/
theorem range_entries (start stop : ℕ) {off : ℕ} (h : efiGuidSize < sigSizeAt data off) :
    ∃ offsets, range start stop (sigSizeAt data off) = .ok offsets := by
  have hpos : sigSizeAt data off ≠ 0 := by omega
  exact ⟨_, if_neg hpos⟩

theorem iteration_ok (der data : Bytes) (off : ℕ) : ∃ outcome, iteration der data off = .ok outcome := by
  by_cases h : HeaderAt data off
  · obtain ⟨found, hbody, -⟩ := searchEntries_spec der data off
    exact ⟨_, iteration_header h hbody⟩
  · exact ⟨_, iteration_stop der h⟩

/-- An iteration that goes on does so from a header, at the offset behind its list. -/
theorem iteration_next {der : Bytes} {off off' : ℕ} (h : iteration der data off = .ok (.next off')) :
    HeaderAt data off ∧ off' = off + listSizeAt data off := by
  by_cases hhdr : HeaderAt data off
  · obtain ⟨found, hbody, -⟩ := searchEntries_spec der data off
    rw [iteration_header hhdr hbody] at h
    cases found with
    | true => simp at h
    | false =>
      simp only [Bool.false_eq_true, if_false, Except.ok.injEq, While.Outcome.next.injEq] at h
      exact ⟨hhdr, h.symm⟩
  · rw [iteration_stop der hhdr] at h
    cases h

/-- The offset grows in every iteration that goes on. -/
theorem iteration_progress {der : Bytes} {off off' : ℕ} (h : iteration der data off = .ok (.next off')) :
    off < off' ∧ off < data.length := by
  obtain ⟨⟨hlen, hsize⟩, rfl⟩ := iteration_next h
  rw [sigListHeaderSize_eq] at hlen
  omega

/-- A loop that ends has the answer of the walk. -/
theorem searchLists_of_runFor {der : Bytes} {fuel off : ℕ} {found : Bool}
    (h : While.runFor (iteration der data) fuel off = some (.ok found)) :
    searchLists der data off = .ok found := by
  induction fuel generalizing off with
  | zero => cases h
  | succ fuel ih =>
    rw [searchLists_iteration]
    obtain ⟨outcome, hit⟩ := iteration_ok der data off
    rw [hit]
    cases outcome with
    | stop answer =>
      rw [While.runFor_stop hit] at h
      cases h
      rfl
    | next off' =>
      rw [While.runFor_next hit] at h
      exact ih h

/-- CORRECT: for every variable and certificate the loop ends, within one more iteration than there are
    bytes, with an answer and no exception: the sizes are inside the data when they are read, no range
    has step zero, and the offset grows in every iteration that goes on. -/
theorem isCert_terminates (der efivar : Bytes) :
    let data := efivar.drop efiUint32Size
    (∃ found, While.runFor (iteration der data) (data.length + 1) 0 = some (.ok found) ∧
      isCertInSignatureList der efivar = .ok found) ∧
    (∀ off, off + sigListHeaderSize ≤ data.length → off + efiGuidSize + 12 ≤ data.length ∧
      ∃ sizes, unpackU32x3 data (off + efiGuidSize) = .ok sizes) ∧
    (∀ off, efiGuidSize < sigSizeAt data off → sigSizeAt data off ≠ 0 ∧
      ∀ start stop, ∃ offsets, range start stop (sigSizeAt data off) = .ok offsets) ∧
    ∀ off off', iteration der data off = .ok (.next off') → off < off' := by
  intro data
  refine ⟨?_, ?_, ?_, ?_⟩
  · have hdec : ∀ off off', iteration der data off = .ok (.next off') →
        data.length - off' < data.length - off := by
      intro off off' h
      have hprogress := iteration_progress h
      omega
    obtain ⟨found, hrun⟩ := While.runFor_terminates (iteration_ok der data) hdec
      (show data.length - 0 < data.length + 1 by omega)
    exact ⟨found, hrun, searchLists_of_runFor hrun⟩
  · intro off h
    exact ⟨sizes_inside h, _, unpack_header h⟩
  · intro off h
    exact ⟨by omega, fun start stop => range_entries start stop h⟩
  · intro off off' h
    exact (iteration_progress h).1

end Efi
