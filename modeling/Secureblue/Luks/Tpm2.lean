import Mathlib.Data.Option.Basic
import Mathlib.Logic.Function.Basic
import Secureblue.Luks.Crypttab
import Secureblue.Pipeline

/-! The keyslot that luks-enable-tpm2-autounlock.sh gives priority.

    The script takes the dump of the LUKS header once, before the old token is wiped and the new one
    enrolled, and reads the number of the keyslot from it. Without a token there it gives no priority at
    all; otherwise the run ends well only if the new keyslot has the old number. -/

namespace Luks
open Py Pipeline

/-! ### The header -/

/-- `systemd-tpm2` -/
def systemdTpm2 : Text := "systemd-tpm2"

def keyslotName : Text := "Keyslot"

/-- The priority of a keyslot. -/
inductive Priority where
  | ignore
  | normal
  | prefer
  deriving DecidableEq, Repr

/-- A token of the header; its type is one word. -/
structure Token where
  id : ℕ
  type : Text
  keyslots : List ℕ
  word : ∀ c ∈ type, isBlank c = false

/-- The keyslots in use with their priorities, and the tokens, which refer to such keyslots. -/
structure Header where
  keyslots : ℕ → Option Priority
  tokens : List Token
  referenced : ∀ t ∈ tokens, ∀ slot ∈ t.keyslots, (keyslots slot).isSome

def Token.isTpm2 (t : Token) : Bool := decide (t.type = systemdTpm2)

/-- The keyslots that tokens of TPM2 refer to. -/
def Header.tpm2Keyslots (header : Header) : List ℕ := (header.tokens.filter Token.isTpm2).flatMap Token.keyslots

theorem Header.mem_tpm2Keyslots {header : Header} {slot : ℕ} :
    slot ∈ header.tpm2Keyslots ↔ ∃ t ∈ header.tokens, t.isTpm2 ∧ slot ∈ t.keyslots := by
  simp [tpm2Keyslots, and_assoc]

/-! ### What the commands do to it -/

/-- `systemd-cryptenroll --wipe-slot=tpm2` -/
def Header.wipeTpm2 (header : Header) : Header where
  keyslots slot := if slot ∈ header.tpm2Keyslots then none else header.keyslots slot
  tokens := (header.tokens.filter fun t => !t.isTpm2).map fun t =>
    { t with keyslots := t.keyslots.filter fun slot => decide (slot ∉ header.tpm2Keyslots) }
  referenced := by
    intro t ht slot hslot
    obtain ⟨u, hu, rfl⟩ := List.mem_map.mp ht
    obtain ⟨hmem, hnot⟩ := List.mem_filter.mp hslot
    rw [if_neg (of_decide_eq_true hnot)]
    exact header.referenced u (List.mem_filter.mp hu).1 slot hmem

/-- `systemd-cryptenroll --tpm2-device=auto`: a keyslot and a token for it. -/
def Header.enroll (header : Header) (id slot : ℕ) : Header where
  keyslots := Function.update header.keyslots slot (some .normal)
  tokens := header.tokens ++ [⟨id, systemdTpm2, [slot], by decide⟩]
  referenced := by
    intro t ht s hs
    rw [Function.update_apply]
    split
    · rfl
    · next hne =>
      rcases List.mem_append.mp ht with ht | ht
      · exact header.referenced t ht s hs
      · rw [List.mem_singleton.mp ht] at hs
        exact absurd (List.mem_singleton.mp hs) hne

/-- `cryptsetup config --key-slot slot --priority prefer` -/
def Header.config (header : Header) (slot : ℕ) : Header where
  keyslots := Function.update header.keyslots slot (some .prefer)
  tokens := header.tokens
  referenced := by
    intro t ht s hs
    rw [Function.update_apply]
    split
    · rfl
    · exact header.referenced t ht s hs

section
variable (header : Header) {id slot s : ℕ}

theorem Header.wipeTpm2_keyslots : header.wipeTpm2.keyslots slot
    = if slot ∈ header.tpm2Keyslots then none else header.keyslots slot := rfl

@[simp] theorem Header.enroll_self : (header.enroll id slot).keyslots slot = some .normal :=
  Function.update_self _ _ _

theorem Header.enroll_of_ne (h : s ≠ slot) : (header.enroll id slot).keyslots s = header.keyslots s :=
  Function.update_of_ne h _ _

@[simp] theorem Header.config_self : (header.config slot).keyslots slot = some .prefer :=
  Function.update_self _ _ _

theorem Header.config_of_ne (h : s ≠ slot) : (header.config slot).keyslots s = header.keyslots s :=
  Function.update_of_ne h _ _

end

/-- The lines of the dump of a header that are about other things than types of tokens and their keyslots:
    those before the tokens, those that a token has besides, and those behind the tokens. The header has
    no label that names the type. -/
structure Cryptsetup where
  preamble : Header → List Text
  details : Token → List Text
  closing : Header → List Text
  preamble_plain : ∀ header, ∀ line ∈ preamble header, ¬systemdTpm2 <:+: line
  details_plain : ∀ t, ∀ line ∈ details t, ¬systemdTpm2 <:+: line ∧ ¬keyslotName <:+: line
  closing_plain : ∀ header, ∀ line ∈ closing header, ¬systemdTpm2 <:+: line ∧ ¬keyslotName <:+: line

/-- `  0: systemd-tpm2` -/
def Token.typeLine (t : Token) : Text := ' ' :: ' ' :: ((Nat.toDigits 10 t.id ++ [':']) ++ ' ' :: t.type)

/-- `Keyslot:    1` behind a tab -/
def keyslotLine (slot : ℕ) : Text :=
  '\t' :: ((keyslotName ++ [':']) ++ ' ' :: ' ' :: ' ' :: ' ' :: Nat.toDigits 10 slot)

/-- The lines of a token. -/
def Cryptsetup.tokenLines (tool : Cryptsetup) (t : Token) : List Text :=
  t.typeLine :: (tool.details t ++ t.keyslots.map keyslotLine)

/-- `cryptsetup luksDump` -/
def Cryptsetup.luksDump (tool : Cryptsetup) (header : Header) : List Text :=
  tool.preamble header ++ header.tokens.flatMap tool.tokenLines ++ tool.closing header

/-- The number in the argument of `--key-slot`. -/
def slotNumber (arg : Text) : Option ℕ :=
  if arg ≠ [] ∧ ∀ c ∈ arg, c.isDigit then some (Nat.ofDigitChars 10 arg 0) else none

/-! ### The script -/

/-- `grep systemd-tpm2` -/
def mentionsTpm2 (line : Text) : Bool := decide (systemdTpm2 <:+: line)

/-- `/systemd-tpm2$/` -/
def endsInTpm2 (line : Text) : Bool := endsWith line systemdTpm2

/-- `/Keyslot:/` -/
def namesKeyslot (line : Text) : Bool := decide (keyslotName ++ [':'] <:+: line)

/-- `grep Keyslot` -/
def mentionsKeyslot (line : Text) : Bool := decide (keyslotName <:+: line)

/-- `sed -n '/systemd-tpm2$/,/Keyslot:/p'` -/
def sedTpm2 (cryptDiskInfo : List Text) : List Text := range endsInTpm2 namesKeyslot false cryptDiskInfo

/-- `new_KEYSLOT`, and `existing_KEYSLOT`, which is only printed. -/
def newKeyslot (cryptDiskInfo : List Text) : Text :=
  substitution (((sedTpm2 cryptDiskInfo).filter mentionsKeyslot).map second)

/-- What the commands of a run have for results. -/
structure Enrolment where
  wiped : Bool
  enrolled : Bool
  /-- the token and the keyslot that are added -/
  id : ℕ
  slot : ℕ
  /-- The initramfs has the TPM2 module, or gets it. -/
  initramfs : Bool

section
variable (tool : Cryptsetup) (disk : Disk) (session : Session) (enrolment : Enrolment)

/-- "Wipe it and re-enroll?" -/
def wipeExisting (cryptDiskInfo : List Text) (header : Header) : Option Header :=
  if cryptDiskInfo.any mentionsTpm2 then do
    guard (session.reenroll ∈ [("Y" : Text), "y"])
    guard enrolment.wiped
    return header.wipeTpm2
  else some header

/-- "Run crypt enroll"; the keyslot is a fresh one. -/
def runCryptEnroll (header : Header) : Option Header := do
  guard enrolment.enrolled
  guard (header.keyslots enrolment.slot = none)
  return header.enroll enrolment.id enrolment.slot

/-- "Sets the new tpm keyslot as preferred if it's the only one currently configured." -/
def preferKeyslot (cryptDiskInfo : List Text) (header : Header) : Option Header :=
  if (cryptDiskInfo.filter mentionsTpm2).length = 1 then do
    let slot ← slotNumber (newKeyslot cryptDiskInfo)
    guard (header.keyslots slot).isSome
    return header.config slot
  else some header

/-- luks-enable-tpm2-autounlock.sh: the header after a completed run, or `none` if it exits before. -/
def enableTpm2Autounlock (header : Header) : Option Header := do
  checks disk session
  let cryptDiskInfo := tool.luksDump header
  let header ← wipeExisting session enrolment cryptDiskInfo header
  let header ← runCryptEnroll enrolment header
  let header ← preferKeyslot cryptDiskInfo header
  guard enrolment.initramfs
  return header

end

/-! ### What it is for -/

/-- The one token of TPM2 that the header has now refers to the keyslot with priority, and no other
    keyslot has another priority than before. -/
def Preferred (header header' : Header) : Prop :=
  ∀ t, header'.tokens.filter Token.isTpm2 = [t] → ∃ slot, t.keyslots = [slot] ∧
    header'.keyslots slot = some .prefer ∧
      ∀ s p, s ≠ slot → header'.keyslots s = some p → header.keyslots s = some p

/-- Of the types of tokens, one names the type of TPM2 tokens; it is that type, and the token has a
    keyslot. -/
def Reenrolls (header : Header) : Prop :=
  ∃ t, header.tokens.filter (fun t => mentionsTpm2 t.type) = [t] ∧ t.isTpm2 ∧ t.keyslots ≠ []

/-! ### The dump -/

theorem isDigit_of_mem_toDigits {n : ℕ} {c : Char} (h : c ∈ Nat.toDigits 10 n) : c.isDigit :=
  Nat.isDigit_of_mem_toDigits (by decide) (by decide) h

theorem not_mem_toDigits {n : ℕ} {c : Char} (h : c.isDigit = false) : c ∉ Nat.toDigits 10 n := by
  intro hc
  rw [isDigit_of_mem_toDigits hc] at h
  cases h

section
variable {tool : Cryptsetup} {header : Header}

/-- The type of a token comes behind characters that it does not start with. -/
theorem infix_typeLine {c : Char} {p : Text} (t : Token)
    (hc : c ≠ ' ' ∧ c ≠ ':' ∧ c.isDigit = false) : c :: p <:+: t.typeLine ↔ c :: p <:+: t.type := by
  have hfront : c ∉ ' ' :: ' ' :: ((Nat.toDigits 10 t.id ++ [':']) ++ [' ']) := by
    intro h
    simp only [List.mem_cons, List.mem_append, List.not_mem_nil, or_false] at h
    rcases h with h | h | (h | h) | h
    · exact hc.1 h
    · exact hc.1 h
    · exact not_mem_toDigits hc.2.2 h
    · exact hc.2.1 h
    · exact hc.1 h
  have heq : t.typeLine = ' ' :: ' ' :: ((Nat.toDigits 10 t.id ++ [':']) ++ [' ']) ++ t.type := by
    simp [Token.typeLine]
  rw [heq, infix_append_of_head_not_mem hfront]

theorem mentionsTpm2_typeLine (t : Token) : mentionsTpm2 t.typeLine = mentionsTpm2 t.type :=
  decide_eq_decide.mpr (infix_typeLine t (by decide))

theorem mentionsTpm2_keyslotLine (slot : ℕ) : mentionsTpm2 (keyslotLine slot) = false := by
  refine decide_eq_false fun h => ?_
  have hm : 'm' ∈ keyslotLine slot := h.subset (by decide)
  simp only [keyslotLine, List.mem_cons, List.mem_append] at hm
  have hdigits : 'm' ∉ Nat.toDigits 10 slot := not_mem_toDigits (by decide)
  have hname : 'm' ∉ keyslotName := by decide
  simp [hdigits, hname] at hm

/-- Behind the type of a token, nothing names a type. -/
theorem not_mentions_rest (t : Token) :
    ∀ line ∈ tool.details t ++ t.keyslots.map keyslotLine, mentionsTpm2 line = false := by
  intro line hline
  rcases List.mem_append.mp hline with hline | hline
  · exact decide_eq_false (tool.details_plain t line hline).1
  · obtain ⟨slot, -, rfl⟩ := List.mem_map.mp hline
    exact mentionsTpm2_keyslotLine slot

theorem not_mentions_tokenLines {t : Token} (h : mentionsTpm2 t.type = false) :
    ∀ line ∈ tool.tokenLines t, mentionsTpm2 line = false := by
  intro line hline
  rcases List.mem_cons.mp hline with rfl | hline
  · rw [mentionsTpm2_typeLine, h]
  · exact not_mentions_rest t line hline

theorem filter_tokenLines (ts : List Token) : (ts.flatMap tool.tokenLines).filter mentionsTpm2
    = (ts.filter fun t => mentionsTpm2 t.type).map Token.typeLine := by
  induction ts with
  | nil => rfl
  | cons t ts ih =>
    have hrest : (tool.details t ++ t.keyslots.map keyslotLine).filter mentionsTpm2 = [] :=
      List.filter_eq_nil_iff.mpr fun line hline => Bool.eq_false_iff.mp (not_mentions_rest t line hline)
    rw [List.flatMap_cons, List.filter_append, ih, Cryptsetup.tokenLines, List.filter_cons, hrest,
      mentionsTpm2_typeLine]
    by_cases ht : mentionsTpm2 t.type <;> simp [ht]

/-- The dump names the type on the lines of the tokens whose types do. -/
theorem filter_luksDump : (tool.luksDump header).filter mentionsTpm2
    = (header.tokens.filter fun t => mentionsTpm2 t.type).map Token.typeLine := by
  have hpreamble : (tool.preamble header).filter mentionsTpm2 = [] := List.filter_eq_nil_iff.mpr
    fun line hline => Bool.eq_false_iff.mp (decide_eq_false (tool.preamble_plain header line hline))
  have hclosing : (tool.closing header).filter mentionsTpm2 = [] := List.filter_eq_nil_iff.mpr
    fun line hline => Bool.eq_false_iff.mp (decide_eq_false (tool.closing_plain header line hline).1)
  rw [Cryptsetup.luksDump, List.filter_append, List.filter_append, hpreamble, hclosing, List.nil_append,
    List.append_nil, filter_tokenLines]

/-! ### Reading the number of a keyslot -/

theorem not_blank_of_digit {n : ℕ} : ∀ c ∈ Nat.toDigits 10 n, isBlank c = false := by
  intro c hc
  have hdigit := isDigit_of_mem_toDigits hc
  rw [isBlank]
  by_contra h
  simp only [Bool.not_eq_false, Bool.or_eq_true, decide_eq_true_eq] at h
  rcases h with (rfl | rfl) | rfl <;> exact absurd hdigit (by decide)

theorem second_typeLine {t : Token} (hne : t.type ≠ []) : second t.typeLine = t.type := by
  have hid : fields (Nat.toDigits 10 t.id ++ [':']) = [Nat.toDigits 10 t.id ++ [':']] := by
    refine fields_word ?_ (List.append_ne_nil_of_right_ne_nil _ (List.cons_ne_nil _ _))
    intro c hc
    rcases List.mem_append.mp hc with hc | hc
    · exact not_blank_of_digit c hc
    · rw [List.mem_singleton.mp hc]
      rfl
  rw [Token.typeLine, second_cons_blank rfl, second_cons_blank rfl,
    second_append hid rfl (fields_word t.word hne)]

theorem second_keyslotLine (slot : ℕ) : second (keyslotLine slot) = Nat.toDigits 10 slot := by
  have hdigits : fields (' ' :: ' ' :: ' ' :: Nat.toDigits 10 slot) = [Nat.toDigits 10 slot] := by
    rw [fields_cons_blank rfl, fields_cons_blank rfl, fields_cons_blank rfl,
      fields_word not_blank_of_digit Nat.toDigits_ne_nil]
  have hname : fields (keyslotName ++ [':']) = [keyslotName ++ [':']] := by decide +kernel
  rw [keyslotLine, second_cons_blank rfl, second, fields_append_blank rfl, hname, hdigits]
  rfl

theorem slotNumber_toDigits (slot : ℕ) : slotNumber (Nat.toDigits 10 slot) = some slot := by
  rw [slotNumber, if_pos, Nat.ofDigitChars_ten_toDigits]
  exact ⟨Nat.toDigits_ne_nil, fun c hc => isDigit_of_mem_toDigits hc⟩

theorem isDigit_of_slotNumber {arg : Text} {n : ℕ} (h : slotNumber arg = some n) :
    arg ≠ [] ∧ ∀ c ∈ arg, c.isDigit := by
  rw [slotNumber] at h
  split at h
  · next hdigits => exact hdigits
  · cases h

/-- A number is the only word that is read. -/
theorem slotNumber_substitution {ws : List Text} {n : ℕ} (hws : ∀ w ∈ ws, w ≠ [] ∧ '\n' ∉ w)
    (h : slotNumber (substitution ws) = some n) : ∃ w, ws = [w] ∧ slotNumber w = some n := by
  rw [substitution_eq hws] at h
  cases ws with
  | nil => exact absurd rfl (isDigit_of_slotNumber h).1
  | cons w ws =>
    cases ws with
    | nil => exact ⟨w, rfl, by rwa [List.intercalate_singleton] at h⟩
    | cons v ws =>
      have hnewline := (isDigit_of_slotNumber h).2 '\n' (by
        rw [List.intercalate_cons_cons]
        exact List.mem_append_left _ (List.mem_append_right _ (List.mem_singleton_self _)))
      exact absurd hnewline (by decide)

theorem not_start_of_not_mentions {line : Text} (h : mentionsTpm2 line = false) :
    endsInTpm2 line = false := by
  rw [← Bool.not_eq_true, endsInTpm2, endsWith_iff]
  exact fun hends => of_decide_eq_false h hends.isInfix

theorem not_start_preamble : ∀ line ∈ tool.preamble header, endsInTpm2 line = false :=
  fun line hline => not_start_of_not_mentions (decide_eq_false (tool.preamble_plain header line hline))

/-- The lines that are searched for a keyslot are about tokens or behind them. -/
theorem mem_of_mem_sedTpm2 {line : Text} (h : line ∈ sedTpm2 (tool.luksDump header)) :
    (∃ t ∈ header.tokens, line ∈ tool.tokenLines t) ∨ line ∈ tool.closing header := by
  rw [sedTpm2, Cryptsetup.luksDump, List.append_assoc, range_append_of_not_start not_start_preamble] at h
  rcases List.mem_append.mp (mem_of_mem_range h) with h | h
  · exact .inl (List.mem_flatMap.mp h)
  · exact .inr h

/-- A line about a keyslot names one of a token, or it is the odd type of a token. -/
theorem second_of_mem_sedTpm2 {line : Text} (h : line ∈ sedTpm2 (tool.luksDump header))
    (hkeyslot : keyslotName <:+: line) : (second line ≠ [] ∧ '\n' ∉ second line) ∧
      ('K' ∈ second line ∨ ∃ t ∈ header.tokens, ∃ slot ∈ t.keyslots, second line = Nat.toDigits 10 slot) := by
  rcases mem_of_mem_sedTpm2 h with ⟨t, ht, hline⟩ | hline
  · rcases List.mem_cons.mp hline with rfl | hline
    · have htype : keyslotName <:+: t.type := (infix_typeLine t (by decide)).mp hkeyslot
      have hK : 'K' ∈ t.type := htype.subset (by decide)
      have hne : t.type ≠ [] := List.ne_nil_of_mem hK
      rw [second_typeLine hne]
      exact ⟨⟨hne, fun hc => absurd (t.word _ hc) (by decide)⟩, .inl hK⟩
    · rcases List.mem_append.mp hline with hline | hline
      · exact absurd hkeyslot (tool.details_plain t line hline).2
      · obtain ⟨slot, hslot, rfl⟩ := List.mem_map.mp hline
        rw [second_keyslotLine]
        exact ⟨⟨Nat.toDigits_ne_nil, not_mem_toDigits (by decide)⟩,
          .inr ⟨t, ht, slot, hslot, rfl⟩⟩
  · exact absurd hkeyslot (tool.closing_plain header line hline).2

/-- The number that is read is that of a keyslot that a token refers to. -/
theorem mem_of_newKeyslot {slot : ℕ} (h : slotNumber (newKeyslot (tool.luksDump header)) = some slot) :
    ∃ t ∈ header.tokens, slot ∈ t.keyslots := by
  have hwords : ∀ w ∈ ((sedTpm2 (tool.luksDump header)).filter mentionsKeyslot).map second, (w ≠ [] ∧ '\n' ∉ w) ∧
      ('K' ∈ w ∨ ∃ t ∈ header.tokens, ∃ slot ∈ t.keyslots, w = Nat.toDigits 10 slot) := by
    intro w hw
    obtain ⟨line, hline, rfl⟩ := List.mem_map.mp hw
    obtain ⟨hmem, hkeyslot⟩ := List.mem_filter.mp hline
    exact second_of_mem_sedTpm2 hmem (of_decide_eq_true hkeyslot)
  obtain ⟨w, hws, hw⟩ := slotNumber_substitution (fun w hw => (hwords w hw).1) h
  rcases (hwords w (hws ▸ List.mem_singleton_self w)).2 with hK | ⟨t, ht, s, hs, rfl⟩
  · exact absurd ((isDigit_of_slotNumber hw).2 _ hK) (by decide)
  · rw [slotNumber_toDigits] at hw
    cases hw
    exact ⟨t, ht, hs⟩

/-- Of the lines of a token up to its first keyslot, the last one names a keyslot. -/
theorem filter_keyslotName {t : Token} (h : t.type = systemdTpm2) (slot : ℕ) :
    (t.typeLine :: (tool.details t ++ [keyslotLine slot])).filter mentionsKeyslot
      = [keyslotLine slot] := by
  have htype : ¬keyslotName <:+: t.typeLine := by
    intro hinfix
    have hname : keyslotName <:+: t.type := (infix_typeLine t (by decide)).mp hinfix
    exact absurd (h ▸ hname) (by decide +kernel)
  have hdetails : (tool.details t).filter mentionsKeyslot = [] :=
    List.filter_eq_nil_iff.mpr fun line hline h => (tool.details_plain t line hline).2 (of_decide_eq_true h)
  have hline : mentionsKeyslot (keyslotLine slot) := decide_eq_true
    ⟨['\t'], ':' :: ' ' :: ' ' :: ' ' :: ' ' :: Nat.toDigits 10 slot, by simp [keyslotLine]⟩
  rw [List.filter_cons_of_neg (by simpa [mentionsKeyslot] using htype), List.filter_append, hdetails, List.nil_append,
    List.filter_cons_of_pos hline, List.filter_nil]

/-- With one token that names the type, and a keyslot of it, that keyslot is read. -/
theorem newKeyslot_of_reenrolls (h : Reenrolls header) :
    ∃ slot ∈ header.tpm2Keyslots, slotNumber (newKeyslot (tool.luksDump header)) = some slot := by
  obtain ⟨t, hfilter, htpm2, hne⟩ := h
  obtain ⟨pre, post, htokens, hpre, -, hpost⟩ := List.filter_eq_cons_iff.mp hfilter
  obtain ⟨slot, slots, hslots⟩ := List.exists_cons_of_ne_nil hne
  have htype : t.type = systemdTpm2 := of_decide_eq_true htpm2
  have hmem : t ∈ header.tokens := htokens ▸ List.mem_append_right pre List.mem_cons_self
  refine ⟨slot, Header.mem_tpm2Keyslots.mpr ⟨t, hmem, htpm2, hslots ▸ List.mem_cons_self⟩, ?_⟩
  have hbefore : ∀ line ∈ tool.preamble header ++ pre.flatMap tool.tokenLines,
      endsInTpm2 line = false := by
    intro line hline
    rcases List.mem_append.mp hline with hline | hline
    · exact not_start_preamble line hline
    · obtain ⟨u, hu, hline⟩ := List.mem_flatMap.mp hline
      refine not_start_of_not_mentions (not_mentions_tokenLines ?_ line hline)
      exact Bool.eq_false_iff.mpr (hpre u hu)
  have hafter : ∀ line ∈ slots.map keyslotLine ++ (post.flatMap tool.tokenLines ++ tool.closing header),
      endsInTpm2 line = false := by
    intro line hline
    refine not_start_of_not_mentions ?_
    rcases List.mem_append.mp hline with hline | hline
    · obtain ⟨s, -, rfl⟩ := List.mem_map.mp hline
      exact mentionsTpm2_keyslotLine s
    · rcases List.mem_append.mp hline with hline | hline
      · obtain ⟨u, hu, hline⟩ := List.mem_flatMap.mp hline
        refine not_mentions_tokenLines ?_ line hline
        exact Bool.eq_false_iff.mpr (List.filter_eq_nil_iff.mp hpost u hu)
      · exact decide_eq_false (tool.closing_plain header line hline).1
  have hstart : endsInTpm2 t.typeLine := by
    rw [endsInTpm2, endsWith_iff, Token.typeLine, htype]
    exact ⟨' ' :: ' ' :: ((Nat.toDigits 10 t.id ++ [':']) ++ [' ']), by simp⟩
  have hdetails : ∀ line ∈ tool.details t, namesKeyslot line = false := by
    intro line hline
    refine decide_eq_false fun h => (tool.details_plain t line hline).2 ?_
    exact (List.prefix_append keyslotName [':']).isInfix.trans h
  have hstop : namesKeyslot (keyslotLine slot) :=
    decide_eq_true ⟨['\t'], ' ' :: ' ' :: ' ' :: ' ' :: Nat.toDigits 10 slot, by simp [keyslotLine]⟩
  have hdump : tool.luksDump header = (tool.preamble header ++ pre.flatMap tool.tokenLines) ++
      t.typeLine :: (tool.details t ++ keyslotLine slot ::
        (slots.map keyslotLine ++ (post.flatMap tool.tokenLines ++ tool.closing header))) := by
    simp [Cryptsetup.luksDump, htokens, Cryptsetup.tokenLines, hslots]
  have hrange : sedTpm2 (tool.luksDump header) = t.typeLine :: (tool.details t ++ [keyslotLine slot]) := by
    rw [sedTpm2, hdump, range_append_of_not_start hbefore, range_start hstart,
      range_append_of_not_stop hdetails, range_stop hstop, range_of_not_start hafter]
  have hword : ∀ w ∈ [Nat.toDigits 10 slot], w ≠ [] ∧ '\n' ∉ w := by
    intro w hw
    rw [List.mem_singleton.mp hw]
    exact ⟨Nat.toDigits_ne_nil, not_mem_toDigits (by decide)⟩
  rw [newKeyslot, hrange, filter_keyslotName htype, List.map_singleton, second_keyslotLine,
    substitution_eq hword, List.intercalate_singleton, slotNumber_toDigits]

end

/-! ### A run -/

section
variable {header header' : Header}

theorem mentionsTpm2_of_isTpm2 {t : Token} (h : t.isTpm2) : mentionsTpm2 t.type :=
  decide_eq_true (of_decide_eq_true h ▸ List.infix_rfl)

/-- Without a token of TPM2 there is nothing to wipe. -/
theorem wipeTpm2_eq_self (h : ∀ t ∈ header.tokens, t.isTpm2 = false) : header.wipeTpm2 = header := by
  have hslots : header.tpm2Keyslots = [] := by
    rw [List.eq_nil_iff_forall_not_mem]
    intro slot hslot
    obtain ⟨t, ht, htpm2, -⟩ := Header.mem_tpm2Keyslots.mp hslot
    simp [h t ht] at htpm2
  have htokens : (header.tokens.filter fun t => !t.isTpm2) = header.tokens :=
    List.filter_eq_self.mpr fun t ht => by simp [h t ht]
  obtain ⟨keyslots, tokens, _⟩ := header
  simp only [Header.wipeTpm2, hslots, htokens]
  simp

/-- No token of TPM2 is left, and no keyslot of one. -/
theorem not_isTpm2_wipe : header.wipeTpm2.tokens.filter Token.isTpm2 = [] := by
  rw [List.filter_eq_nil_iff]
  intro t ht
  obtain ⟨u, hu, rfl⟩ := List.mem_map.mp ht
  have hnot := (List.mem_filter.mp hu).2
  simpa [Token.isTpm2] using hnot

theorem mem_of_wipe_keyslots {slot : ℕ} (h : header.wipeTpm2.keyslots slot = none)
    (hused : (header.keyslots slot).isSome) : slot ∈ header.tpm2Keyslots := by
  by_contra hnot
  rw [Header.wipeTpm2_keyslots, if_neg hnot] at h
  rw [h] at hused
  cases hused

theorem keyslots_of_wipe {slot : ℕ} {p : Priority} (h : header.wipeTpm2.keyslots slot = some p) :
    header.keyslots slot = some p := by
  rw [Header.wipeTpm2_keyslots] at h
  split at h
  · cases h
  · exact h

variable {tool : Cryptsetup} {disk : Disk} {session : Session} {enrolment : Enrolment}

/-- Whatever the dump says, an enrolment starts from the wiped header. -/
theorem wipeExisting_eq (h : wipeExisting session enrolment (tool.luksDump header) header = some header') :
    header' = header.wipeTpm2 := by
  rw [wipeExisting] at h
  split at h
  · simp only [Option.bind_eq_bind, Option.bind_eq_some_iff] at h
    obtain ⟨_, -, _, -, h⟩ := h
    exact (Option.some.inj h).symm
  · next hany =>
    have hnone : ∀ t ∈ header.tokens, t.isTpm2 = false := by
      intro t ht
      rw [← Bool.not_eq_true]
      intro htpm2
      refine hany (List.any_eq_true.mpr ⟨t.typeLine, ?_, ?_⟩)
      · refine List.mem_append_left _ (List.mem_append_right _ (List.mem_flatMap.mpr ⟨t, ht, ?_⟩))
        exact List.mem_cons_self
      · rw [mentionsTpm2_typeLine, mentionsTpm2_of_isTpm2 htpm2]
    rw [wipeTpm2_eq_self hnone, Option.some.inj h]

/-- What a completed run does. -/
theorem enableTpm2Autounlock_cases
    (h : enableTpm2Autounlock tool disk session enrolment header = some header') :
    header.wipeTpm2.keyslots enrolment.slot = none ∧
      (((tool.luksDump header).filter mentionsTpm2).length ≠ 1 ∧
          header' = header.wipeTpm2.enroll enrolment.id enrolment.slot ∨
        ((tool.luksDump header).filter mentionsTpm2).length = 1 ∧
          ∃ slot, slotNumber (newKeyslot (tool.luksDump header)) = some slot ∧
            ((header.wipeTpm2.enroll enrolment.id enrolment.slot).keyslots slot).isSome ∧
              header' = (header.wipeTpm2.enroll enrolment.id enrolment.slot).config slot) := by
  simp only [enableTpm2Autounlock, Option.bind_eq_bind, Option.bind_eq_some_iff] at h
  obtain ⟨_, -, wiped, hwiped, enrolled, henrolled, preferred, hpreferred, _, -, h⟩ := h
  obtain rfl := Option.some.inj h
  obtain rfl := wipeExisting_eq hwiped
  simp only [runCryptEnroll, Option.bind_eq_bind, Option.bind_eq_some_iff, Option.guard_eq_some'] at henrolled
  obtain ⟨_, -, _, hfresh, henrolled⟩ := henrolled
  obtain rfl := Option.some.inj henrolled
  refine ⟨hfresh, ?_⟩
  rw [preferKeyslot] at hpreferred
  split at hpreferred
  · next hone =>
    simp only [Option.bind_eq_bind, Option.bind_eq_some_iff, Option.guard_eq_some'] at hpreferred
    obtain ⟨slot, hslot, _, hused, hpreferred⟩ := hpreferred
    exact .inr ⟨hone, slot, hslot, hused, (Option.some.inj hpreferred).symm⟩
  · next hone => exact .inl ⟨hone, (Option.some.inj hpreferred).symm⟩

/-! ### Which keyslot is preferred -/

theorem filter_enroll (id slot : ℕ) : ∃ t, t.keyslots = [slot] ∧
    (header.wipeTpm2.enroll id slot).tokens.filter Token.isTpm2 = [t] := by
  refine ⟨⟨id, systemdTpm2, [slot], by decide⟩, rfl, ?_⟩
  rw [Header.enroll, List.filter_append, not_isTpm2_wipe]
  rfl

theorem keyslots_of_preferred {slot : ℕ} (h : Preferred header header')
    (hfilter : ∃ t, t.keyslots = [slot] ∧ header'.tokens.filter Token.isTpm2 = [t]) :
    header'.keyslots slot = some .prefer := by
  obtain ⟨t, hslots, hfilter⟩ := hfilter
  obtain ⟨s, hs, hprefer, -⟩ := h t hfilter
  rw [hslots] at hs
  rwa [List.singleton_inj.mp hs]

/-- The new keyslot is as it was enrolled until another priority is set. -/
theorem not_preferred_enroll (id slot : ℕ) : ¬Preferred header (header.wipeTpm2.enroll id slot) := by
  intro h
  have hprefer := keyslots_of_preferred h (filter_enroll id slot)
  rw [Header.enroll_self] at hprefer
  cases hprefer

theorem preferred_config_iff {id new slot : ℕ} :
    Preferred header ((header.wipeTpm2.enroll id new).config slot) ↔ slot = new := by
  constructor
  · intro h
    have hprefer := keyslots_of_preferred h (filter_enroll id new)
    by_contra hne
    rw [Header.config_of_ne _ (Ne.symm hne), Header.enroll_self] at hprefer
    cases hprefer
  · rintro rfl t ht
    obtain ⟨u, hslots, hfilter⟩ := @filter_enroll header id slot
    obtain rfl := List.singleton_inj.mp (hfilter.symm.trans ht)
    refine ⟨slot, hslots, Header.config_self _, fun s p hne hp => ?_⟩
    rw [Header.config_of_ne _ hne, Header.enroll_of_ne _ hne] at hp
    exact keyslots_of_wipe hp

/-- A keyslot that is in use after the enrolment and was wiped before is the new one. -/
theorem eq_of_enroll {id new slot : ℕ} (hwiped : header.wipeTpm2.keyslots slot = none)
    (hused : ((header.wipeTpm2.enroll id new).keyslots slot).isSome) : slot = new := by
  by_contra hne
  rw [Header.enroll_of_ne _ hne, hwiped] at hused
  cases hused

/-- CORRECT: a completed run prefers the new keyslot exactly if it replaces the one token that names the
    type, and that token has a keyslot. -/
theorem enableTpm2Autounlock_prefers_iff
    (h : enableTpm2Autounlock tool disk session enrolment header = some header') :
    Preferred header header' ↔ Reenrolls header := by
  obtain ⟨hfresh, ⟨hcount, rfl⟩ | ⟨hcount, slot, hslot, hused, rfl⟩⟩ := enableTpm2Autounlock_cases h
  · refine iff_of_false (not_preferred_enroll _ _) ?_
    rintro ⟨t, hfilter, -⟩
    rw [filter_luksDump, hfilter] at hcount
    exact hcount rfl
  · rw [preferred_config_iff]
    constructor
    · rintro rfl
      obtain ⟨t, ht, hslott⟩ := mem_of_newKeyslot hslot
      obtain ⟨u, hu, htpm2, hslotu⟩ := Header.mem_tpm2Keyslots.mp
        (mem_of_wipe_keyslots hfresh (header.referenced t ht _ hslott))
      rw [filter_luksDump, List.length_map] at hcount
      obtain ⟨v, hv⟩ := List.length_eq_one_iff.mp hcount
      have hmem : u ∈ [v] := hv ▸ List.mem_filter.mpr ⟨hu, mentionsTpm2_of_isTpm2 htpm2⟩
      obtain rfl := List.mem_singleton.mp hmem
      exact ⟨u, hv, htpm2, List.ne_nil_of_mem hslotu⟩
    · intro hre
      obtain ⟨s, hs, hread⟩ := @newKeyslot_of_reenrolls tool header hre
      obtain rfl := Option.some.inj (hslot.symm.trans hread)
      exact eq_of_enroll (if_pos hs) hused

/-- For crypttab, the run is one of `enableTpm2`. -/
theorem enableTpm2_of_enableTpm2Autounlock
    (h : enableTpm2Autounlock tool disk session enrolment header = some header') {m : Machine}
    (hm : m.systemdTpm2 = (tool.luksDump header).any mentionsTpm2) :
    enableTpm2 disk session m = some { m with systemdTpm2 := true } := by
  simp only [enableTpm2Autounlock, Option.bind_eq_bind, Option.bind_eq_some_iff] at h
  obtain ⟨_, hchecks, wiped, hwiped, -⟩ := h
  have hreply : m.systemdTpm2 → session.reenroll ∈ [("Y" : Text), "y"] := by
    intro htoken
    rw [wipeExisting, if_pos (hm ▸ htoken)] at hwiped
    simp only [Option.bind_eq_bind, Option.bind_eq_some_iff, Option.guard_eq_some'] at hwiped
    obtain ⟨_, hreply, -⟩ := hwiped
    exact hreply
  simp only [enableTpm2, Option.bind_eq_bind, Option.bind_eq_some_iff, Option.guard_eq_some']
  exact ⟨(), hchecks, (), hreply, rfl⟩

end

/-! ### A disk with a password and a token of TPM2, and one with a password -/

/-- The keyslots `0` to `n - 1` are in use. -/
def firstKeyslots (n slot : ℕ) : Option Priority := if slot < n then some .normal else none

def enrolledHeader : Header where
  keyslots := firstKeyslots 2
  tokens := [⟨0, systemdTpm2, [1], by decide⟩]
  referenced := by simp [firstKeyslots]

def passwordHeader : Header where
  keyslots := firstKeyslots 1
  tokens := []
  referenced := nofun

/-- The other lines of the dump of the two disks. -/
def someCryptsetup : Cryptsetup where
  preamble _ := ["LUKS header information", "Version:       \t2", "Keyslots area: \t16744448 [bytes]",
    "Label:         \t(no label)", "Keyslots:", "  0: luks2", "\tPriority:   normal", "Tokens:"]
  details _ := ["\ttpm2-hash-pcrs:   7+14", "\ttpm2-pin:         true"]
  closing _ := ["Digests:", "  0: pbkdf2", "\tHash:       sha256"]
  preamble_plain _ := by decide +kernel
  details_plain _ := by decide +kernel
  closing_plain _ := by decide +kernel

/-- The keyslot `1` is free, or becomes free. -/
def someEnrolment : Enrolment where
  wiped := true
  enrolled := true
  id := 0
  slot := 1
  initramfs := true

theorem prefers_iff_enrolledHeader : ∃ header',
    enableTpm2Autounlock someCryptsetup someDisk someSession someEnrolment enrolledHeader = some header' ∧
      (Preferred enrolledHeader header' ↔ Reenrolls enrolledHeader) := by
  obtain ⟨header', h⟩ := Option.isSome_iff_exists.mp (by decide +kernel :
    (enableTpm2Autounlock someCryptsetup someDisk someSession someEnrolment enrolledHeader).isSome)
  exact ⟨header', h, enableTpm2Autounlock_prefers_iff h⟩

/-- The first enrolment on a disk gives no keyslot priority. -/
theorem not_preferred_passwordHeader : ∃ header',
    enableTpm2Autounlock someCryptsetup someDisk someSession someEnrolment passwordHeader = some header' ∧
      ¬Preferred passwordHeader header' := by
  obtain ⟨header', h⟩ := Option.isSome_iff_exists.mp (by decide +kernel :
    (enableTpm2Autounlock someCryptsetup someDisk someSession someEnrolment passwordHeader).isSome)
  refine ⟨header', h, ?_⟩
  obtain ⟨-, ⟨-, rfl⟩ | ⟨hcount, -⟩⟩ := enableTpm2Autounlock_cases h
  · exact not_preferred_enroll _ _
  · rw [filter_luksDump] at hcount
    cases hcount

end Luks
