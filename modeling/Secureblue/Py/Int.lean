import Secureblue.Py.Text

/-! `int(s)` for a string `s` in base 10, and `s.isdigit()`. -/

namespace Py

/-- The value of a decimal digit; `decimal` is `unicodedata.decimal` for the characters beyond ASCII. -/
def digitValue (decimal : Char → Option ℕ) (c : Char) : Option ℕ :=
  if c.isDigit then some (c.toNat - '0'.toNat)
  else if c.toNat < 128 ∨ isSpace c then none
  else decimal c

/-- Digits, with single underscores between them; `seen` is whether a digit stands before. -/
def readDigits (decimal : Char → Option ℕ) : Bool → ℕ → Text → Option ℕ
  | seen, n, [] => if seen then some n else none
  | seen, n, c :: cs =>
    if c = '_' then if seen then readDigits decimal false n cs else none
    else match digitValue decimal c with
      | some d => readDigits decimal true (10 * n + d) cs
      | none => none

/-- `sys.int_info.default_max_str_digits` -/
def maxStrDigits : ℕ := 4300

/-- `int(s)`, or `none` for a `ValueError`. -/
def int (decimal : Char → Option ℕ) (s : Text) : Option ℤ :=
  let t := strip s
  if maxStrDigits < (t.filter fun c => (digitValue decimal c).isSome).length then none
  else match t with
    | '-' :: t => (readDigits decimal false 0 t).map fun n : ℕ => -(n : ℤ)
    | '+' :: t => (readDigits decimal false 0 t).map fun n : ℕ => (n : ℤ)
    | t => (readDigits decimal false 0 t).map fun n : ℕ => (n : ℤ)

/-- A character that can be part of a literal. -/
def IsIntChar (decimal : Char → Option ℕ) (c : Char) : Prop :=
  c = '-' ∨ c = '+' ∨ c = '_' ∨ (digitValue decimal c).isSome

variable {decimal : Char → Option ℕ}

theorem isIntChar_of_readDigits : ∀ {seen : Bool} {n m : ℕ} {t : Text},
    readDigits decimal seen n t = some m → ∀ c ∈ t, IsIntChar decimal c
  | _, _, _, [], _, _, hc => absurd hc List.not_mem_nil
  | seen, n, m, d :: t, h, c, hc => by
      rw [readDigits] at h
      split at h
      · next hd =>
        split at h
        · rcases List.mem_cons.mp hc with rfl | hc
          · exact Or.inr (Or.inr (Or.inl hd))
          · exact isIntChar_of_readDigits h c hc
        · cases h
      · split at h
        · next hd =>
          rcases List.mem_cons.mp hc with rfl | hc
          · exact Or.inr (Or.inr (Or.inr (by rw [hd]; rfl)))
          · exact isIntChar_of_readDigits h c hc
        · cases h

/-- A literal has only such characters, white space around it apart. -/
theorem isIntChar_of_int {s : Text} {n : ℤ} (h : int decimal s = some n) :
    ∀ c ∈ strip s, IsIntChar decimal c := by
  rw [int] at h
  split at h
  · cases h
  · split at h
    all_goals
      obtain ⟨m, hm, -⟩ := Option.map_eq_some_iff.mp h
      have ht := isIntChar_of_readDigits hm
    · next heq =>
      rw [heq]
      exact List.forall_mem_cons.mpr ⟨Or.inl rfl, ht⟩
    · next heq =>
      rw [heq]
      exact List.forall_mem_cons.mpr ⟨Or.inr (Or.inl rfl), ht⟩
    · exact ht

theorem IsIntChar.not_space {c : Char} (h : IsIntChar decimal c) : isSpace c = false := by
  rcases h with rfl | rfl | rfl | h
  · decide
  · decide
  · decide
  · rw [digitValue] at h
    split at h
    · next hd => exact isSpace_of_isDigit hd
    · split at h
      · cases h
      · next hc => simpa using fun hs => hc (Or.inr hs)

/-- Of the ASCII letters, none is part of a literal. -/
theorem not_isIntChar_of_ascii {c : Char} (h : c.toNat < 128) (hdigit : c.isDigit = false)
    (hsign : c ∉ ['-', '+', '_']) : ¬IsIntChar decimal c := by
  simp only [List.mem_cons, List.not_mem_nil, or_false, not_or] at hsign
  rintro (hc | hc | hc | hc)
  · exact hsign.1 hc
  · exact hsign.2.1 hc
  · exact hsign.2.2 hc
  · rw [digitValue, if_neg (by simp [hdigit]), if_pos (Or.inl h)] at hc
    cases hc

/-! ### `str.isdigit` -/

/-- What `unicodedata` says of the characters beyond ASCII: the decimals are digits, but not the only ones. -/
structure Unicode where
  decimal : Char → Option ℕ
  digit : Char → Bool
  digit_of_decimal : ∀ c, (decimal c).isSome → digit c

/-- `c.isdigit()` -/
def Unicode.isDigitChar (u : Unicode) (c : Char) : Bool := c.isDigit || (decide (128 ≤ c.toNat) && u.digit c)

/-- `s.isdigit()` -/
def Unicode.isDigit (u : Unicode) (s : Text) : Bool := decide (s ≠ []) && s.all u.isDigitChar

/-- The number that a run of decimals has behind `n`. -/
def digitsValue (decimal : Char → Option ℕ) : ℕ → Text → Option ℕ
  | n, [] => some n
  | n, c :: cs => (digitValue decimal c).bind fun d => digitsValue decimal (10 * n + d) cs

theorem digitsValue_isSome_iff {n : ℕ} {t : Text} :
    (digitsValue decimal n t).isSome ↔ ∀ c ∈ t, (digitValue decimal c).isSome := by
  induction t generalizing n with
  | nil => simp [digitsValue]
  | cons c t ih =>
    rw [digitsValue, List.forall_mem_cons]
    cases digitValue decimal c with
    | none => simp
    | some d => simp [ih]

/-- Without underscores, a literal is read digit by digit. -/
theorem readDigits_true {n : ℕ} {t : Text} (h : '_' ∉ t) :
    readDigits decimal true n t = digitsValue decimal n t := by
  induction t generalizing n with
  | nil => rfl
  | cons c t ih =>
    have hc : c ≠ '_' := fun hc => h (hc ▸ List.mem_cons_self)
    rw [readDigits, if_neg hc, digitsValue]
    cases digitValue decimal c with
    | none => rfl
    | some d => exact ih fun ht => h (List.mem_cons_of_mem c ht)

theorem readDigits_false {n : ℕ} {t : Text} (hne : t ≠ []) (h : '_' ∉ t) :
    readDigits decimal false n t = digitsValue decimal n t := by
  cases t with
  | nil => exact absurd rfl hne
  | cons c t =>
    have hc : c ≠ '_' := fun hc => h (hc ▸ List.mem_cons_self)
    rw [readDigits, if_neg hc, digitsValue]
    cases digitValue decimal c with
    | none => rfl
    | some d => exact readDigits_true fun ht => h (List.mem_cons_of_mem c ht)

section
variable {u : Unicode} {t : Text}

theorem isDigitChar_of_digitValue {c : Char} (h : (digitValue u.decimal c).isSome) : u.isDigitChar c := by
  rw [digitValue] at h
  rw [Unicode.isDigitChar]
  split at h
  · next hdigit => simp [hdigit]
  · split at h
    · cases h
    · next hc =>
      obtain ⟨hlarge, -⟩ := not_or.mp hc
      simp [u.digit_of_decimal c h, Nat.le_of_not_lt hlarge]

/-- A digit of ASCII is one of the ten. -/
theorem not_isDigitChar_of_ascii {c : Char} (h : c.toNat < 128) (hdigit : c.isDigit = false) :
    u.isDigitChar c = false := by
  rw [Unicode.isDigitChar, hdigit, decide_eq_false (Nat.not_le_of_lt h)]
  rfl

theorem isDigit_iff : u.isDigit t ↔ t ≠ [] ∧ ∀ c ∈ t, u.isDigitChar c := by
  simp [Unicode.isDigit]

/-- `int` has nothing to strip from a run of digits and no sign to read. -/
theorem int_of_isDigit (h : u.isDigit t) (hstrip : strip t = t) : int u.decimal t =
    if maxStrDigits < (t.filter fun c => (digitValue u.decimal c).isSome).length then none
    else (digitsValue u.decimal 0 t).map fun n : ℕ => (n : ℤ) := by
  obtain ⟨hne, hdigits⟩ := isDigit_iff.mp h
  have hascii : ∀ c, c.toNat < 128 → c.isDigit = false → c ∉ t := by
    intro c hc hcdigit hmem
    have hchar := hdigits c hmem
    rw [not_isDigitChar_of_ascii hc hcdigit] at hchar
    cases hchar
  have hread := @readDigits_false u.decimal 0 t hne (hascii '_' (by decide) (by decide))
  rw [int, hstrip]
  split
  · rfl
  · split
    · exact absurd List.mem_cons_self (hascii '-' (by decide) (by decide))
    · exact absurd List.mem_cons_self (hascii '+' (by decide) (by decide))
    · rw [hread]

/-- A run of decimals is read, unless it is too long. -/
theorem int_of_decimals (h : u.isDigit t) (hstrip : strip t = t)
    (hdecimals : ∀ c ∈ t, (digitValue u.decimal c).isSome) : int u.decimal t =
      if maxStrDigits < t.length then none else (digitsValue u.decimal 0 t).map fun n : ℕ => (n : ℤ) := by
  rw [int_of_isDigit h hstrip, List.filter_eq_self.mpr hdecimals]

/-- `int` rejects a run of digits for one that is no decimal, and for its length. -/
theorem int_eq_none_iff (h : u.isDigit t) (hstrip : strip t = t) : int u.decimal t = none ↔
    (∃ c ∈ t, digitValue u.decimal c = none) ∨ maxStrDigits < t.length := by
  by_cases hdecimals : ∀ c ∈ t, (digitValue u.decimal c).isSome
  · have hnot : ¬∃ c ∈ t, digitValue u.decimal c = none := by
      rintro ⟨c, hc, hnone⟩
      have hsome := hdecimals c hc
      rw [hnone] at hsome
      cases hsome
    obtain ⟨n, hn⟩ := Option.isSome_iff_exists.mp (digitsValue_isSome_iff.mpr hdecimals)
    rw [int_of_decimals h hstrip hdecimals, hn, or_iff_right hnot]
    simp
  · have hnone : digitsValue u.decimal 0 t = none := by
      rw [← Option.not_isSome_iff_eq_none, digitsValue_isSome_iff]
      exact hdecimals
    push Not at hdecimals
    obtain ⟨c, hc, hdecimal⟩ := hdecimals
    rw [int_of_isDigit h hstrip, hnone]
    refine iff_of_true ?_ (.inl ⟨c, hc, by simpa using hdecimal⟩)
    split
    · rfl
    · rfl

end

end Py
