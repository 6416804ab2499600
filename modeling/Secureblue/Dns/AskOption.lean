import Secureblue.Dns.GlobalDns
import Secureblue.Py.Int

/-! The choice between numbered options (`ask_option`, shared/utils.py).

    A line is converted if `isdigit` accepts it. That includes lines that `int` rejects, and such a line
    ends the program instead of leading to another prompt. What is printed is left out. -/

namespace Dns.Selector
open Py

variable (u : Unicode)

/-- Returns the user's chosen number between 1 and options_count. -/
def askOption (optionsCount : ℕ) : Dialogue (Except Raised ℤ)
  | [] => none
  | line :: lines =>
    let rawOption := strip line.1
    if u.isDigit rawOption then
      match int u.decimal rawOption with
      | none => some (.error .valueError, lines)
      | some option => if 1 ≤ option ∧ option ≤ optionsCount then some (.ok option, lines)
        else askOption optionsCount lines
    else askOption optionsCount lines

/-! ### What it is for -/

/-- The option that a line denotes: a number from 1 on in decimal digits. -/
def denotes (optionsCount : ℕ) (line : Line) : Option ℕ :=
  (digitsValue u.decimal 0 (strip line.1)).filter fun option => decide (1 ≤ option ∧ option ≤ optionsCount)

/-- The first option that is denoted, with the lines that are still to be entered. -/
def firstOption (optionsCount : ℕ) : List Line → Option (ℕ × List Line)
  | [] => none
  | line :: lines => (denotes u optionsCount line).elim (firstOption optionsCount lines)
      fun option => some (option, lines)

/-- A line of digits with one that is no decimal, or of too many. -/
def Unreadable (line : Line) : Prop :=
  u.isDigit (strip line.1) ∧
    ((∃ c ∈ strip line.1, digitValue u.decimal c = none) ∨ maxStrDigits < (strip line.1).length)

/-- No line up to the first that denotes an option is unreadable. -/
def Readable (optionsCount : ℕ) (lines : List Line) : Prop :=
  ∀ before line, before ++ [line] <+: lines → (∀ l ∈ before, denotes u optionsCount l = none) →
    ¬Unreadable u line

section
variable {u} {n : ℕ} {line : Line} {lines : List Line}

/-- A line that denotes an option consists of digits. -/
theorem isDigit_of_denotes {option : ℕ} (h : denotes u n line = some option) :
    u.isDigit (strip line.1) ∧ digitsValue u.decimal 0 (strip line.1) = some option ∧ 1 ≤ option ∧ option ≤ n := by
  obtain ⟨hvalue, hrange⟩ := Option.filter_eq_some_iff.mp h
  obtain ⟨hone, hcount⟩ := of_decide_eq_true hrange
  have hdecimals := digitsValue_isSome_iff.mp (Option.isSome_iff_exists.mpr ⟨option, hvalue⟩)
  refine ⟨isDigit_iff.mpr ⟨?_, fun c hc => isDigitChar_of_digitValue (hdecimals c hc)⟩, hvalue, hone, hcount⟩
  intro hnil
  rw [hnil, digitsValue] at hvalue
  cases hvalue
  omega

/-- A digit line that is readable is converted to the number that it denotes. -/
theorem int_of_readable (h : u.isDigit (strip line.1)) (hreadable : ¬Unreadable u line) :
    ∃ option : ℕ, int u.decimal (strip line.1) = some (option : ℤ) ∧
      digitsValue u.decimal 0 (strip line.1) = some option := by
  rw [Unreadable, not_and] at hreadable
  obtain ⟨hdecimals, hlength⟩ := not_or.mp (hreadable h)
  push Not at hdecimals
  have hsome : ∀ c ∈ strip line.1, (digitValue u.decimal c).isSome := fun c hc =>
    Option.isSome_iff_ne_none.mpr (hdecimals c hc)
  obtain ⟨option, hoption⟩ := Option.isSome_iff_exists.mp (digitsValue_isSome_iff (n := 0).mpr hsome)
  refine ⟨option, ?_, hoption⟩
  rw [int_of_decimals h (strip_strip _) hsome, if_neg hlength, hoption]
  rfl

/-- At an unreadable line, `ask_option` raises. -/
theorem askOption_of_unreadable (h : Unreadable u line) :
    askOption u n (line :: lines) = some (.error .valueError, lines) := by
  rw [askOption, if_pos h.1, (int_eq_none_iff h.1 (strip_strip _)).mpr h.2]

/-- No answer is an exception. -/
theorem askOption_ne_of_unreadable (h : Unreadable u line) :
    askOption u n (line :: lines) ≠ (firstOption u n (line :: lines)).map fun r => (.ok (r.1 : ℤ), r.2) := by
  rw [askOption_of_unreadable h]
  intro heq
  obtain ⟨r, -, hr⟩ := Option.map_eq_some_iff.mp heq.symm
  cases hr

/-- At another line, it returns what the line denotes, or asks again. -/
theorem askOption_of_readable (h : ¬Unreadable u line) : askOption u n (line :: lines) =
    (denotes u n line).elim (askOption u n lines) fun option => some (.ok option, lines) := by
  rw [askOption]
  by_cases hdigit : u.isDigit (strip line.1)
  · obtain ⟨option, hint, hvalue⟩ := int_of_readable hdigit h
    have hcast : (1 ≤ (option : ℤ) ∧ (option : ℤ) ≤ n) ↔ 1 ≤ option ∧ option ≤ n := by omega
    rw [if_pos hdigit, hint, denotes, hvalue, Option.filter_some]
    dsimp only
    by_cases hrange : 1 ≤ option ∧ option ≤ n
    · rw [if_pos (hcast.mpr hrange), if_pos (decide_eq_true hrange), Option.elim_some]
    · rw [if_neg (mt hcast.mp hrange), if_neg (by simpa using hrange), Option.elim_none]
  · have hnone : denotes u n line = none := by
      by_contra hsome
      obtain ⟨option, hoption⟩ := Option.ne_none_iff_exists'.mp hsome
      exact hdigit (isDigit_of_denotes hoption).1
    rw [if_neg hdigit, hnone, Option.elim_none]

theorem readable_cons : Readable u n (line :: lines) ↔
    ¬Unreadable u line ∧ (denotes u n line = none → Readable u n lines) := by
  constructor
  · intro h
    refine ⟨h [] line (List.prefix_append [line] lines) fun _ hl => absurd hl List.not_mem_nil, ?_⟩
    intro hnone before l hprefix hbefore
    refine h (line :: before) l ((List.prefix_cons_inj line).mpr hprefix) ?_
    exact List.forall_mem_cons.mpr ⟨hnone, hbefore⟩
  · rintro ⟨hline, hlines⟩ before l hprefix hbefore
    cases before with
    | nil =>
      obtain ⟨rfl, -⟩ := List.cons_prefix_cons.mp hprefix
      exact hline
    | cons k before =>
      obtain ⟨rfl, hrest⟩ := List.cons_prefix_cons.mp hprefix
      obtain ⟨hk, hbefore⟩ := List.forall_mem_cons.mp hbefore
      exact hlines hk before l hrest hbefore

theorem readable_nil : Readable u n [] := by
  intro before line hprefix
  simp at hprefix

/-- CORRECT: the first option that a line denotes is returned, whatever the other lines are, exactly if no
    line up to it is unreadable. -/
theorem askOption_iff (u : Unicode) (n : ℕ) (lines : List Line) :
    askOption u n lines = (firstOption u n lines).map (fun r => (.ok (r.1 : ℤ), r.2)) ↔ Readable u n lines := by
  induction lines with
  | nil => exact iff_of_true rfl readable_nil
  | cons line lines ih =>
    rw [readable_cons]
    by_cases hunreadable : Unreadable u line
    · exact iff_of_false (askOption_ne_of_unreadable hunreadable) fun h => h.1 hunreadable
    · rw [askOption_of_readable hunreadable, firstOption, and_iff_right hunreadable]
      cases hoption : denotes u n line with
      | none => simpa using ih
      | some option => simp

end

/-- The digits of Latin-1: beyond ASCII, the three superscripts, none of which is a decimal. -/
def latin1 : Unicode where
  decimal _ := none
  digit c := c ∈ ['²', '³', '¹']
  digit_of_decimal := by simp

def squaredLine : Line := ⟨['²'], by decide⟩

def firstLine : Line := ⟨['1'], by decide⟩

/-- After `²`, the number `1` is not asked for any more. -/
theorem askOption_ne_squaredLine : ¬askOption latin1 2 [squaredLine, firstLine]
    = (firstOption latin1 2 [squaredLine, firstLine]).map fun r => (.ok (r.1 : ℤ), r.2) := by
  refine askOption_ne_of_unreadable ⟨by decide +kernel, .inl ⟨'²', ?_, ?_⟩⟩
  · decide +kernel
  · decide +kernel

end Dns.Selector
