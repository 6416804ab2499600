import Mathlib.Order.Basic
import Mathlib.Order.Lattice
import Secureblue.Py.Text

/-! The vocabulary of the audit (`auditor/__init__.py`): statuses ordered by severity, notes,
    recommendations and reports. Texts are those of the fallback message catalogue. -/

namespace Auditor
open Py

/-- Status of a system check. -/
inductive Status where | pass | info | warn | fail | unknown
  deriving DecidableEq, Repr

namespace Status

/-- The enumeration value, which orders statuses by severity. -/
def value : Status → ℕ
  | pass => 0
  | info => 1
  | warn => 2
  | fail => 3
  | unknown => 4

/-- The enumeration name in lower case, `status.name.lower()`. -/
def lowerName : Status → Text
  | pass => "pass"
  | info => "info"
  | warn => "warn"
  | fail => "fail"
  | unknown => "unknown"

/-- The more severe of the two statuses: `max` keeps the first of two equal ones. -/
def downgradeTo (self other : Status) : Status := if self.value < other.value then other else self

theorem value_injective : Function.Injective value := by
  intro a b h
  cases a <;> cases b <;> first | rfl | exact absurd h (by decide)

theorem lowerName_injective : Function.Injective lowerName := by
  intro a b h
  cases a <;> cases b <;> first | rfl | exact absurd h (by decide)

instance : LinearOrder Status := LinearOrder.lift' value value_injective

theorem pass_le (s : Status) : pass ≤ s := Nat.zero_le s.value

@[simp] theorem max_pass (s : Status) : max s pass = s := max_eq_left (pass_le s)

/-- Downgrading is the join of the severity order. -/
theorem downgradeTo_eq_max (a b : Status) : a.downgradeTo b = max a b := by
  cases a <;> cases b <;> rfl

end Status

/-- A line with additional info and optionally a status. -/
structure Note where
  text : Text
  status : Option Status
  deriving DecidableEq, Repr

/-- A recommendation for user action to be taken. -/
structure Recommendation where
  text : Text
  mergeableName : Option Text
  deriving DecidableEq, Repr

/-- `Recommendation.NAMES_PLACEHOLDER` -/
def namesPlaceholder : Text := "[[NAMES_PLACEHOLDER]]"

/-- A result of a check to be reported. -/
structure Report where
  description : Text
  status : Status
  notes : List Note
  recs : List Recommendation
  deriving DecidableEq, Repr

end Auditor
