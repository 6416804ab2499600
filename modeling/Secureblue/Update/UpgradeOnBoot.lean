import Mathlib.Algebra.Order.Ring.Int
import Secureblue.Py.Text

/-! The loop of `upgrade-on-boot` that shows the progress of bootc.

    It is the only reader of the pipe that bootc writes to, and an error ends it. -/

namespace Update.UpgradeOnBoot
open Py

/-! ### The arithmetic of the shell -/

/-- What is left of a number in a signed 64-bit integer. -/
def wrap (n : ℤ) : ℤ := n.bmod (2 ^ 64)

/-- The number is one. -/
def Fits (n : ℤ) : Prop := -2 ^ 63 ≤ n ∧ n < 2 ^ 63

theorem wrap_eq_self {n : ℤ} (h : Fits n) : wrap n = n := by
  have hle := h.1
  have hlt := h.2
  exact Int.bmod_eq_of_le_mul_two (by omega) (by omega)

/-- `$(( a / b ))`, or `none` for a division by zero. -/
def divide (a b : ℤ) : Option ℤ := if b = 0 then none else some (wrap (a.tdiv b))

/-! ### The loop -/

/-- A count of bytes. -/
abbrev Amount := {n : ℕ // n < 2 ^ 56}

/-- A line that bootc writes. -/
inductive Event where
  | progressBytes (bytes bytesTotal : Amount)
  | progressSteps
  | other

def deployingString : Text := "Deploying update... Press Q to cancel and boot the existing deployment."

/-- A command of plymouth. -/
inductive Plymouth where
  | changeMode (mode : Text)
  | message (text : Text)
  | systemUpdate (progress : ℤ)

def deploying : List Plymouth := [.changeMode "--boot-up", .message deployingString]

/-- `percent=$(( 100 * bytes / bytes_total ))` -/
def percent (bytes bytesTotal : Amount) : Option ℤ := divide (wrap (100 * bytes.val)) bytesTotal.val

/-- What the loop has to do at a line, or `none` for an error. -/
def react : Event → Option (List Plymouth)
  | .progressBytes bytes bytesTotal => (percent bytes bytesTotal).map fun percent =>
      if percent ≥ 100 then deploying else [.systemUpdate percent]
  | .progressSteps => some deploying
  | .other => some []

section
variable (plymouth : Plymouth → Bool)

/-- The commands up to the first that fails, and whether none does. -/
def issue : List Plymouth → List Plymouth × Bool
  | [] => ([], true)
  | command :: commands =>
    if plymouth command then (command :: (issue commands).1, (issue commands).2) else ([command], false)

/-- The commands that the loop issues, and whether it comes to the end of the stream. -/
def progressLoop : List Event → List Plymouth × Bool
  | [] => ([], true)
  | event :: events =>
    match react event with
    | none => ([], false)
    | some commands =>
      if (issue plymouth commands).2 then
        ((issue plymouth commands).1 ++ (progressLoop events).1, (progressLoop events).2)
      else ((issue plymouth commands).1, false)

/-- The loop gets through the stream: no error ends it, no number overflows, each progress is one. -/
structure Consumes (events : List Event) : Prop where
  done : (progressLoop plymouth events).2 = true
  fits : ∀ bytes bytesTotal, .progressBytes bytes bytesTotal ∈ events → Fits (100 * bytes.val) ∧
    Fits (Int.tdiv (100 * bytes.val) bytesTotal.val)
  progress : ∀ percent, .systemUpdate percent ∈ (progressLoop plymouth events).1 → 0 ≤ percent ∧ percent ≤ 99

end

/-- The total of an event, if it has one, is not zero. -/
def Event.HasTotal : Event → Prop
  | .progressBytes _ bytesTotal => bytesTotal.val ≠ 0
  | .progressSteps | .other => True

section
variable {plymouth : Plymouth → Bool} {event : Event} {events : List Event}

theorem fits_of_amount (bytes : Amount) : Fits (100 * bytes.val) := by
  have h := bytes.property
  constructor <;> omega

theorem tdiv_eq (bytes bytesTotal : Amount) :
    Int.tdiv (100 * bytes.val) bytesTotal.val = ((100 * bytes.val / bytesTotal.val : ℕ) : ℤ) := by
  rw [Int.ofNat_tdiv]
  push_cast
  rfl

theorem fits_tdiv (bytes bytesTotal : Amount) : Fits (Int.tdiv (100 * bytes.val) bytesTotal.val) := by
  have h := bytes.property
  have hle : 100 * bytes.val / bytesTotal.val ≤ 100 * bytes.val := Nat.div_le_self _ _
  rw [tdiv_eq]
  generalize 100 * bytes.val / bytesTotal.val = quotient at hle
  constructor <;> omega

/-- The percentage is the quotient, which is not negative. -/
theorem percent_eq (bytes bytesTotal : Amount) : percent bytes bytesTotal =
    if bytesTotal.val = 0 then none else some ((100 * bytes.val / bytesTotal.val : ℕ) : ℤ) := by
  rw [percent, divide, wrap_eq_self (fits_of_amount bytes), wrap_eq_self (fits_tdiv bytes bytesTotal), tdiv_eq]
  simp

/-- A line is an error exactly if its total is zero. -/
theorem react_eq_none_iff : react event = none ↔ ¬event.HasTotal := by
  cases event with
  | progressBytes bytes bytesTotal => simp [react, percent_eq, Event.HasTotal]
  | progressSteps => simp [react, Event.HasTotal]
  | other => simp [react, Event.HasTotal]

/-- What a line shows is a percentage below 100. -/
theorem progress_of_react {commands : List Plymouth} (h : react event = some commands) {p : ℤ}
    (hp : .systemUpdate p ∈ commands) : 0 ≤ p ∧ p ≤ 99 := by
  cases event with
  | progressBytes bytes bytesTotal =>
    rw [react, percent_eq, Option.map_eq_some_iff] at h
    obtain ⟨percent, hpercent, rfl⟩ := h
    split at hpercent
    · cases hpercent
    · obtain rfl := Option.some.inj hpercent
      generalize 100 * bytes.val / bytesTotal.val = quotient at hp
      split at hp
      · simp [deploying] at hp
      · simp only [List.mem_singleton, Plymouth.systemUpdate.injEq] at hp
        omega
  | progressSteps =>
    obtain rfl := Option.some.inj h
    simp [deploying] at hp
  | other =>
    obtain rfl := Option.some.inj h
    exact absurd hp List.not_mem_nil

theorem issue_subset (commands : List Plymouth) : (issue plymouth commands).1 ⊆ commands := by
  induction commands with
  | nil => exact List.Subset.refl _
  | cons command commands ih =>
    rw [issue]
    split
    · exact List.cons_subset_cons command ih
    · exact List.cons_subset_cons command (List.nil_subset commands)

theorem issue_succeeds (h : ∀ command, plymouth command) (commands : List Plymouth) :
    (issue plymouth commands).2 = true := by
  induction commands with
  | nil => rfl
  | cons command commands ih => rw [issue, if_pos (h command), ih]

theorem progress_of_progressLoop {p : ℤ} (hp : .systemUpdate p ∈ (progressLoop plymouth events).1) :
    0 ≤ p ∧ p ≤ 99 := by
  induction events with
  | nil => exact absurd hp List.not_mem_nil
  | cons event events ih =>
    rw [progressLoop] at hp
    cases hreact : react event with
    | none =>
      rw [hreact] at hp
      exact absurd hp List.not_mem_nil
    | some commands =>
      rw [hreact] at hp
      have hsub : (issue plymouth commands).1 ⊆ commands := issue_subset commands
      dsimp only at hp
      split at hp
      · exact (List.mem_append.mp hp).elim (fun hp => progress_of_react hreact (hsub hp)) ih
      · exact progress_of_react hreact (hsub hp)

theorem progressLoop_done_iff (h : ∀ command, plymouth command) :
    (progressLoop plymouth events).2 = true ↔ ∀ event ∈ events, event.HasTotal := by
  induction events with
  | nil => simp [progressLoop]
  | cons event events ih =>
    rw [progressLoop, List.forall_mem_cons, ← ih]
    cases hreact : react event with
    | none => simp [react_eq_none_iff.mp hreact]
    | some commands =>
      have htotal : event.HasTotal := by
        by_contra hnot
        rw [react_eq_none_iff.mpr hnot] at hreact
        cases hreact
      simp [issue_succeeds h, htotal]

end

/-- CORRECT: if plymouth does not fail, the loop gets through exactly the streams without a total of
    zero. -/
theorem consumes_iff {plymouth : Plymouth → Bool} (h : ∀ command, plymouth command) (events : List Event) :
    Consumes plymouth events ↔ ∀ event ∈ events, event.HasTotal := by
  rw [← progressLoop_done_iff h]
  constructor
  · exact Consumes.done
  · intro hdone
    refine ⟨hdone, fun bytes bytesTotal _ => ⟨fits_of_amount bytes, fits_tdiv bytes bytesTotal⟩, fun p hp => ?_⟩
    exact progress_of_progressLoop hp

/-- A download that grows past its total. -/
theorem consumes_download : Consumes (fun _ => true)
    [.progressBytes ⟨1, by decide⟩ ⟨2, by decide⟩, .progressBytes ⟨3, by decide⟩ ⟨2, by decide⟩, .progressSteps] :=
  (consumes_iff (fun _ => rfl) _).mpr (by simp [Event.HasTotal])

/-- Bootc has nothing to fetch. -/
theorem not_consumes_zero : ¬Consumes (fun _ => true) [.progressBytes ⟨0, by decide⟩ ⟨0, by decide⟩] :=
  fun h => absurd h.done (by decide)

end Update.UpgradeOnBoot
