import Mathlib.Data.List.Basic

/-! Loops whose body may raise, stop with a result or go on, run for a number of iterations.

    A loop whose body does not raise and makes a measure smaller whenever it goes on ends within one more
    iteration than the measure says (`runFor_terminates`). -/

namespace While
variable {σ ρ ε : Type*}

/-- What an iteration ends with: a result, or the state of the next one. -/
inductive Outcome (σ ρ : Type*) where
  | stop (result : ρ)
  | next (state : σ)

/-- The loop, or `none` when the iterations are used up. -/
def runFor (body : σ → Except ε (Outcome σ ρ)) : ℕ → σ → Option (Except ε ρ)
  | 0, _ => none
  | fuel + 1, s =>
    match body s with
    | .error e => some (.error e)
    | .ok (.stop result) => some (.ok result)
    | .ok (.next s') => runFor body fuel s'

variable {body : σ → Except ε (Outcome σ ρ)}

theorem runFor_stop {s : σ} {result : ρ} (h : body s = .ok (.stop result)) (fuel : ℕ) :
    runFor body (fuel + 1) s = some (.ok result) := by
  rw [runFor, h]

theorem runFor_next {s s' : σ} (h : body s = .ok (.next s')) (fuel : ℕ) :
    runFor body (fuel + 1) s = runFor body fuel s' := by
  rw [runFor, h]

/-- The measure bounds the number of iterations. -/
theorem runFor_terminates {measure : σ → ℕ} (hok : ∀ s, ∃ outcome, body s = .ok outcome)
    (hdec : ∀ s s', body s = .ok (.next s') → measure s' < measure s) {fuel : ℕ} {s : σ}
    (hfuel : measure s < fuel) : ∃ result, runFor body fuel s = some (.ok result) := by
  induction fuel generalizing s with
  | zero => omega
  | succ fuel ih =>
    obtain ⟨outcome, hbody⟩ := hok s
    cases outcome with
    | stop result => exact ⟨result, runFor_stop hbody fuel⟩
    | next s' =>
      have hlt := hdec s s' hbody
      rw [runFor_next hbody]
      exact ih (by omega)

end While
