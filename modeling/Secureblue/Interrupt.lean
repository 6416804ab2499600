import Mathlib.Data.List.Basic

/-! Programs that look at their state, decide on a list of writes and carry them out. Such a program can
    be interrupted between two writes, or within one, and be started again.

    `recovers_iff` reduces the question whether that makes up for the interruption to the states that the
    interrupted writes can leave; before the first write and after the last one it is answered by
    `recovers_before` and `recovers_done`. -/

namespace Interrupt
variable {σ τ ε : Type*}

/-- A write: the state it leads to, and the state it leaves when it is interrupted, by what is there then
    of the content. -/
structure Write (σ τ : Type*) where
  complete : σ → σ
  torn : τ → σ → σ

/-- A program: the writes it decides on in the state in which it starts, or an error. -/
abbrev Program (σ τ ε : Type*) := σ → Except ε (List (Write σ τ))

/-- All the writes, one after another. -/
def carryOut (ws : List (Write σ τ)) (s : σ) : σ := ws.foldl (fun s w => w.complete s) s

/-- A run that is not interrupted. -/
def run (p : Program σ τ ε) (s : σ) : Except ε σ := (p s).map (carryOut · s)

/-- The place of an interruption. -/
inductive Stop (τ : Type*) where
  /-- after `n` complete writes -/
  | after (n : ℕ)
  /-- within the write behind `n` complete ones -/
  | within (n : ℕ) (left : τ)
  deriving DecidableEq

/-- The state that an interrupted run leaves, if it has such a place. -/
def stopped (ws : List (Write σ τ)) (s : σ) : Stop τ → Option σ
  | .after n => if n ≤ ws.length then some (carryOut (ws.take n) s) else none
  | .within n left => ws[n]?.map fun w => w.torn left (carryOut (ws.take n) s)

/-- A second run, after the interruption, leaves what an uninterrupted one leaves. -/
def Recovers (p : Program σ τ ε) (s : σ) (stop : Stop τ) : Prop :=
  ∀ ws, p s = .ok ws → ∀ s', stopped ws s stop = some s' → run p s' = run p s

variable {p : Program σ τ ε} {s : σ} {ws : List (Write σ τ)}

theorem run_eq (h : p s = .ok ws) : run p s = .ok (carryOut ws s) := by
  rw [run, h]
  rfl

theorem recovers_iff (h : p s = .ok ws) (stop : Stop τ) :
    Recovers p s stop ↔ ∀ s', stopped ws s stop = some s' → run p s' = run p s := by
  constructor
  · intro hrec
    exact hrec ws h
  · intro hall ws' h' s' hs'
    rw [h] at h'
    cases h'
    exact hall s' hs'

/-- Nothing is lost before the first write. -/
theorem recovers_before (p : Program σ τ ε) (s : σ) : Recovers p s (.after 0) := by
  intro ws _ s' hs'
  rw [stopped, if_pos (Nat.zero_le _)] at hs'
  cases hs'
  rfl

/-- Nothing is lost after the last write, if the program leaves its own result alone. -/
theorem recovers_done (h : p s = .ok ws) {n : ℕ} (hn : n = ws.length)
    (hagain : run p (carryOut ws s) = .ok (carryOut ws s)) : Recovers p s (.after n) := by
  rw [recovers_iff h, hn]
  intro s' hs'
  rw [stopped, if_pos (Nat.le_refl _), List.take_length] at hs'
  cases hs'
  rw [hagain, run_eq h]

/-- A run has no place behind its last write. -/
theorem recovers_beyond (h : p s = .ok ws) {n : ℕ} (hn : ws.length < n) : Recovers p s (.after n) := by
  rw [recovers_iff h]
  intro s' hs'
  rw [stopped, if_neg (Nat.not_le.mpr hn)] at hs'
  cases hs'

theorem recovers_within_beyond (h : p s = .ok ws) {n : ℕ} (hn : ws.length ≤ n) (left : τ) :
    Recovers p s (.within n left) := by
  rw [recovers_iff h]
  intro s' hs'
  rw [stopped, List.getElem?_eq_none hn] at hs'
  cases hs'

end Interrupt
