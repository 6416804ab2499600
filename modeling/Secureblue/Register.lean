import Mathlib.Data.List.Basic

/-! Registers: views of a system into which its calls write a value, or which they leave alone.

    Every call ends with a result and leaves a state. What a call wrote into a register is read off the
    call and its result, so a run of calls tells what each register holds at its end: the value that was
    written last, and its old value if no call wrote (`IsRegister.value`). -/

namespace Register
variable {σ α ρ τ : Type*} (step : α → σ → ρ × σ)

/-- The calls with their results, and the state at the end. -/
def run : List α → σ → List (α × ρ) × σ
  | [], s => ([], s)
  | a :: as, s =>
    let (trace, t) := run as (step a s).2
    ((a, (step a s).1) :: trace, t)

/-- What the last call that wrote wrote. -/
def last (writes : α → ρ → Option τ) (trace : List (α × ρ)) : Option τ :=
  (trace.filterMap fun e => writes e.1 e.2).getLast?

/-- In states with the invariant, which calls keep, a call changes the view to what it writes and not
    otherwise. -/
structure IsRegister (I : σ → Prop) (view : σ → τ) (writes : α → ρ → Option τ) : Prop where
  keeps : ∀ a s, I s → I (step a s).2
  view_step : ∀ a s, I s → view (step a s).2 = (writes a (step a s).1).getD (view s)

variable {step} {I : σ → Prop} {view : σ → τ} {writes : α → ρ → Option τ}

@[simp] theorem last_nil : last writes [] = none := rfl

theorem last_cons (e : α × ρ) (trace : List (α × ρ)) :
    last writes (e :: trace) = (last writes trace).or (writes e.1 e.2) := by
  unfold last
  cases h : writes e.1 e.2 with
  | none => simp [h]
  | some v =>
    simp only [List.filterMap_cons, h, List.getLast?_cons]
    cases (trace.filterMap fun e => writes e.1 e.2).getLast? <;> rfl

/-- The invariant holds after every run of calls that keep it. -/
theorem run_invariant_of {P : α → Prop} (keeps : ∀ a s, P a → I s → I (step a s).2) :
    ∀ (as : List α) {s : σ}, (∀ a ∈ as, P a) → I s → I (run step as s).2
  | [], _, _, hs => hs
  | a :: as, s, hP, hs =>
      run_invariant_of keeps as (fun b hb => hP b (List.mem_cons_of_mem a hb))
        (keeps a s (hP a List.mem_cons_self) hs)

theorem run_invariant (keeps : ∀ a s, I s → I (step a s).2) (as : List α) {s : σ} (hs : I s) :
    I (run step as s).2 :=
  run_invariant_of (P := fun _ => True) (fun a s _ => keeps a s) as (fun _ _ => trivial) hs

/-- CORRECT: a register holds the value written last, or its first one. -/
theorem IsRegister.value (h : IsRegister step I view writes) : ∀ (as : List α) {s : σ}, I s →
    view (run step as s).2 = (last writes (run step as s).1).getD (view s)
  | [], _, _ => rfl
  | a :: as, s, hs => by
      have ih := h.value as (h.keeps a s hs)
      rw [h.view_step a s hs] at ih
      rw [run, last_cons]
      refine ih.trans ?_
      cases last writes (run step as (step a s).2).1 <;> rfl

/-- A view that no call writes stays as it is. -/
theorem IsRegister.unwritten (h : IsRegister step I view fun _ _ => none) (as : List α) {s : σ} (hs : I s) :
    view (run step as s).2 = view s := by
  rw [h.value as hs]
  simp [last]

end Register
