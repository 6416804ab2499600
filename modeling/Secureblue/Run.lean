import Mathlib.Data.List.Induction
import Mathlib.Data.List.Infix

/-! Runs of a system whose steps may refuse, and what holds in every state of a run.

    `throughout_iff` is the rule for a property that a step keeps under a condition on the state before
    it, and breaks otherwise: it holds throughout exactly the runs whose steps all meet the condition. -/

namespace Run
variable {σ α : Type*} (step : α → σ → Option σ)

/-- The state that a list of steps leads to, if none of them refuses. -/
def run (s : σ) (as : List α) : Option σ := as.foldlM (fun s a => step a s) s

/-- The property relates the steps taken so far and the state, in every state of the run. -/
def Throughout (P : List α → σ → Prop) (s : σ) (as : List α) : Prop :=
  ∀ p, p <+: as → ∀ t, run step s p = some t → P p t

/-- Every step of the run is taken in a state that meets its condition. -/
def EachStep (M : σ → α → Prop) (s : σ) (as : List α) : Prop :=
  ∀ p a, p ++ [a] <+: as → ∀ t, run step s p = some t → M t a

variable {step} {P : List α → σ → Prop} {M : σ → α → Prop} {s t : σ}

@[simp] theorem run_nil : run step s [] = some s := rfl

theorem run_concat (as : List α) (a : α) : run step s (as ++ [a]) = (run step s as).bind (step a) := by
  rw [run, List.foldlM_append]
  cases h : run step s as with
  | none => rw [run] at h; simp [h]
  | some t => rw [run] at h; simp [h]

/-- A run that ends normally did so before its last step. -/
theorem run_concat_eq_some {as : List α} {a : α} :
    run step s (as ++ [a]) = some t ↔ ∃ u, run step s as = some u ∧ step a u = some t := by
  rw [run_concat, Option.bind_eq_some_iff]

/-- An invariant of single steps holds after a run. -/
theorem run_invariant {I : σ → Prop} (h₀ : I s) (hstep : ∀ a u v, I u → step a u = some v → I v) {as : List α} :
    ∀ {t}, run step s as = some t → I t := by
  induction as using List.reverseRecOn with
  | nil =>
    intro t h
    cases h
    exact h₀
  | append_singleton as a ih =>
    intro t h
    obtain ⟨u, hu, ha⟩ := run_concat_eq_some.mp h
    exact hstep a u t (ih hu) ha

/-- An invariant that the steps of a list keep holds after them. -/
theorem foldlM_invariant {step : σ → α → Option σ} {I : σ → Prop} {as : List α}
    (hstep : ∀ a ∈ as, ∀ u v, step u a = some v → I u → I v) (hs : I s) (h : as.foldlM step s = some t) : I t := by
  induction as generalizing s with
  | nil =>
    obtain rfl := Option.some.inj h
    exact hs
  | cons a as ih =>
    rw [List.foldlM_cons] at h
    obtain ⟨u, hu, h⟩ := Option.bind_eq_some_iff.mp h
    exact ih (fun b hb => hstep b (List.mem_cons_of_mem a hb)) (hstep a List.mem_cons_self s u hu hs) h

theorem throughout_nil : Throughout step P s [] ↔ P [] s := by
  constructor
  · exact fun h => h [] List.nil_prefix s rfl
  · intro h p hp t ht
    obtain rfl := List.prefix_nil.mp hp
    cases ht
    exact h

theorem throughout_concat {as : List α} {a : α} :
    Throughout step P s (as ++ [a]) ↔
      Throughout step P s as ∧ ∀ t, run step s (as ++ [a]) = some t → P (as ++ [a]) t := by
  constructor
  · exact fun h => ⟨fun p hp => h p (hp.trans (List.prefix_append as [a])), h _ List.prefix_rfl⟩
  · rintro ⟨has, ha⟩ p hp
    rcases List.prefix_concat_iff.mp hp with rfl | hp
    · exact ha
    · exact has p hp

theorem eachStep_concat {as : List α} {a : α} :
    EachStep step M s (as ++ [a]) ↔ EachStep step M s as ∧ ∀ t, run step s as = some t → M t a := by
  constructor
  · exact fun h => ⟨fun p b hp => h p b (hp.trans (List.prefix_append as [a])), h as a List.prefix_rfl⟩
  · rintro ⟨has, ha⟩ p b hp
    rcases List.prefix_concat_iff.mp hp with heq | hp
    · obtain ⟨rfl, hb⟩ := List.append_inj' heq rfl
      obtain rfl := List.singleton_inj.mp hb
      exact ha
    · exact has p b hp

/-- The rule: a step leads to a good state exactly if it meets its condition, so the states of a run are
    all good exactly if all its steps meet theirs. -/
theorem throughout_iff (h₀ : P [] s)
    (hstep : ∀ as a u v, Throughout step P s as → run step s as = some u → step a u = some v →
      (P (as ++ [a]) v ↔ M u a)) {as : List α} :
    ∀ {t}, run step s as = some t → (Throughout step P s as ↔ EachStep step M s as) := by
  induction as using List.reverseRecOn with
  | nil =>
    intro t _
    exact ⟨fun _ p a hp => absurd (List.prefix_nil.mp hp) (by simp), fun _ => throughout_nil.mpr h₀⟩
  | append_singleton as a ih =>
    intro t h
    obtain ⟨u, hu, ha⟩ := run_concat_eq_some.mp h
    rw [throughout_concat, eachStep_concat, h, hu]
    constructor
    · rintro ⟨has, hP⟩
      refine ⟨(ih hu).mp has, ?_⟩
      rintro _ ⟨⟩
      exact (hstep as a u t has hu ha).mp (hP t rfl)
    · rintro ⟨heach, hM⟩
      have has := (ih hu).mpr heach
      refine ⟨has, ?_⟩
      rintro _ ⟨⟩
      exact (hstep as a u t has hu ha).mpr (hM u rfl)

end Run
