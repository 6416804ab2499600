import Secureblue.Py.Text

/-! Scripts that act on a state and may raise. -/

namespace Py

/-- A script that may raise; what it did until then stays. -/
abbrev Script (σ α : Type) := ExceptT Exn (StateM σ) α

namespace Script
variable {σ α β : Type} {m : Script σ α} {f : α → Script σ β}

/-- The outcome of a script, and the state it leaves. -/
def exec (m : Script σ α) (s : σ) : Except Exn α × σ := m.run.run s

/-- A step that cannot fail. -/
def act (f : σ → σ) : Script σ Unit := modify f

/-- A step that may fail, and then changes nothing. -/
def attempt (f : σ → Except Exn σ) : Script σ Unit := ExceptT.mk fun s =>
  match f s with
  | .ok s' => (.ok (), s')
  | .error e => (.error e, s)

@[simp] theorem exec_pure (a : α) (s : σ) : exec (pure a : Script σ α) s = (.ok a, s) := rfl

@[simp] theorem exec_act (f : σ → σ) (s : σ) : exec (act f) s = (.ok (), f s) := rfl

theorem exec_attempt (f : σ → Except Exn σ) (s : σ) :
    exec (attempt f) s = match f s with
      | .ok s' => (.ok (), s')
      | .error e => (.error e, s) := rfl

theorem exec_bind (m : Script σ α) (f : α → Script σ β) (s : σ) :
    exec (m >>= f) s = match exec m s with
      | (.ok a, s') => exec (f a) s'
      | (.error e, s') => (.error e, s') := by
  simp only [exec, ExceptT.run_bind, StateT.run_bind]
  generalize StateT.run (ExceptT.run m) s = r
  obtain ⟨_ | _, _⟩ := r <;> rfl

/-- A script ends normally if its first part does, and then the rest from there. -/
theorem exec_bind_eq_ok {s s'' : σ} {b : β} : exec (m >>= f) s = (.ok b, s'') ↔
    ∃ a s', exec m s = (.ok a, s') ∧ exec (f a) s' = (.ok b, s'') := by
  rw [exec_bind]
  obtain ⟨_ | a, s'⟩ := exec m s
  · simp
  · constructor
    · exact fun h => ⟨a, s', rfl, h⟩
    · rintro ⟨_, _, ⟨⟩, h⟩
      exact h

theorem exec_attempt_eq_ok {f : σ → Except Exn σ} {s s' : σ} :
    exec (attempt f) s = (.ok (), s') ↔ f s = .ok s' := by
  rw [exec_attempt]
  cases f s <;> simp

/-! ### What a script does to a view of the state -/

section
variable {τ : Type} {view : σ → τ} {t t' t'' : τ} {a : α} {b : β}

/-- From every state with the view `t`, the script ends normally with the value `a` in a state with
    the view `t'`. -/
def Takes (view : σ → τ) (m : Script σ α) (t : τ) (a : α) (t' : τ) : Prop :=
  ∀ s, view s = t → ∃ s', exec m s = (.ok a, s') ∧ view s' = t'

theorem Takes.pure : Takes view (Pure.pure a) t a t := fun s hs => ⟨s, rfl, hs⟩

theorem Takes.bind (hm : Takes view m t a t') (hf : Takes view (f a) t' b t'') :
    Takes view (m >>= f) t b t'' := by
  intro s hs
  obtain ⟨s', hs', ht'⟩ := hm s hs
  obtain ⟨s'', hs'', ht''⟩ := hf s' ht'
  exact ⟨s'', exec_bind_eq_ok.mpr ⟨a, s', hs', hs''⟩, ht''⟩

theorem Takes.act {f : σ → σ} {g : τ → τ} (h : ∀ s, view (f s) = g (view s)) :
    Takes view (act f) t () (g t) := by
  rintro s rfl
  exact ⟨f s, rfl, h s⟩

theorem Takes.attempt {f : σ → Except Exn σ} (h : ∀ s, view s = t → ∃ s', f s = .ok s' ∧ view s' = t') :
    Takes view (attempt f) t () t' := by
  intro s hs
  obtain ⟨s', hs', ht'⟩ := h s hs
  exact ⟨s', exec_attempt_eq_ok.mpr hs', ht'⟩

end

end Script

end Py
