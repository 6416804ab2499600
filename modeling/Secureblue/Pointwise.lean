import Mathlib.Data.List.Forall2

/-! Lists of the same length whose entries are related one by one. -/

namespace Pointwise
variable {α β γ : Type*} {R : α → β → Prop} {l : List α} {l' : List β}

/-- What related entries have in common, the lists have in common. -/
theorem map_eq {f : α → γ} {g : β → γ} (h : List.Forall₂ R l l') (hR : ∀ a b, R a b → f a = g b) :
    l.map f = l'.map g := by
  induction h with
  | nil => rfl
  | cons hab _ ih => rw [List.map_cons, List.map_cons, hR _ _ hab, ih]

theorem exists_of_mem (h : List.Forall₂ R l l') {a : α} (ha : a ∈ l) : ∃ b ∈ l', R a b := by
  induction h with
  | nil => cases ha
  | cons hab _ ih =>
    rcases List.mem_cons.mp ha with rfl | ha
    · exact ⟨_, List.mem_cons_self, hab⟩
    · obtain ⟨b, hb, hR⟩ := ih ha
      exact ⟨b, List.mem_cons_of_mem _ hb, hR⟩

/-- A list beside two appended ones comes in two parts. -/
theorem exists_of_append {l₁ l₂ : List β} (h : List.Forall₂ R l (l₁ ++ l₂)) :
    ∃ k₁ k₂, List.Forall₂ R k₁ l₁ ∧ List.Forall₂ R k₂ l₂ ∧ l = k₁ ++ k₂ :=
  ⟨_, _, List.forall₂_take_append l l₁ l₂ h, List.forall₂_drop_append l l₁ l₂ h,
    (List.take_append_drop l₁.length l).symm⟩

end Pointwise
