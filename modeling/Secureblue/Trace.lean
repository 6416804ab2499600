import Mathlib.Data.List.Induction

/-! Traces: each element of a list related to the ones before it. -/

namespace Trace

variable {α β : Type*}

/-- Each element is related to the list of those before it. -/
def Each (R : List α → α → Prop) (l : List α) : Prop :=
  ∀ before a after, l = before ++ a :: after → R before a

variable {R S : List α → α → Prop}

theorem Each.nil : Each R [] := fun before a after h => absurd h (by simp)

theorem each_cons {a : α} {l : List α} : Each R (a :: l) ↔ R [] a ∧ Each (fun before => R (a :: before)) l := by
  constructor
  · intro h
    exact ⟨h [] a l rfl, fun before b after hl => h (a :: before) b after (by rw [hl]; rfl)⟩
  · rintro ⟨ha, hl⟩ before b after h
    cases before with
    | nil =>
      obtain ⟨rfl, -⟩ := List.cons.inj h
      exact ha
    | cons c before =>
      obtain ⟨rfl, hrest⟩ := List.cons.inj h
      exact hl before b after hrest

theorem each_append {l m : List α} :
    Each R (l ++ m) ↔ Each R l ∧ Each (fun before => R (l ++ before)) m := by
  induction l generalizing R with
  | nil => exact ⟨fun h => ⟨Each.nil, h⟩, fun h => h.2⟩
  | cons a l ih =>
    rw [List.cons_append, each_cons, ih, each_cons, and_assoc]
    rfl

/-- A trace of blocks: each block after the blocks before it. -/
theorem each_flatMap {f : β → List α} {bs : List β} : Each R (bs.flatMap f)
    ↔ Each (fun before b => Each (fun pre => R (before.flatMap f ++ pre)) (f b)) bs := by
  induction bs using List.reverseRecOn with
  | nil => exact ⟨fun _ => Each.nil, fun _ => Each.nil⟩
  | append_singleton bs b ih =>
    rw [List.flatMap_append, List.flatMap_singleton, each_append, ih, each_append, each_cons]
    simp only [List.append_nil]
    exact ⟨fun h => ⟨h.1, h.2, Each.nil⟩, fun h => ⟨h.1, h.2.1⟩⟩

/-- A relation that holds of all the elements holds of each. -/
theorem Each.of_forall {l : List α} (h : ∀ before, ∀ a ∈ l, R before a) : Each R l :=
  fun before a _ hl => h before a (hl ▸ List.mem_append_right before List.mem_cons_self)

theorem each_congr {l : List α} (h : ∀ before a, R before a ↔ S before a) : Each R l ↔ Each S l :=
  ⟨fun hr before a after hl => (h before a).mp (hr before a after hl),
    fun hs before a after hl => (h before a).mpr (hs before a after hl)⟩

end Trace
