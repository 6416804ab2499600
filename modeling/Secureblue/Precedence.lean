import Mathlib.Data.List.Sort

/-! Configuration in named parts, read in the order of their names: of the parts that say something, the
    first one counts (`first_eq_some`), and parts that say nothing can be left out (`first_filter`). -/

namespace Precedence
variable {κ β γ : Type*} [LinearOrder κ] {f : β → Option γ} {parts : List (κ × β)}

/-- What the first part says that says something. -/
def first (f : β → Option γ) (parts : List (κ × β)) : Option γ :=
  (parts.insertionSort fun a b => a.1 ≤ b.1).findSome? fun p => f p.2

theorem pairwise_sorted (hnames : (parts.map Prod.fst).Nodup) :
    (parts.insertionSort fun a b => a.1 ≤ b.1).Pairwise fun a b => a.1 < b.1 := by
  have htotal : Std.Total fun a b : κ × β => a.1 ≤ b.1 := ⟨fun a b => le_total a.1 b.1⟩
  have htrans : IsTrans (κ × β) fun a b => a.1 ≤ b.1 := ⟨fun a b c => le_trans⟩
  have hperm := parts.perm_insertionSort fun a b => a.1 ≤ b.1
  have hne : (parts.insertionSort fun a b => a.1 ≤ b.1).Pairwise fun a b => a.1 ≠ b.1 :=
    List.pairwise_map.mp ((hperm.map Prod.fst).nodup_iff.mpr hnames)
  exact (List.pairwise_insertionSort _ parts).imp₂ (fun a b => lt_of_le_of_ne) hne

/-- CORRECT: what counts is said by a part before which no other says anything. -/
theorem first_eq_some (hnames : (parts.map Prod.fst).Nodup) {c : γ} :
    first f parts = some c ↔ ∃ p ∈ parts, f p.2 = some c ∧ ∀ q ∈ parts, q.1 < p.1 → f q.2 = none := by
  have hperm := parts.perm_insertionSort fun a b => a.1 ≤ b.1
  have hsorted := pairwise_sorted hnames
  rw [first, List.findSome?_eq_some_iff]
  constructor
  · rintro ⟨l₁, p, l₂, hl, hp, hbefore⟩
    have hmem : ∀ q, q ∈ l₁ ++ p :: l₂ ↔ q ∈ parts := fun q => hl ▸ hperm.mem_iff
    rw [hl] at hsorted
    refine ⟨p, (hmem p).mp (by simp), hp, fun q hq hlt => ?_⟩
    rcases List.mem_append.mp ((hmem q).mpr hq) with hq₁ | hq₂
    · exact hbefore q hq₁
    · rcases List.mem_cons.mp hq₂ with rfl | hq₂
      · exact absurd hlt (lt_irrefl _)
      · exact absurd hlt ((List.pairwise_cons.mp (List.pairwise_append.mp hsorted).2.1).1 q hq₂).asymm
  · rintro ⟨p, hp, hfp, hbefore⟩
    obtain ⟨l₁, l₂, hl⟩ := List.append_of_mem (hperm.mem_iff.mpr hp)
    refine ⟨l₁, p, l₂, hl, hfp, fun q hq => ?_⟩
    have hmem : q ∈ parts := hperm.mem_iff.mp (hl ▸ List.mem_append_left _ hq)
    rw [hl] at hsorted
    exact hbefore q hmem ((List.pairwise_append.mp hsorted).2.2 q hq p List.mem_cons_self)

/-- A part before all that say something decides. -/
theorem first_of_least (hnames : (parts.map Prod.fst).Nodup) {p : κ × β} (hp : p ∈ parts) {c : γ}
    (hc : f p.2 = some c)
    (hleast : ∀ q ∈ parts, (f q.2).isSome → p.1 ≤ q.1) : first f parts = some c := by
  refine (first_eq_some hnames).mpr ⟨p, hp, hc, fun q hq hlt => ?_⟩
  by_contra hsome
  exact absurd (hleast q hq (Option.isSome_iff_ne_none.mpr hsome)) (not_le.mpr hlt)

/-- Parts that say nothing can be left out. -/
theorem first_filter (hnames : (parts.map Prod.fst).Nodup) {p : κ × β → Bool}
    (h : ∀ q ∈ parts, (f q.2).isSome → p q) : first f (parts.filter p) = first f parts := by
  have hnames' : ((parts.filter p).map Prod.fst).Nodup := hnames.sublist (List.filter_sublist.map _)
  refine Option.ext fun c => ?_
  rw [first_eq_some hnames, first_eq_some hnames']
  constructor
  · rintro ⟨q, hq, hc, hbefore⟩
    refine ⟨q, (List.mem_filter.mp hq).1, hc, fun r hr hlt => ?_⟩
    by_contra hsome
    exact hsome (hbefore r (List.mem_filter.mpr ⟨hr, h r hr (Option.isSome_iff_ne_none.mpr hsome)⟩) hlt)
  · rintro ⟨q, hq, hc, hbefore⟩
    refine ⟨q, List.mem_filter.mpr ⟨hq, h q hq (by rw [hc]; rfl)⟩, hc, fun r hr hlt => ?_⟩
    exact hbefore r (List.mem_filter.mp hr).1 hlt

end Precedence
