import Mathlib.Data.List.DropRight
import Mathlib.Data.List.Infix

/-! Where one list occurs in another that is made of parts with a separator behind each. -/

namespace Occurs
variable {α : Type*} {c : α} {p a b : List α}

/-- The first separator decides where a list is cut. -/
theorem cut_unique {a' b' : List α} (ha : c ∉ a) (ha' : c ∉ a') (h : a ++ c :: b = a' ++ c :: b') :
    a = a' ∧ b = b' := by
  induction a generalizing a' with
  | nil =>
    cases a' with
    | nil => exact ⟨rfl, (List.cons.inj h).2⟩
    | cons d a' => exact absurd ((List.cons.inj h).1 ▸ List.mem_cons_self) ha'
  | cons d a ih =>
    cases a' with
    | nil => exact absurd ((List.cons.inj h).1 ▸ List.mem_cons_self) ha
    | cons e a' =>
      obtain ⟨rfl, htail⟩ := List.cons.inj h
      obtain ⟨rfl, rfl⟩ := ih (List.not_mem_of_not_mem_cons ha) (List.not_mem_of_not_mem_cons ha') htail
      exact ⟨rfl, rfl⟩

/-- A list without the separator occurs before or behind it. -/
theorem infix_append_cons_iff (hc : c ∉ p) : p <:+: a ++ c :: b ↔ p <:+: a ∨ p <:+: b := by
  constructor
  · rintro ⟨s, t, hst⟩
    rcases List.append_eq_append_iff.mp hst with ⟨r, rfl, -⟩ | ⟨r, hr, htail⟩
    · exact .inl ⟨s, r, rfl⟩
    · cases r with
      | nil =>
        rw [List.append_nil] at hr
        exact .inl ⟨s, [], by rw [List.append_nil, hr]⟩
      | cons d r =>
        -- the separator stands before the occurrence, or in it
        obtain ⟨rfl, rfl⟩ := List.cons.inj htail
        rcases List.append_eq_append_iff.mp hr with ⟨q, -, hq⟩ | ⟨q, rfl, hq⟩
        · exact absurd (hq ▸ List.mem_append_right q List.mem_cons_self) hc
        · cases q with
          | nil =>
            rw [List.nil_append] at hq
            exact absurd (hq ▸ List.mem_cons_self) hc
          | cons e q =>
            obtain ⟨rfl, rfl⟩ := List.cons.inj hq
            exact .inr ⟨q, t, rfl⟩
  · rintro (h | h)
    · exact h.trans (List.prefix_append a _).isInfix
    · exact h.trans ((List.suffix_cons c b).trans (List.suffix_append a _)).isInfix

/-- It occurs in parts that end in the separator if it occurs in one. -/
theorem infix_flatMap_iff (hc : c ∉ p) (hne : p ≠ []) (ls : List (List α)) :
    p <:+: ls.flatMap (fun l => l ++ [c]) ↔ ∃ l ∈ ls, p <:+: l := by
  induction ls with
  | nil => simp [hne]
  | cons l ls ih =>
    rw [List.flatMap_cons, List.append_assoc, List.singleton_append, infix_append_cons_iff hc, ih]
    simp

/-- What starts at the beginning and has no separator ends before it. -/
theorem prefix_append_cons_iff (hc : c ∉ p) : p <+: a ++ c :: b ↔ p <+: a := by
  constructor
  · rintro ⟨t, ht⟩
    rcases List.append_eq_append_iff.mp ht with ⟨r, rfl, -⟩ | ⟨r, rfl, hr⟩
    · exact List.prefix_append p r
    · cases r with
      | nil => rw [List.append_nil]
      | cons d r =>
        obtain ⟨rfl, -⟩ := List.cons.inj hr
        exact absurd (List.mem_append_right a List.mem_cons_self) hc
  · exact fun h => h.trans (List.prefix_append a _)

/-- Two parts around a separator occur around the first one, or behind it. -/
theorem infix_separated_iff {d t : List α} (hd : c ∉ d) (ha : c ∉ a) :
    d ++ c :: t <:+: a ++ c :: b ↔ (d <:+ a ∧ t <+: b) ∨ d ++ c :: t <:+: b := by
  constructor
  · rintro ⟨s, u, hsu⟩
    by_cases hs : c ∈ s
    · obtain ⟨s₁, s₂, rfl, hs₁⟩ := List.eq_append_cons_of_mem hs
      have hsu : s₁ ++ c :: (s₂ ++ (d ++ c :: t) ++ u) = a ++ c :: b := by simpa using hsu
      obtain ⟨-, hb⟩ := cut_unique hs₁ ha hsu
      exact .inr ⟨s₂, u, hb⟩
    · have hsd : c ∉ s ++ d := fun h => (List.mem_append.mp h).elim hs hd
      have hsu : (s ++ d) ++ c :: (t ++ u) = a ++ c :: b := by simpa using hsu
      obtain ⟨rfl, rfl⟩ := cut_unique hsd ha hsu
      exact .inl ⟨List.suffix_append s d, List.prefix_append t u⟩
  · rintro (⟨⟨s, rfl⟩, ⟨u, rfl⟩⟩ | h)
    · exact ⟨s, u, by simp⟩
    · exact h.trans ((List.suffix_cons c b).trans (List.suffix_append a _)).isInfix

/-- In words that the separator follows, two parts around a separator belong to consecutive words. -/
theorem infix_words_iff {d n : List α} (hd : c ∉ d) (hn : c ∉ n) (hne : n ≠ []) {ws : List (List α)}
    (hws : ∀ w ∈ ws, c ∉ w) : d ++ c :: n <:+: ws.flatMap (fun w => w ++ [c]) ↔
      ∃ w w', [w, w'] <:+: ws ∧ d <:+ w ∧ n <+: w' := by
  induction ws with
  | nil => simp
  | cons w ws ih =>
    rw [List.flatMap_cons, List.append_assoc, List.singleton_append,
      infix_separated_iff hd (hws w List.mem_cons_self), ih fun v hv => hws v (List.mem_cons_of_mem w hv)]
    cases ws with
    | nil => simp [hne, List.infix_cons_iff]
    | cons w' ws =>
      rw [List.flatMap_cons, List.append_assoc, List.singleton_append, prefix_append_cons_iff hn]
      simp only [@List.infix_cons_iff _ _ w, List.cons_prefix_cons]
      constructor
      · rintro (⟨hdw, hnw⟩ | ⟨v, v', hv, hdv, hnv⟩)
        · exact ⟨w, w', .inl ⟨rfl, rfl, List.nil_prefix⟩, hdw, hnw⟩
        · exact ⟨v, v', .inr hv, hdv, hnv⟩
      · rintro ⟨v, v', ⟨rfl, rfl, -⟩ | hv, hdv, hnv⟩
        · exact .inl ⟨hdv, hnv⟩
        · exact .inr ⟨v, v', hv, hdv, hnv⟩

/-! ### Stripped ends -/

section
variable {q : α → Bool}

/-- What does not start with a stripped character survives on the left. -/
theorem infix_dropWhile_iff (hp : ∃ x ∈ p.head?, q x = false) : p <:+: a.dropWhile q ↔ p <:+: a := by
  obtain ⟨x, hx, hq⟩ := hp
  obtain ⟨tail, rfl⟩ := List.head?_eq_some_iff.mp hx
  induction a with
  | nil => rfl
  | cons y a ih =>
    cases hy : q y with
    | true =>
      have hne : ¬x :: tail <+: y :: a := fun h => by
        rw [(List.cons_prefix_cons.mp h).1, hy] at hq
        cases hq
      rw [List.dropWhile_cons_of_pos hy, ih, List.infix_cons_iff, or_iff_right hne]
    | false => rw [List.dropWhile_cons_of_neg (by rw [hy]; decide)]

/-- And what does not end in one on the right. -/
theorem infix_rdropWhile_iff (hp : ∃ x ∈ p.getLast?, q x = false) : p <:+: a.rdropWhile q ↔ p <:+: a := by
  rw [List.rdropWhile, ← List.reverse_infix, List.reverse_reverse,
    infix_dropWhile_iff (by rwa [List.head?_reverse]), List.reverse_infix]

end

end Occurs
