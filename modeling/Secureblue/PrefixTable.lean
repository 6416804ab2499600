import Mathlib.Data.List.Infix

/-! Words whose front is replaced by a name, by the first entry of a table that fits.

    Two words are rewritten to one only if they are equal or a front and its name before one rest, as
    long as the names are told apart from each other and from the fronts (`Separated.rewrite_eq`). -/

namespace PrefixTable

/-- Two texts before one word are comparable. -/
theorem prefixes_comparable {α : Type} {a b r s : List α} (h : a ++ r = b ++ s) : a <+: b ∨ b <+: a :=
  List.prefix_or_prefix_of_prefix (List.prefix_append a r) ⟨s, h.symm⟩

variable {α : Type}

/-! ### Tables -/

/-- Names and the fronts they stand for, in the order in which they are tried. -/
abbrev Table (α : Type) := List (List α × List α)

/-- A word with a front of the table, and the same rest behind the name. -/
def Pair (table : Table α) (a b : List α) : Prop :=
  ∃ e ∈ table, ∃ r, a = e.2 ++ r ∧ b = e.1 ++ r

/-- No name starts with another, and none is comparable with a front. -/
structure Separated (table : Table α) : Prop where
  names : ∀ e ∈ table, ∀ e' ∈ table, e.1 <+: e'.1 → e = e'
  fresh : ∀ e ∈ table, ∀ e' ∈ table, ¬e.2 <+: e'.1 ∧ ¬e'.1 <+: e.2

variable {table : Table α} {e e' : List α × List α} {w : List α}

/-- The name at the front of a word is determined. -/
theorem Separated.name_inj (hs : Separated table) (he : e ∈ table) (he' : e' ∈ table) {r r' : List α}
    (h : e.1 ++ r = e'.1 ++ r') : e = e' ∧ r = r' := by
  have hee : e = e' := (prefixes_comparable h).elim (hs.names e he e' he') fun h => (hs.names e' he' e he h).symm
  subst hee
  exact ⟨rfl, List.append_cancel_left h⟩

/-- No front stands before a word that starts with a name. -/
theorem Separated.front_ne_name (hs : Separated table) (he : e ∈ table) (he' : e' ∈ table) (r r' : List α) :
    e.2 ++ r ≠ e'.1 ++ r' := by
  intro h
  obtain ⟨h₁, h₂⟩ := hs.fresh e he e' he'
  exact (prefixes_comparable h).elim h₁ h₂

/-! ### Rewriting -/

variable [DecidableEq α]

/-- The first entry whose front the word has. -/
def find (table : Table α) (w : List α) : Option (List α × List α) :=
  table.find? fun e => decide (e.2 <+: w)

/-- The word with its front replaced by the name. -/
def rewrite (table : Table α) (w : List α) : List α :=
  match find table w with
  | some e => e.1 ++ w.drop e.2.length
  | none => w

theorem find_eq_some (h : find table w = some e) : e ∈ table ∧ ∃ r, w = e.2 ++ r := by
  obtain ⟨r, hr⟩ : e.2 <+: w := by simpa using List.find?_some h
  exact ⟨List.mem_of_find?_eq_some h, r, hr.symm⟩

/-- An entry is found where none before it fits. -/
theorem find_append {before after : Table α} {r : List α} (h : ∀ a ∈ before, ¬a.2 <+: e.2 ++ r) :
    find (before ++ e :: after) (e.2 ++ r) = some e := by
  have hnone : before.find? (fun a => decide (a.2 <+: e.2 ++ r)) = none := by
    rw [List.find?_eq_none]
    intro a ha
    simpa using h a ha
  rw [find, List.find?_append, hnone, Option.none_or, List.find?_cons_of_pos]
  exact decide_eq_true (List.prefix_append e.2 r)

theorem rewrite_of_find_none (h : find table w = none) : rewrite table w = w := by
  rw [rewrite, h]

theorem rewrite_append {r : List α} (h : find table (e.2 ++ r) = some e) :
    rewrite table (e.2 ++ r) = e.1 ++ r := by
  rw [rewrite, h]
  exact congrArg (e.1 ++ ·) List.drop_left

/-- A word is rewritten at most at its front. -/
theorem rewrite_cases (table : Table α) (w : List α) :
    find table w = none ∧ rewrite table w = w ∨
      ∃ e ∈ table, ∃ r, w = e.2 ++ r ∧ rewrite table w = e.1 ++ r := by
  cases h : find table w with
  | none => exact Or.inl ⟨rfl, rewrite_of_find_none h⟩
  | some e =>
    obtain ⟨he, r, rfl⟩ := find_eq_some h
    exact Or.inr ⟨e, he, r, rfl, rewrite_append h⟩

namespace Separated
variable (hs : Separated table)
include hs

/-- What starts with a name has no front. -/
theorem find_name (he : e ∈ table) (r : List α) : find table (e.1 ++ r) = none := by
  rw [find, List.find?_eq_none]
  intro e' he' h
  obtain ⟨s, h⟩ : e'.2 <+: e.1 ++ r := by simpa using h
  exact hs.front_ne_name he' he s r h

theorem rewrite_name (he : e ∈ table) (r : List α) : rewrite table (e.1 ++ r) = e.1 ++ r :=
  rewrite_of_find_none (hs.find_name he r)

/-- Words rewritten to one are equal or paired by the table. -/
theorem rewrite_eq {a b : List α} (h : rewrite table a = rewrite table b) :
    a = b ∨ Pair table a b ∨ Pair table b a := by
  rcases rewrite_cases table a with ⟨-, ha⟩ | ⟨e, he, r, rfl, ha⟩
  · rcases rewrite_cases table b with ⟨-, hb⟩ | ⟨e, he, r, rfl, hb⟩
    · exact Or.inl (by rw [← ha, h, hb])
    · exact Or.inr (Or.inr ⟨e, he, r, rfl, by rw [← ha, h, hb]⟩)
  · rcases rewrite_cases table b with ⟨-, hb⟩ | ⟨e', he', r', rfl, hb⟩
    · exact Or.inr (Or.inl ⟨e, he, r, rfl, by rw [← hb, ← h, ha]⟩)
    · obtain ⟨rfl, rfl⟩ := hs.name_inj he he' (by rw [← ha, h, hb])
      exact Or.inl rfl

end Separated

end PrefixTable
