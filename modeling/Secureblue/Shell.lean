import Mathlib.Data.List.Basic
import Mathlib.Data.List.Infix

/-! Shell patterns and the parameter expansions that remove what they match: `${w#p}` and `${w##p}`
    from the front, the shortest or the longest match, `${w%p}` from the back; and `${w//p/s}`, which
    replaces every match.

    An expansion is specified by its cut: the word is kept up to the first (or last) position at which
    the pattern matches what is removed (`removePrefix_eq`, `removeLongestPrefix_eq`,
    `removeSuffix_eq`). The patterns in use are literals, `*` before a literal and `*` after one; for
    each, the cut is described in terms of the literal alone. -/

namespace Shell
variable {α : Type} [DecidableEq α]

/-! ### Patterns -/

/-- One token of a pattern. -/
inductive Token (α : Type) where
  | char (c : α)
  /-- `*` -/
  | any
  deriving DecidableEq, Repr

/-- A pattern of the shell, without `?` and bracket expressions. -/
abbrev Pattern (α : Type) := List (Token α)

/-- A quoted text in a pattern. -/
def lit (s : List α) : Pattern α := s.map .char

/-- `*` -/
def wild : Pattern α := [.any]

/-- The whole word matches the pattern. -/
def Matches : Pattern α → List α → Bool
  | [], w => w.isEmpty
  | .char c :: p, w => decide (w.head? = some c) && Matches p w.tail
  | .any :: p, w => w.tails.any (Matches p)

theorem matches_any {p : Pattern α} {w : List α} :
    Matches (.any :: p) w ↔ ∃ t, t <:+ w ∧ Matches p t := by
  simp [Matches]

@[simp] theorem matches_wild (w : List α) : Matches wild w = true :=
  matches_any.mpr ⟨[], List.nil_suffix, rfl⟩

theorem matches_lit_append {p : Pattern α} : ∀ {s w : List α},
    Matches (lit s ++ p) w ↔ ∃ t, w = s ++ t ∧ Matches p t
  | [], w => by simp [lit]
  | c :: s, [] => by simp [lit, Matches]
  | c :: s, d :: w => by
      have ih := matches_lit_append (p := p) (s := s) (w := w)
      simp only [lit, List.map_cons, List.cons_append, Matches, List.head?_cons, List.tail_cons] at ih ⊢
      by_cases hd : d = c
      · simp [hd, ih]
      · simp [hd]

/-- A literal matches itself. -/
@[simp] theorem matches_lit {s w : List α} : Matches (lit s) w ↔ w = s := by
  have h := matches_lit_append (p := ([] : Pattern α)) (s := s) (w := w)
  simpa [Matches] using h

/-- A literal followed by `*` matches what starts with it. -/
@[simp] theorem matches_lit_wild {s w : List α} : Matches (lit s ++ wild) w ↔ s <+: w := by
  rw [matches_lit_append]
  exact ⟨fun ⟨t, h, _⟩ => ⟨t, h.symm⟩, fun ⟨t, h⟩ => ⟨t, h.symm, matches_wild t⟩⟩

/-- A literal after `*` matches what ends with it. -/
@[simp] theorem matches_wild_lit {s w : List α} : Matches (wild ++ lit s) w ↔ s <:+ w := by
  rw [wild, List.singleton_append, matches_any]
  constructor
  · rintro ⟨t, ht, hs⟩
    rwa [← matches_lit.mp hs]
  · exact fun h => ⟨s, h, matches_lit.mpr rfl⟩

/-! ### Expansions -/

/-- `${w#p}` -/
def removePrefix (w : List α) (p : Pattern α) : List α :=
  match (List.range (w.length + 1)).find? fun n => Matches p (w.take n) with
  | some n => w.drop n
  | none => w

/-- `${w##p}` -/
def removeLongestPrefix (w : List α) (p : Pattern α) : List α :=
  match (List.range (w.length + 1)).reverse.find? fun n => Matches p (w.take n) with
  | some n => w.drop n
  | none => w

/-- `${w%p}` -/
def removeSuffix (w : List α) (p : Pattern α) : List α :=
  match (List.range (w.length + 1)).reverse.find? fun n => Matches p (w.drop n) with
  | some n => w.take n
  | none => w

/-- The first number below `m` with a property. -/
theorem find_range {q : ℕ → Bool} {m n : ℕ} (hn : n < m) (hq : q n) (hlt : ∀ k < n, q k = false) :
    (List.range m).find? q = some n := by
  rw [List.find?_range_eq_some]
  exact ⟨hq, List.mem_range.mpr hn, fun k hk => by simp [hlt k hk]⟩

theorem find_range_none {q : ℕ → Bool} {m : ℕ} (h : ∀ k < m, q k = false) : (List.range m).find? q = none := by
  rw [List.find?_eq_none]
  intro k hk
  simp [h k (List.mem_range.mp hk)]

/-- The last number below `m` with a property. -/
theorem find_range_reverse {q : ℕ → Bool} {n : ℕ} (hq : q n) : ∀ {m : ℕ}, n < m →
    (∀ k, n < k → k < m → q k = false) → (List.range m).reverse.find? q = some n
  | m + 1, hn, hgt => by
      rw [List.range_succ, List.reverse_append, List.reverse_singleton, List.singleton_append]
      rcases Nat.lt_succ_iff_lt_or_eq.mp hn with hlt | rfl
      · rw [List.find?_cons_of_neg (by simp [hgt m hlt (Nat.lt_succ_self m)])]
        exact find_range_reverse hq hlt fun k hk hkm => hgt k hk (Nat.lt_succ_of_lt hkm)
      · rw [List.find?_cons_of_pos hq]

theorem find_range_reverse_none {q : ℕ → Bool} {m : ℕ} (h : ∀ k < m, q k = false) :
    (List.range m).reverse.find? q = none := by
  rw [List.find?_eq_none]
  intro k hk
  simp [h k (List.mem_range.mp (List.mem_reverse.mp hk))]

/-- The shortest front part that matches is removed. -/
theorem removePrefix_eq {p : Pattern α} {a b : List α} (h : Matches p a)
    (hlt : ∀ k < a.length, Matches p (a.take k) = false) : removePrefix (a ++ b) p = b := by
  rw [removePrefix, find_range (n := a.length)]
  · exact List.drop_left
  · simp only [List.length_append]
    omega
  · rw [List.take_left]
    exact h
  · intro k hk
    rw [List.take_append_of_le_length (Nat.le_of_lt hk)]
    exact hlt k hk

theorem removePrefix_of_not {p : Pattern α} {w : List α} (h : ∀ k, Matches p (w.take k) = false) :
    removePrefix w p = w := by
  rw [removePrefix, find_range_none fun k _ => h k]

/-- What is removed is a front part that matches. -/
theorem removePrefix_cases (p : Pattern α) (w : List α) :
    removePrefix w p = w ∨ ∃ a, Matches p a ∧ w = a ++ removePrefix w p := by
  rw [removePrefix]
  split
  · next n hn =>
    have hm : Matches p (w.take n) := by simpa using List.find?_some hn
    exact Or.inr ⟨w.take n, hm, (List.take_append_drop n w).symm⟩
  · exact Or.inl rfl

/-- The longest front part that matches is removed. -/
theorem removeLongestPrefix_eq {p : Pattern α} {a b : List α} (h : Matches p a)
    (hgt : ∀ k, a.length < k → k ≤ (a ++ b).length → Matches p ((a ++ b).take k) = false) :
    removeLongestPrefix (a ++ b) p = b := by
  rw [removeLongestPrefix, find_range_reverse (n := a.length)]
  · exact List.drop_left
  · rw [List.take_left]
    exact h
  · simp only [List.length_append]
    omega
  · exact fun k hk hkm => hgt k hk (Nat.lt_succ_iff.mp hkm)

/-- The shortest back part that matches is removed. -/
theorem removeSuffix_eq {p : Pattern α} {a b : List α} (h : Matches p b)
    (hgt : ∀ k, a.length < k → k ≤ (a ++ b).length → Matches p ((a ++ b).drop k) = false) :
    removeSuffix (a ++ b) p = a := by
  rw [removeSuffix, find_range_reverse (n := a.length)]
  · exact List.take_left
  · rw [List.drop_left]
    exact h
  · simp only [List.length_append]
    omega
  · exact fun k hk hkm => hgt k hk (Nat.lt_succ_iff.mp hkm)

theorem removeSuffix_of_not {p : Pattern α} {w : List α} (h : ∀ k, Matches p (w.drop k) = false) :
    removeSuffix w p = w := by
  rw [removeSuffix, find_range_reverse_none fun k _ => h k]

/-! ### Literals, and a literal beside `*` -/

theorem not_matches {p : Pattern α} {w : List α} {P : Prop} (h : Matches p w ↔ P) (hP : ¬P) :
    Matches p w = false :=
  Bool.eq_false_iff.mpr fun hm => hP (h.mp hm)

/-- `${w#s}` -/
@[simp] theorem removePrefix_lit (s w : List α) : removePrefix (s ++ w) (lit s) = w := by
  refine removePrefix_eq (matches_lit.mpr rfl) fun k hk => not_matches matches_lit ?_
  intro h
  have := congrArg List.length h
  simp only [List.length_take] at this
  omega

theorem removePrefix_lit_of_not {s w : List α} (h : ¬s <+: w) : removePrefix w (lit s) = w :=
  removePrefix_of_not fun k => not_matches matches_lit fun hk => h (hk ▸ List.take_prefix k w)

/-- `${w#*c}` -/
theorem removePrefix_wild_char {c : α} {a : List α} (ha : c ∉ a) (b : List α) :
    removePrefix (a ++ c :: b) (wild ++ lit [c]) = b := by
  rw [← List.singleton_append, ← List.append_assoc]
  refine removePrefix_eq (matches_wild_lit.mpr (List.suffix_append a [c])) fun k hk =>
    not_matches matches_wild_lit fun hc => ha ?_
  rw [List.length_append, List.length_singleton] at hk
  rw [List.take_append_of_le_length (by omega)] at hc
  exact List.mem_of_mem_take (hc.subset (List.mem_singleton_self c))

/-- `${w##*c}` -/
theorem removeLongestPrefix_wild_char {c : α} {b : List α} (hb : c ∉ b) (a : List α) :
    removeLongestPrefix (a ++ c :: b) (wild ++ lit [c]) = b := by
  rw [← List.singleton_append, ← List.append_assoc]
  refine removeLongestPrefix_eq (matches_wild_lit.mpr (List.suffix_append a [c])) fun k hk hkm =>
    not_matches matches_wild_lit fun hc => hb ?_
  rw [List.length_append] at hkm
  obtain ⟨n, rfl⟩ := Nat.exists_eq_add_of_lt hk
  rw [Nat.add_assoc, List.take_length_add_append] at hc
  have hne : b.take (n + 1) ≠ [] := by
    cases b with
    | nil => simp only [List.length_nil] at hkm; omega
    | cons d b => exact List.cons_ne_nil d _
  have hsuf := List.suffix_of_suffix_length_le hc (List.suffix_append _ _)
    (List.length_pos_of_ne_nil hne)
  exact List.mem_of_mem_take (hsuf.subset (List.mem_singleton_self c))

/-- `${w%s}` -/
@[simp] theorem removeSuffix_lit (w s : List α) : removeSuffix (w ++ s) (lit s) = w := by
  refine removeSuffix_eq (matches_lit.mpr rfl) fun k hk hkm => not_matches matches_lit ?_
  intro h
  have := congrArg List.length h
  simp only [List.length_drop, List.length_append] at this hkm
  omega

theorem removeSuffix_lit_of_not {s w : List α} (h : ¬s <:+ w) : removeSuffix w (lit s) = w :=
  removeSuffix_of_not fun k => not_matches matches_lit fun hk => h (hk ▸ List.drop_suffix k w)

/-- `${w%c*}` -/
theorem removeSuffix_char_wild {c : α} {b : List α} (hb : c ∉ b) (a : List α) :
    removeSuffix (a ++ c :: b) (lit [c] ++ wild) = a := by
  refine removeSuffix_eq (matches_lit_wild.mpr (List.prefix_append [c] b)) fun k hk hkm =>
    not_matches matches_lit_wild fun hc => hb ?_
  obtain ⟨n, rfl⟩ := Nat.exists_eq_add_of_lt hk
  rw [Nat.add_assoc, List.drop_length_add_append, List.drop_succ_cons] at hc
  exact List.mem_of_mem_drop (hc.subset (List.mem_singleton_self c))

/-- A word that contains a character is cut at its last occurrence. -/
theorem exists_last {c : α} : ∀ {w : List α}, c ∈ w → ∃ a b, w = a ++ c :: b ∧ c ∉ b
  | d :: w, h => by
      by_cases hw : c ∈ w
      · obtain ⟨a, b, rfl, hb⟩ := exists_last hw
        exact ⟨d :: a, b, rfl, hb⟩
      · obtain rfl := (List.mem_cons.mp h).resolve_right hw
        exact ⟨[], w, rfl, hw⟩

theorem append_cons_inj_last {c : α} {a a' b b' : List α} (hb : c ∉ b) (hb' : c ∉ b')
    (h : a ++ c :: b = a' ++ c :: b') : a = a' ∧ b = b' := by
  have hbb := congrArg (removeLongestPrefix · (wild ++ lit [c])) h
  have haa := congrArg (removeSuffix · (lit [c] ++ wild)) h
  simp only [removeLongestPrefix_wild_char hb, removeLongestPrefix_wild_char hb'] at hbb
  simp only [removeSuffix_char_wild hb, removeSuffix_char_wild hb'] at haa
  exact ⟨haa, hbb⟩

theorem removeSuffix_char_wild_of_not {c : α} {w : List α} (h : c ∉ w) :
    removeSuffix w (lit [c] ++ wild) = w :=
  removeSuffix_of_not fun _ => not_matches matches_lit_wild fun hc =>
    h (List.mem_of_mem_drop (hc.subset (List.mem_singleton_self c)))

/-! ### `sed s/old/new/` on one line -/

/-- The first occurrence of a text is replaced. -/
def substitute (old new : List α) : List α → List α
  | [] => if old = [] then new else []
  | c :: w => if old <+: c :: w then new ++ (c :: w).drop old.length else c :: substitute old new w

theorem substitute_prefix {old : List α} (new : List α) (hold : old ≠ []) (w : List α) :
    substitute old new (old ++ w) = new ++ w := by
  cases old with
  | nil => exact absurd rfl hold
  | cons c old =>
    rw [List.cons_append, substitute, if_pos ⟨w, rfl⟩, ← List.cons_append, List.drop_left]

theorem substitute_cons_of_not {old new : List α} {c : α} {w : List α} (h : ¬old <+: c :: w) :
    substitute old new (c :: w) = c :: substitute old new w := by
  rw [substitute, if_neg h]

/-- No occurrence starts before the first character of the text. -/
theorem substitute_append {c : α} {old new : List α} : ∀ {a : List α}, c ∉ a → ∀ w : List α,
    substitute (c :: old) new (a ++ w) = a ++ substitute (c :: old) new w
  | [], _, w => rfl
  | d :: a, h, w => by
      have hd : ¬c :: old <+: d :: (a ++ w) := by
        rintro ⟨t, ht⟩
        exact h (List.mem_cons.mpr (Or.inl (List.cons.inj ht).1))
      rw [List.cons_append, substitute_cons_of_not hd,
        substitute_append (fun hc => h (List.mem_cons_of_mem d hc)) w, List.cons_append]

theorem substitute_of_not_mem {c : α} {old new a : List α} (h : c ∉ a) :
    substitute (c :: old) new a = a := by
  have ha : substitute (c :: old) new (a ++ []) = _ := substitute_append h []
  simpa [substitute] using ha

/-! ### Replacing every match -/

/-- The length of the longest match, not empty, at the start of a word. -/
def longestMatch (p : Pattern α) (w : List α) : Option ℕ :=
  (List.range (w.length + 1)).reverse.find? fun n => 0 < n && Matches p (w.take n)

/-- `${w//p/s}` from the left, where `skip` characters of the last match are still to be passed over. -/
def replaceAllFrom (p : Pattern α) (new : List α) : ℕ → List α → List α
  | _, [] => []
  | skip + 1, _ :: w => replaceAllFrom p new skip w
  | 0, c :: w =>
    match longestMatch p (c :: w) with
    | some n => new ++ replaceAllFrom p new (n - 1) w
    | none => c :: replaceAllFrom p new 0 w

/-- `${w//p/s}` -/
def replaceAll (w : List α) (p : Pattern α) (new : List α) : List α := replaceAllFrom p new 0 w

theorem longestMatch_char (a c : α) (w : List α) :
    longestMatch (lit [a]) (c :: w) = if c = a then some 1 else none := by
  have hmatch : ∀ n, (decide (0 < n) && Matches (lit [a]) ((c :: w).take n)) = true ↔
      0 < n ∧ (c :: w).take n = [a] := by
    intro n
    rw [Bool.and_eq_true, decide_eq_true_iff, matches_lit]
  split
  · next h =>
    subst h
    refine find_range_reverse (by simp) (by simp) fun k hk hlt => ?_
    rw [Bool.eq_false_iff, Ne, hmatch]
    rintro ⟨-, htake⟩
    have hlen := congrArg List.length htake
    simp only [List.length_take, List.length_cons, List.length_nil] at hlen hlt
    omega
  · next h =>
    refine find_range_reverse_none fun k _ => ?_
    rw [Bool.eq_false_iff, Ne, hmatch]
    rintro ⟨hpos, htake⟩
    obtain ⟨n, rfl⟩ := Nat.exists_eq_add_of_lt hpos
    rw [Nat.zero_add, List.take_succ_cons] at htake
    exact h (List.cons.inj htake).1

/-- Replacing one character acts on each character by itself. -/
theorem replaceAll_char (a : α) (new w : List α) :
    replaceAll w (lit [a]) new = w.flatMap fun c => if c = a then new else [c] := by
  induction w with
  | nil => rfl
  | cons c w ih =>
    have ih : replaceAllFrom (lit [a]) new 0 w = _ := ih
    rw [replaceAll, replaceAllFrom, longestMatch_char, List.flatMap_cons]
    by_cases h : c = a
    · simp [h, ih]
    · simp [h, ih]

end Shell
