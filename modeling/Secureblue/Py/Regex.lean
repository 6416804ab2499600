import Mathlib.Computability.Language
import Secureblue.Py.Text

/-! Regular expressions over character classes, with `re.fullmatch`.

    An expression stands for a language (`Regex.lang`); the match is computed by derivatives and agrees
    with the language (`fullmatch_iff`). Groups are non-capturing, so backtracking and greediness leave
    no trace in the result of a full match. -/

namespace Py
open Computability

inductive Regex where
  | none
  | empty
  | char (p : Char → Bool)
  | seq (r s : Regex)
  | alt (r s : Regex)
  | star (r : Regex)

namespace Regex

/-- The texts that an expression matches. -/
def lang : Regex → Language Char
  | none => 0
  | empty => 1
  | char p => {t | ∃ c, p c ∧ t = [c]}
  | seq r s => r.lang * s.lang
  | alt r s => r.lang + s.lang
  | star r => r.lang∗

/-- `(?:r)?` -/
def opt (r : Regex) : Regex := alt r empty

/-- `.`, without `re.DOTALL` -/
def dot : Regex := char (· ≠ '\n')

/-- `\s` -/
def space : Regex := char isSpace

/-- `re.escape(t)` -/
def lit : Text → Regex
  | [] => empty
  | c :: t => seq (char (· = c)) (lit t)

/-! ### Matching -/

def nullable : Regex → Bool
  | none => false
  | empty => true
  | char _ => false
  | seq r s => r.nullable && s.nullable
  | alt r s => r.nullable || s.nullable
  | star _ => true

/-- What is left to match after a character. -/
def deriv (c : Char) : Regex → Regex
  | none => none
  | empty => none
  | char p => if p c then empty else none
  | seq r s => if r.nullable then alt (seq (r.deriv c) s) (s.deriv c) else seq (r.deriv c) s
  | alt r s => alt (r.deriv c) (s.deriv c)
  | star r => seq (r.deriv c) (star r)

/-- `re.fullmatch(r, t) is not None` -/
def fullmatch : Regex → Text → Bool
  | r, [] => r.nullable
  | r, c :: t => fullmatch (r.deriv c) t

theorem mem_char {p : Char → Bool} {t : Text} : t ∈ (char p).lang ↔ ∃ c, p c ∧ t = [c] := Iff.rfl

theorem mem_seq {r s : Regex} {t : Text} :
    t ∈ (seq r s).lang ↔ ∃ a ∈ r.lang, ∃ b ∈ s.lang, a ++ b = t := Language.mem_mul

theorem nil_mem_lang : ∀ r : Regex, r.nullable ↔ [] ∈ r.lang
  | none => by simp [nullable, lang]
  | empty => by simp [nullable, lang]
  | char p => by simp [nullable, mem_char]
  | seq r s => by
      rw [nullable, Bool.and_eq_true, nil_mem_lang r, nil_mem_lang s, mem_seq]
      constructor
      · exact fun h => ⟨[], h.1, [], h.2, rfl⟩
      · rintro ⟨a, ha, b, hb, hab⟩
        obtain ⟨rfl, rfl⟩ := List.append_eq_nil_iff.mp hab
        exact ⟨ha, hb⟩
  | alt r s => by
      rw [nullable, Bool.or_eq_true, nil_mem_lang r, nil_mem_lang s, lang, Language.mem_add]
  | star r => by simp [nullable, lang, Language.nil_mem_kstar]

end Regex

/-- A product starts in its first factor, or in the second if the first can be empty. -/
theorem cons_mem_mul {l m : Language Char} {c : Char} {t : Text} :
    c :: t ∈ l * m ↔ (∃ a b, a ++ b = t ∧ c :: a ∈ l ∧ b ∈ m) ∨ ([] ∈ l ∧ c :: t ∈ m) := by
  rw [Language.mem_mul]
  constructor
  · rintro ⟨a, ha, b, hb, hab⟩
    cases a with
    | nil => exact .inr ⟨ha, hab ▸ hb⟩
    | cons d a =>
      obtain ⟨rfl, rfl⟩ := List.cons_eq_cons.mp hab
      exact .inl ⟨a, b, rfl, ha, hb⟩
  · rintro (⟨a, b, rfl, ha, hb⟩ | ⟨hnil, hm⟩)
    · exact ⟨c :: a, ha, b, hb, rfl⟩
    · exact ⟨[], hnil, c :: t, hm, rfl⟩

theorem cons_mem_kstar {l : Language Char} {c : Char} {t : Text} :
    c :: t ∈ l∗ ↔ ∃ a b, a ++ b = t ∧ c :: a ∈ l ∧ b ∈ l∗ := by
  constructor
  · intro h
    obtain ⟨parts, hparts, hmem⟩ := Language.mem_kstar_iff_exists_nonempty.mp h
    cases parts with
    | nil => exact absurd hparts (List.cons_ne_nil c t)
    | cons part parts =>
      obtain ⟨hpart, hne⟩ := hmem part List.mem_cons_self
      cases part with
      | nil => exact absurd rfl hne
      | cons d a =>
        obtain ⟨rfl, rfl⟩ := List.cons_eq_cons.mp hparts
        exact ⟨a, parts.flatten, rfl, hpart,
          Language.join_mem_kstar fun p hp => (hmem p (List.mem_cons_of_mem _ hp)).1⟩
  · rintro ⟨a, b, rfl, ha, hb⟩
    obtain ⟨parts, rfl, hmem⟩ := Language.mem_kstar.mp hb
    refine Language.mem_kstar.mpr ⟨(c :: a) :: parts, rfl, fun p hp => ?_⟩
    rcases List.mem_cons.mp hp with rfl | hp
    · exact ha
    · exact hmem p hp

namespace Regex

theorem mem_deriv (c : Char) : ∀ (r : Regex) (t : Text), t ∈ (r.deriv c).lang ↔ c :: t ∈ r.lang
  | none, t => Iff.rfl
  | empty, t => by simp [deriv, lang]
  | char p, t => by
      rw [deriv, mem_char]
      split
      · next hp => exact ⟨fun ht => ⟨c, hp, congrArg _ ht⟩, fun ⟨_, _, h⟩ => (List.cons_eq_cons.mp h).2⟩
      · next hp =>
        refine ⟨fun ht => absurd ht (Language.notMem_zero t), fun ⟨d, hd, h⟩ => ?_⟩
        exact absurd ((List.cons_eq_cons.mp h).1 ▸ hd) hp
  | seq r s, t => by
      have hstart : t ∈ (seq (r.deriv c) s).lang ↔
          ∃ a b, a ++ b = t ∧ c :: a ∈ r.lang ∧ b ∈ s.lang := by
        simp only [mem_seq, mem_deriv c r]
        exact ⟨fun ⟨a, ha, b, hb, h⟩ => ⟨a, b, h, ha, hb⟩, fun ⟨a, b, h, ha, hb⟩ => ⟨a, ha, b, hb, h⟩⟩
      rw [lang, cons_mem_mul, ← hstart, ← nil_mem_lang r, ← mem_deriv c s, deriv]
      cases r.nullable with
      | true =>
        simp only [if_true, true_and]
        exact Language.mem_add _ _ _
      | false => simp
  | alt r s, t => by
      rw [deriv, lang, Language.mem_add, mem_deriv c r, mem_deriv c s, lang, Language.mem_add]
  | star r, t => by
      rw [deriv, mem_seq, lang, cons_mem_kstar]
      simp only [mem_deriv c r]
      exact ⟨fun ⟨a, ha, b, hb, h⟩ => ⟨a, b, h, ha, hb⟩, fun ⟨a, b, h, ha, hb⟩ => ⟨a, ha, b, hb, h⟩⟩

/-- CORRECT: a full match is membership in the language. -/
theorem fullmatch_iff : ∀ (r : Regex) (t : Text), fullmatch r t ↔ t ∈ r.lang
  | r, [] => nil_mem_lang r
  | r, c :: t => by rw [fullmatch, fullmatch_iff (r.deriv c) t, mem_deriv]

/-! ### Matches of the usual pieces -/

theorem mem_opt {r : Regex} {t : Text} : t ∈ (opt r).lang ↔ t = [] ∨ t ∈ r.lang := by
  rw [opt, lang, Language.mem_add]
  exact or_comm

theorem mem_lit : ∀ {u t : Text}, t ∈ (lit u).lang ↔ t = u
  | [], _ => Iff.rfl
  | c :: u, t => by
      rw [lit, mem_seq]
      constructor
      · rintro ⟨a, ⟨d, hd, rfl⟩, b, hb, rfl⟩
        rw [mem_lit.mp hb, of_decide_eq_true hd]
        rfl
      · rintro rfl
        exact ⟨[c], ⟨c, decide_eq_true rfl, rfl⟩, u, mem_lit.mpr rfl, rfl⟩

end Regex

end Py
