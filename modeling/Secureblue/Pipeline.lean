import Mathlib.Data.List.DropRight
import Mathlib.Data.List.Infix
import Secureblue.Py.Text

/-! Text tools between a command and a shell variable: a range of lines (`sed -n '/start/,/stop/p'`), the
    fields of a line (`awk`), and what `$(…)` makes of the lines of an output. -/

namespace Pipeline
open Py

/-! ### Ranges of lines -/

section
variable {α : Type*} {start stop : α → Bool}

/-- `sed -n '/start/,/stop/p'`; the flag is whether a range is open. The end of a range is looked for
    behind its first line. -/
def range (start stop : α → Bool) : Bool → List α → List α
  | _, [] => []
  | false, l :: ls => if start l then l :: range start stop true ls else range start stop false ls
  | true, l :: ls => l :: range start stop (!stop l) ls

/-- Lines that start no range are passed over. -/
theorem range_append_of_not_start {as : List α} (h : ∀ l ∈ as, start l = false) (bs : List α) :
    range start stop false (as ++ bs) = range start stop false bs := by
  induction as with
  | nil => rfl
  | cons l as ih =>
    rw [List.cons_append, range, if_neg (by simp [h l List.mem_cons_self]),
      ih fun m hm => h m (List.mem_cons_of_mem l hm)]

theorem range_of_not_start {as : List α} (h : ∀ l ∈ as, start l = false) : range start stop false as = [] := by
  have happend : range start stop false (as ++ []) = _ := range_append_of_not_start h []
  rwa [List.append_nil, range] at happend

theorem range_start {l : α} (h : start l) (ls : List α) :
    range start stop false (l :: ls) = l :: range start stop true ls := by
  rw [range, if_pos h]

/-- Lines that stop no range stay in it. -/
theorem range_append_of_not_stop {as : List α} (h : ∀ l ∈ as, stop l = false) (bs : List α) :
    range start stop true (as ++ bs) = as ++ range start stop true bs := by
  induction as with
  | nil => rfl
  | cons l as ih =>
    rw [List.cons_append, range, h l List.mem_cons_self, Bool.not_false,
      ih fun m hm => h m (List.mem_cons_of_mem l hm), List.cons_append]

theorem range_stop {l : α} (h : stop l) (ls : List α) :
    range start stop true (l :: ls) = l :: range start stop false ls := by
  rw [range, h, Bool.not_true]

theorem mem_of_mem_range {l : α} : ∀ {isOpen : Bool} {ls : List α}, l ∈ range start stop isOpen ls → l ∈ ls
  | false, [], h => absurd h List.not_mem_nil
  | true, [], h => absurd h List.not_mem_nil
  | false, m :: ls, h => by
      rw [range] at h
      split at h
      · rcases List.mem_cons.mp h with rfl | h
        · exact List.mem_cons_self
        · exact List.mem_cons_of_mem m (mem_of_mem_range h)
      · exact List.mem_cons_of_mem m (mem_of_mem_range h)
  | true, m :: ls, h => by
      rw [range] at h
      rcases List.mem_cons.mp h with rfl | h
      · exact List.mem_cons_self
      · exact List.mem_cons_of_mem m (mem_of_mem_range h)

end

/-! ### Fields -/

/-- What separates the fields of a line. -/
def isBlank (c : Char) : Bool := c = ' ' || c = '\t' || c = '\n'

/-- The fields of a line, as `awk` splits it. -/
def fields (line : Text) : List Text := (line.splitOnP isBlank).filter (· ≠ [])

/-- `awk '{print $2}'` -/
def second (line : Text) : Text := (fields line).getD 1 []

theorem fields_append_blank {c : Char} (hc : isBlank c) (a b : Text) :
    fields (a ++ c :: b) = fields a ++ fields b := by
  rw [fields, List.splitOnP_append_cons a b hc, List.filter_append]
  rfl

theorem fields_cons_blank {c : Char} (hc : isBlank c) (line : Text) : fields (c :: line) = fields line :=
  fields_append_blank hc [] line

theorem second_cons_blank {c : Char} (hc : isBlank c) (line : Text) : second (c :: line) = second line := by
  rw [second, fields_cons_blank hc, second]

theorem fields_word {w : Text} (hw : ∀ c ∈ w, isBlank c = false) (hne : w ≠ []) : fields w = [w] := by
  rw [fields, List.splitOnP_eq_singleton hw]
  simp [hne]

theorem second_append {v w : Text} {c : Char} (hv : fields v = [v]) (hc : isBlank c) (hw : fields w = [w]) :
    second (v ++ c :: w) = w := by
  rw [second, fields_append_blank hc, hv, hw]
  rfl

/-! ### Parts of a line -/

/-- What starts with a character that the front part does not have is found behind it. -/
theorem infix_append_of_head_not_mem {c : Char} {p a b : Text} (h : c ∉ a) :
    c :: p <:+: a ++ b ↔ c :: p <:+: b := by
  constructor
  · rintro ⟨s, t, hst⟩
    rw [List.append_assoc] at hst
    rcases List.append_eq_append_iff.mp hst with ⟨r, rfl, hr⟩ | ⟨r, rfl, hr⟩
    · cases r with
      | nil => exact ⟨[], t, by simpa using hr⟩
      | cons d r =>
        have hd := (List.cons.inj hr).1
        exact absurd (List.mem_append_right s (hd ▸ List.mem_cons_self)) h
    · exact ⟨r, t, by rw [hr, List.append_assoc]⟩
  · exact fun h => h.trans (List.suffix_append a b).isInfix

/-! ### Command substitution -/

/-- `$(…)` for a command that writes these lines. -/
def substitution (ls : List Text) : Text := (ls.flatMap fun l => l ++ ['\n']).rdropWhile (· = '\n')

theorem flatMap_newline (l : Text) (ls : List Text) :
    ((l :: ls).flatMap fun l => l ++ ['\n']) = ['\n'].intercalate (l :: ls) ++ ['\n'] := by
  induction ls generalizing l with
  | nil => rw [List.flatMap_singleton, List.intercalate_singleton]
  | cons m ls ih =>
    rw [List.flatMap_cons, ih, List.intercalate_cons_cons, List.append_assoc, List.append_assoc, List.append_assoc]

/-- Of lines that are not empty, only the last newline is dropped. -/
theorem substitution_eq {ls : List Text} (h : ∀ l ∈ ls, l ≠ [] ∧ '\n' ∉ l) :
    substitution ls = ['\n'].intercalate ls := by
  cases ls with
  | nil => rfl
  | cons l ls =>
    rw [substitution, flatMap_newline, List.rdropWhile_concat_pos _ _ _ (by decide), List.rdropWhile_eq_self_iff]
    intro hne hlast
    have hlines : ∀ m ∈ l :: ls, m ≠ [] ∧ ∀ c ∈ m.getLast?, c ≠ '\n' := by
      intro m hm
      refine ⟨(h m hm).1, fun c hc heq => (h m hm).2 ?_⟩
      exact heq ▸ List.mem_of_getLast? hc
    exact getLast_join '\n' hlines _ (List.getLast?_eq_some_getLast hne) (of_decide_eq_true hlast)

end Pipeline
