import Secureblue.Py.Text

/-! `s.index(sub)` where `sub` is a line between two newlines, and what text mode reads of the lines of a
    file. -/

namespace Py

/-- `s.index(sub)`, or `none` for a `ValueError`. -/
def index (sub : Text) : Text → Option ℕ
  | [] => if sub = [] then some 0 else none
  | c :: s => if startsWith (c :: s) sub then some 0 else (index sub s).map fun i => i + 1

/-- `s.index(sub, start)` -/
def indexFrom (sub s : Text) (start : ℕ) : Option ℕ := (index sub (s.drop start)).map fun i => i + start

/-- The lines, each with a newline behind it. -/
def unlines (ls : List Text) : Text := ls.flatMap fun l => l ++ ['\n']

@[simp] theorem unlines_nil : unlines [] = [] := rfl

@[simp] theorem unlines_cons (l : Text) (ls : List Text) : unlines (l :: ls) = l ++ '\n' :: unlines ls := by
  simp [unlines]

theorem unlines_append (ls ms : List Text) : unlines (ls ++ ms) = unlines ls ++ unlines ms := List.flatMap_append

/-- `"\n".join` of lines needs one more newline. -/
theorem join_newline {ls : List Text} (h : ls ≠ []) : ['\n'].intercalate ls ++ ['\n'] = unlines ls := by
  induction ls with
  | nil => exact absurd rfl h
  | cons l ls ih =>
    cases ls with
    | nil => simp
    | cons m ls =>
      rw [List.intercalate_cons_cons, unlines_cons, ← ih (List.cons_ne_nil m ls)]
      simp

/-- A line between two newlines. -/
def between (x : Text) : Text := '\n' :: (x ++ ['\n'])

section
variable {x l rest : Text} {ls : List Text}

/-- The line before the first newline is passed over. -/
theorem index_line (hl : '\n' ∉ l) (x s : Text) : index (between x) (l ++ '\n' :: s) =
    if startsWith s (x ++ ['\n']) then some l.length
    else (index (between x) s).map fun i => i + (l.length + 1) := by
  induction l with
  | nil =>
    have hstart : startsWith ('\n' :: s) (between x) = startsWith s (x ++ ['\n']) := by
      simp [startsWith, between]
    rw [List.nil_append, index, hstart]
    rfl
  | cons c l ih =>
    have hc : '\n' ≠ c := List.ne_of_not_mem_cons hl
    have hstart : startsWith (c :: (l ++ '\n' :: s)) (between x) = false := by
      simp [startsWith, between, List.isPrefixOf_cons_cons, hc]
    rw [List.cons_append, index, hstart, if_neg (by simp), ih (List.not_mem_of_not_mem_cons hl)]
    split
    · rfl
    · rw [Option.map_map]
      rfl

/-- A line that is not the first one is found where it is. -/
theorem index_between (hx : '\n' ∉ x) (hl : '\n' ∉ l) (hls : ∀ m ∈ ls, '\n' ∉ m ∧ m ≠ x) :
    (index (between x) (unlines (l :: ls) ++ (x ++ '\n' :: rest))).map (fun i => i + 1)
      = some (unlines (l :: ls)).length := by
  induction ls generalizing l with
  | nil =>
    have hstart : startsWith (x ++ '\n' :: rest) (x ++ ['\n']) := by
      rw [List.append_cons]
      exact startsWith_append _ _
    rw [unlines_cons, List.append_assoc, List.cons_append, index_line hl, unlines_nil, List.nil_append,
      if_pos hstart]
    simp
  | cons m ls ih =>
    obtain ⟨⟨hm, hne⟩, hls⟩ := List.forall_mem_cons.mp hls
    have hstart : ¬startsWith (unlines (m :: ls) ++ (x ++ '\n' :: rest)) (x ++ ['\n']) := by
      rw [startsWith_iff, unlines_cons]
      rintro ⟨t, ht⟩
      have ht : x ++ '\n' :: t = m ++ '\n' :: (unlines ls ++ (x ++ '\n' :: rest)) := by simpa using ht
      exact hne (append_cons_inj hx hm ht).1.symm
    rw [unlines_cons, List.append_assoc, List.cons_append, index_line hl, if_neg hstart]
    obtain ⟨i, hi, hlen⟩ := Option.map_eq_some_iff.mp (ih hm hls)
    rw [hi, List.length_append, List.length_cons, ← hlen, Option.map_some, Option.map_some]
    congr 1
    omega

end

/-! ### The lines of a file -/

theorem flatten_keepLines (s : Text) : (keepLines s).flatten = s := by
  induction s with
  | nil => rfl
  | cons c s ih =>
    rw [keepLines]
    split
    · next hc => rw [List.flatten_cons, ih, hc, List.singleton_append]
    · cases hs : keepLines s with
      | nil =>
        rw [hs] at ih
        rw [← ih]
        rfl
      | cons l ls =>
        rw [hs] at ih
        rw [← ih]
        rfl

/-- What text mode reads of lines. -/
def readText (lines : List (Text × Text)) : Text := lines.flatMap fun line => line.1 ++ readStop line.2

theorem universalNewlines_eq (s : Text) : universalNewlines s = readText (rawLines s) := by
  rw [← flatten_keepLines (universalNewlines s), ← fileLines, fileLines_eq, readText, List.flatMap_def]

/-- Only the last line may have no end. -/
theorem stop_ne_nil {s : Text} {line : Text × Text} (h : line ∈ (rawLines s).dropLast) : line.2 ≠ [] := by
  have hcons : ∀ {line first : Text × Text} {lines : List (Text × Text)}, first.2 ≠ [] →
      (line ∈ lines.dropLast → line.2 ≠ []) → line ∈ (first :: lines).dropLast → line.2 ≠ [] := by
    intro line first lines hfirst hlines hmem
    cases lines with
    | nil => exact absurd hmem List.not_mem_nil
    | cons second lines => exact (List.mem_cons.mp hmem).elim (fun h => h ▸ hfirst) hlines
  induction s using rawLines.induct generalizing line with
  | case1 => exact absurd h List.not_mem_nil
  | case2 cs ih =>
    rw [rawLines] at h
    exact hcons (by simp) ih h
  | case3 c cs hne hc ih =>
    rw [rawLines, if_pos hc] at h
    · exact hcons (by simp) ih h
    · exact hne
  | case4 c cs hne hc hcs ih =>
    rw [rawLines, if_neg hc, hcs] at h
    · exact absurd h List.not_mem_nil
    · exact hne
  | case5 c cs hne hc l stop ls hcs ih =>
    rw [rawLines, if_neg hc, hcs] at h
    · rw [hcs] at ih
      cases ls with
      | nil => exact absurd h List.not_mem_nil
      | cons second ls =>
        rcases List.mem_cons.mp h with rfl | h
        · exact @ih (l, stop) List.mem_cons_self
        · exact ih (List.mem_cons_of_mem _ h)
    · exact hne

/-! ### Lines that a command printed -/

/-- A line that is printed and read back as it is: it has no line boundary inside and no white space at
    its ends. -/
structure IsLine (l : Text) : Prop where
  ne_nil : l ≠ []
  lineBreak : ∀ c ∈ l, isLineBreak c = false
  head : ∀ c ∈ l.head?, isSpace c = false
  getLast : ∀ c ∈ l.getLast?, isSpace c = false

theorem isSpace_of_isLineBreak {c : Char} (h : isLineBreak c) : isSpace c := by
  simp only [isLineBreak, isSpace, Bool.or_eq_true, Bool.and_eq_true, decide_eq_true_eq, beq_iff_eq] at h ⊢
  omega

/-- Characters other than white space make a line. -/
theorem isLine_of_not_space {l : Text} (hne : l ≠ []) (h : ∀ c ∈ l, isSpace c = false) : IsLine l where
  ne_nil := hne
  lineBreak c hc := Bool.eq_false_iff.mpr fun hbreak => by
    have := isSpace_of_isLineBreak hbreak
    rw [h c hc] at this
    exact Bool.false_ne_true this
  head c hc := h c (List.mem_of_mem_head? hc)
  getLast c hc := h c (List.mem_of_getLast? hc)

/-- `stdout.strip().splitlines()` of lines that were printed. -/
theorem splitlines_strip_unlines {ls : List Text} (h : ∀ l ∈ ls, IsLine l) :
    splitlines (strip (unlines ls)) = ls := by
  cases ls with
  | nil => rfl
  | cons l ls =>
    have hhead : ∀ c ∈ (['\n'].intercalate (l :: ls)).head?, isSpace c = false := by
      intro c hc
      refine (h l List.mem_cons_self).head c ?_
      cases ls with
      | nil => simpa using hc
      | cons m ls =>
        rw [List.intercalate_cons_cons, List.append_assoc,
          List.head?_append_of_ne_nil _ (h l List.mem_cons_self).ne_nil] at hc
        exact hc
    have hlast : ∀ c ∈ (['\n'].intercalate (l :: ls)).getLast?, isSpace c = false :=
      getLast_join '\n' fun m hm => ⟨(h m hm).ne_nil, (h m hm).getLast⟩
    rw [← join_newline (List.cons_ne_nil l ls), strip_append_of_space (by decide), strip_eq_self hhead hlast]
    exact splitlines_join fun m hm => ⟨(h m hm).ne_nil, (h m hm).lineBreak⟩

/-- `stdout.splitlines()` of lines that were printed. -/
theorem splitlines_unlines {ls : List Text} (h : ∀ l ∈ ls, ∀ c ∈ l, isLineBreak c = false) :
    splitlines (unlines ls) = ls := by
  have hlines := splitlines_lines h []
  rw [List.append_nil] at hlines
  rw [unlines, hlines]
  exact List.append_nil ls

end Py
