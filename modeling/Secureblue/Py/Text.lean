import Mathlib.Data.List.Basic
import Mathlib.Data.List.DropRight
import Mathlib.Data.List.Infix
import Secureblue.Occurs

/-! Python strings as lists of code points, with the `str` methods used by scripts: white space and
    line boundaries as Unicode defines them for `str.split`, `str.strip` and `str.splitlines`, and
    splitting, partitioning and replacing. -/

namespace Py

/-- `str` -/
abbrev Text := List Char

instance : Coe String Text := ⟨String.toList⟩

/-- Decided over the text, not over all characters. -/
instance (priority := high) (t : Text) (p : Char → Prop) [DecidablePred p] :
    Decidable (∀ c ∈ t, p c) := List.decidableBAll p t

instance (priority := high) decidableForallMemOption (o : Option Char) (p : Char → Prop)
    [DecidablePred p] : Decidable (∀ c ∈ o, p c) := Option.decidableForallMem o

instance (priority := high) (t : Text) (l : List Text) : Decidable (t ∈ l) := inferInstance

/-- Exceptions, with their message where the raising code writes one. -/
inductive Exn where
  | valueError (msg : Text)
  | keyError
  | unboundLocalError
  | structError
  | fileNotFoundError
  | fileExistsError
  | isADirectoryError
  | notADirectoryError
  | osError
  deriving DecidableEq, Repr

/-- A computation ends normally if its first part does, and then the rest. -/
theorem bind_eq_ok {ε α β : Type} {m : Except ε α} {f : α → Except ε β} {b : β} :
    m >>= f = .ok b ↔ ∃ a, m = .ok a ∧ f a = .ok b := by
  cases m with
  | error e => exact ⟨nofun, fun ⟨_, h, _⟩ => nomatch h⟩
  | ok a => exact ⟨fun h => ⟨a, rfl, h⟩, fun ⟨_, h, hf⟩ => by cases h; exact hf⟩

theorem mapError_eq_ok {ε ε' α : Type} {f : ε → ε'} {m : Except ε α} {a : α} :
    m.mapError f = .ok a ↔ m = .ok a := by
  cases m <;> simp [Except.mapError]

/-! ### Characters -/

/-- `c.isspace()`: bidirectional class WS, B or S, or category Zs. -/
def isSpace (c : Char) : Bool :=
  let n := c.toNat
  (9 ≤ n && n ≤ 13) || (28 ≤ n && n ≤ 32) || n == 0x85 || n == 0xa0 || n == 0x1680 ||
    (0x2000 ≤ n && n ≤ 0x200a) || n == 0x2028 || n == 0x2029 || n == 0x202f || n == 0x205f ||
    n == 0x3000

/-- The line boundaries of `str.splitlines`. -/
def isLineBreak (c : Char) : Bool :=
  let n := c.toNat
  (10 ≤ n && n ≤ 13) || (28 ≤ n && n ≤ 30) || n == 0x85 || n == 0x2028 || n == 0x2029

theorem isSpace_of_isDigit {c : Char} (h : c.isDigit) : isSpace c = false := by
  have hn : 48 ≤ c.toNat ∧ c.toNat ≤ 57 := by
    simpa [Char.isDigit, UInt32.le_iff_toNat_le] using h
  simp only [isSpace]
  simp
  omega

/-! ### Prefixes, suffixes, stripping -/

/-- `s.startswith(p)` -/
def startsWith (s p : Text) : Bool := p.isPrefixOf s

/-- `s.endswith(p)` -/
def endsWith (s p : Text) : Bool := p.isSuffixOf s

/-- `s.removeprefix(p)` -/
def removePrefix (s p : Text) : Text := if startsWith s p then s.drop p.length else s

/-- `s.removesuffix(p)` -/
def removeSuffix (s p : Text) : Text := if endsWith s p then s.take (s.length - p.length) else s

/-- `s.rstrip()` -/
def rstrip (s : Text) : Text := s.rdropWhile isSpace

/-- `s.strip()` -/
def strip (s : Text) : Text := rstrip (s.dropWhile isSpace)

/-- `s.strip(chars)` -/
def stripChars (chars s : Text) : Text := (s.dropWhile (· ∈ chars)).rdropWhile (· ∈ chars)

theorem endsWith_iff {s p : Text} : endsWith s p ↔ p <:+ s := List.isSuffixOf_iff_suffix

theorem startsWith_iff {s p : Text} : startsWith s p ↔ p <+: s := List.isPrefixOf_iff_prefix

@[simp] theorem startsWith_append (p s : Text) : startsWith (p ++ s) p = true :=
  startsWith_iff.mpr (List.prefix_append p s)

@[simp] theorem removePrefix_append (p s : Text) : removePrefix (p ++ s) p = s := by
  rw [removePrefix, if_pos (startsWith_append p s), List.drop_left]

@[simp] theorem removeSuffix_append (s p : Text) : removeSuffix (s ++ p) p = s := by
  rw [removeSuffix, if_pos (endsWith_iff.mpr (List.suffix_append s p))]
  simp

theorem mem_of_mem_rstrip {c : Char} {s : Text} (h : c ∈ rstrip s) : c ∈ s :=
  (List.rdropWhile_prefix _ _).subset h

theorem mem_of_mem_strip {c : Char} {s : Text} (h : c ∈ strip s) : c ∈ s :=
  (List.dropWhile_suffix _).subset ((List.rdropWhile_prefix _ _).subset h)

theorem mem_of_mem_stripChars {chars s : Text} {c : Char} (h : c ∈ stripChars chars s) : c ∈ s :=
  (List.dropWhile_suffix _).subset ((List.rdropWhile_prefix _ _).subset h)

/-- White space is stripped up to the last other character. -/
theorem rstrip_append_of_getLast {a : Text}
    (h : ∀ c ∈ a.getLast?, isSpace c = false) (b : Text) : rstrip (a ++ b) = a ++ rstrip b := by
  induction b using List.reverseRecOn with
  | nil =>
    rw [List.append_nil, rstrip, List.rdropWhile_eq_self_iff.mpr]
    · exact (List.append_nil a).symm
    · intro ha
      simp [h _ (List.getLast?_eq_some_getLast ha)]
  | append_singleton b c ih =>
    rw [rstrip, rstrip, ← List.append_assoc]
    by_cases hc : isSpace c
    · rw [List.rdropWhile_concat_pos _ _ _ hc, List.rdropWhile_concat_pos _ _ _ hc]
      exact ih
    · rw [List.rdropWhile_concat_neg _ _ _ hc, List.rdropWhile_concat_neg _ _ _ hc,
        List.append_assoc]

/-- A text with no white space at either end is its own `strip`. -/
theorem strip_eq_self {s : Text} (h₁ : ∀ c ∈ s.head?, isSpace c = false)
    (h₂ : ∀ c ∈ s.getLast?, isSpace c = false) : strip s = s := by
  have hd : s.dropWhile isSpace = s := by
    cases s with
    | nil => rfl
    | cons c s => rw [List.dropWhile_cons_of_neg (by simp [h₁ c rfl])]
  rw [strip, hd, rstrip, List.rdropWhile_eq_self_iff]
  intro hs
  simp [h₂ _ (List.getLast?_eq_some_getLast hs)]

theorem getLast_strip (s : Text) : ∀ c ∈ (strip s).getLast?, isSpace c = false := by
  intro c hc
  have hne : strip s ≠ [] := by rintro h; rw [h] at hc; cases hc
  rw [List.getLast?_eq_some_getLast hne] at hc
  have h := List.rdropWhile_last_not isSpace (s.dropWhile isSpace) hne
  simpa [← Option.some.inj hc, strip, rstrip] using h

theorem head_strip (s : Text) : ∀ c ∈ (strip s).head?, isSpace c = false := by
  intro c hc
  obtain ⟨rest, hrest⟩ := List.rdropWhile_prefix isSpace (s.dropWhile isSpace)
  obtain ⟨t, ht⟩ := List.head?_eq_some_iff.mp hc
  have hdrop : s.dropWhile isSpace = c :: (t ++ rest) := by rw [← hrest, ← List.cons_append, ← ht]; rfl
  have hne : s.dropWhile isSpace ≠ [] := by rw [hdrop]; exact List.cons_ne_nil _ _
  have h := List.head_dropWhile_not isSpace hne
  simpa [hdrop] using h

@[simp] theorem strip_strip (s : Text) : strip (strip s) = strip s :=
  strip_eq_self (head_strip s) (getLast_strip s)

theorem strip_cons_of_space {c : Char} (hc : isSpace c) (s : Text) : strip (c :: s) = strip s := by
  rw [strip, List.dropWhile_cons_of_pos hc, strip]

theorem strip_append_of_space {c : Char} (hc : isSpace c) (s : Text) : strip (s ++ [c]) = strip s := by
  by_cases hs : ∀ d ∈ s, isSpace d
  · have hall : ∀ d ∈ s ++ [c], isSpace d := fun d hd =>
      (List.mem_append.mp hd).elim (hs d) fun h => List.mem_singleton.mp h ▸ hc
    rw [strip, strip, List.dropWhile_eq_nil_iff.mpr hall, List.dropWhile_eq_nil_iff.mpr hs]
  · have hdrop : s.dropWhile isSpace ≠ [] := fun h => hs (List.dropWhile_eq_nil_iff.mp h)
    rw [strip, List.dropWhile_append, if_neg (by simpa using hdrop), rstrip,
      List.rdropWhile_concat_pos _ _ _ hc]
    rfl

/-! ### Lines -/

/-- `s.splitlines()`: `"\r\n"` is one boundary, and a final boundary opens no further line. -/
def splitlines : Text → List Text
  | [] => []
  | '\r' :: '\n' :: cs => [] :: splitlines cs
  | c :: cs =>
    if isLineBreak c then [] :: splitlines cs
    else match splitlines cs with
      | [] => [[c]]
      | l :: ls => (c :: l) :: ls

theorem splitlines_cons {c : Char} (hc : isLineBreak c = false) (cs : Text) :
    splitlines (c :: cs) = match splitlines cs with
      | [] => [[c]]
      | l :: ls => (c :: l) :: ls := by
  rw [splitlines, if_neg (by simp [hc])]
  rintro _ rfl
  exact absurd hc (by decide)

theorem splitlines_break {c : Char} (hc : isLineBreak c) {cs : Text}
    (h : ∀ cs', c = '\r' → cs ≠ '\n' :: cs') : splitlines (c :: cs) = [] :: splitlines cs := by
  rw [splitlines, if_pos hc]
  exact h

theorem splitlines_newline (cs : Text) : splitlines ('\n' :: cs) = [] :: splitlines cs :=
  splitlines_break (by decide) fun _ h => absurd h (by decide)

theorem eq_nil_of_splitlines {s : Text} (h : splitlines s = []) : s = [] := by
  induction s using splitlines.induct with
  | case1 => rfl
  | case2 cs ih => rw [splitlines] at h; cases h
  | case3 c cs hne hc ih =>
    rw [splitlines, if_pos hc] at h
    · cases h
    · exact hne
  | case4 c cs hne hc hcs ih => rw [splitlines_cons (by simpa using hc), hcs] at h; cases h
  | case5 c cs hne hc l ls hcs ih => rw [splitlines_cons (by simpa using hc), hcs] at h; cases h

/-- No line contains a line boundary. -/
theorem not_lineBreak_of_mem_splitlines {s : Text} :
    ∀ l ∈ splitlines s, ∀ c ∈ l, isLineBreak c = false := by
  have hempty : ∀ {cs : Text}, (∀ l ∈ splitlines cs, ∀ c ∈ l, isLineBreak c = false) →
      ∀ l ∈ [] :: splitlines cs, ∀ c ∈ l, isLineBreak c = false := by
    intro cs ih l hl c hc
    rcases List.mem_cons.mp hl with rfl | hl
    · exact absurd hc List.not_mem_nil
    · exact ih l hl c hc
  induction s using splitlines.induct with
  | case1 => exact fun l h => absurd h List.not_mem_nil
  | case2 cs ih => exact hempty ih
  | case3 d cs hne hd ih =>
    rw [splitlines, if_pos hd]
    · exact hempty ih
    · exact hne
  | case4 d cs hne hd hcs ih =>
    rw [splitlines_cons (by simpa using hd), hcs]
    simpa using hd
  | case5 d cs hne hd l ls hcs ih =>
    rw [splitlines_cons (by simpa using hd), hcs]
    rw [hcs] at ih
    intro k hk c hc
    rcases List.mem_cons.mp hk with rfl | hk
    · rcases List.mem_cons.mp hc with rfl | hc
      · simpa using hd
      · exact ih l List.mem_cons_self c hc
    · exact ih k (List.mem_cons_of_mem l hk) c hc

theorem splitlines_single : ∀ {l : Text}, (∀ c ∈ l, isLineBreak c = false) → l ≠ [] →
    splitlines l = [l]
  | [c], h, _ => splitlines_cons (h c List.mem_cons_self) []
  | c :: d :: l, h, _ => by
      rw [splitlines_cons (h c List.mem_cons_self),
        splitlines_single (fun c hc => h c (List.mem_cons_of_mem _ hc)) (List.cons_ne_nil d l)]

/-- A line of ordinary characters closed by a newline is the first line. -/
theorem splitlines_line : ∀ {l : Text}, (∀ c ∈ l, isLineBreak c = false) → ∀ rest : Text,
    splitlines (l ++ '\n' :: rest) = l :: splitlines rest
  | [], _, rest => splitlines_newline rest
  | c :: l, h, rest => by
      rw [List.cons_append, splitlines_cons (h c List.mem_cons_self),
        splitlines_line (fun c hc => h c (List.mem_cons_of_mem _ hc)) rest]

theorem splitlines_lines : ∀ {ls : List Text}, (∀ l ∈ ls, ∀ c ∈ l, isLineBreak c = false) →
    ∀ rest : Text, splitlines ((ls.flatMap fun l => l ++ ['\n']) ++ rest) = ls ++ splitlines rest
  | [], _, _ => rfl
  | l :: ls, h, rest => by
      rw [List.flatMap_cons, List.append_assoc, List.append_assoc, List.singleton_append,
        splitlines_line (h l List.mem_cons_self),
        splitlines_lines (fun l hl => h l (List.mem_cons_of_mem _ hl)), List.cons_append]

/-- A text without line boundaries goes before the first line. -/
theorem splitlines_append : ∀ {p : Text}, p ≠ [] → (∀ c ∈ p, isLineBreak c = false) → ∀ s : Text,
    splitlines (p ++ s) = (p ++ (splitlines s).headD []) :: (splitlines s).tail
  | [c], _, h, s => by
      rw [List.singleton_append, splitlines_cons (h c List.mem_cons_self)]
      cases splitlines s <;> rfl
  | c :: d :: p, _, h, s => by
      rw [List.cons_append, splitlines_cons (h c List.mem_cons_self),
        splitlines_append (List.cons_ne_nil d p) (fun c hc => h c (List.mem_cons_of_mem _ hc)) s]
      rfl

/-- `"\n".join(lines)` has the lines back, if none is empty. -/
theorem splitlines_join : ∀ {ls : List Text}, (∀ l ∈ ls, l ≠ [] ∧ ∀ c ∈ l, isLineBreak c = false) →
    splitlines (['\n'].intercalate ls) = ls
  | [], _ => rfl
  | [l], h => by
      obtain ⟨hl, hc⟩ := h l List.mem_cons_self
      rw [List.intercalate_singleton]
      exact splitlines_single hc hl
  | l :: m :: ls, h => by
      have ih := splitlines_join fun k hk => h k (List.mem_cons_of_mem l hk)
      have hj : ['\n'].intercalate (l :: m :: ls) = l ++ '\n' :: ['\n'].intercalate (m :: ls) := by
        simp [List.intercalate]
      rw [hj, splitlines_line (h l List.mem_cons_self).2, ih]

/-- What reading a file in text mode makes of its line ends. -/
def universalNewlines : Text → Text
  | [] => []
  | '\r' :: '\n' :: cs => '\n' :: universalNewlines cs
  | c :: cs => (if c = '\r' then '\n' else c) :: universalNewlines cs

theorem splitlines_universalNewlines (s : Text) : splitlines (universalNewlines s) = splitlines s := by
  induction s using splitlines.induct with
  | case1 => rfl
  | case2 cs ih =>
    rw [universalNewlines, splitlines, splitlines_newline, ih]
  | case3 c cs hne hc ih =>
    rw [universalNewlines, splitlines_break hc hne]
    · have hd : isLineBreak (if c = '\r' then '\n' else c) := by
        split
        · rfl
        · exact hc
      rw [splitlines_break hd, ih]
      intro cs' h
      split at h
      · cases h
      · next hr => exact absurd h hr
    · exact hne
  | case4 c cs hne hc hcs ih =>
    have hr : c ≠ '\r' := by rintro rfl; exact hc rfl
    have hc' : isLineBreak c = false := by simpa using hc
    rw [universalNewlines, if_neg hr, splitlines_cons hc', splitlines_cons hc', ih]
    exact hne
  | case5 c cs hne hc l ls hcs ih =>
    have hr : c ≠ '\r' := by rintro rfl; exact hc rfl
    have hc' : isLineBreak c = false := by simpa using hc
    rw [universalNewlines, if_neg hr, splitlines_cons hc', splitlines_cons hc', ih]
    exact hne

/-- A newline ends the line before it, or is a line of its own. -/
theorem splitlines_append_newline (s rest : Text) : ∃ extra, (extra = [] ∨ extra = [[]]) ∧
    splitlines (s ++ '\n' :: rest) = splitlines s ++ extra ++ splitlines rest := by
  induction s using splitlines.induct with
  | case1 => exact ⟨[[]], Or.inr rfl, by rw [List.nil_append, splitlines_newline]; rfl⟩
  | case2 cs ih =>
    obtain ⟨extra, hextra, h⟩ := ih
    exact ⟨extra, hextra, by rw [List.cons_append, List.cons_append, splitlines, h, splitlines]; rfl⟩
  | case3 c cs hne hc ih =>
    rw [splitlines_break hc hne]
    cases cs with
    | nil =>
      by_cases hr : c = '\r'
      · exact ⟨[], Or.inl rfl, by subst hr; rw [List.cons_append, List.nil_append, splitlines]; rfl⟩
      · obtain ⟨extra, hextra, h⟩ := ih
        exact ⟨extra, hextra, by rw [List.cons_append, splitlines_break hc fun _ hr' => absurd hr' hr, h]; rfl⟩
    | cons d cs =>
      obtain ⟨extra, hextra, h⟩ := ih
      refine ⟨extra, hextra, ?_⟩
      rw [List.cons_append, splitlines_break hc, h]
      · rfl
      · rintro cs' hr hcs
        exact hne cs hr (by rw [(List.cons.inj hcs).1])
  | case4 c cs hne hc hcs ih =>
    have hc' : isLineBreak c = false := by simpa using hc
    obtain rfl := eq_nil_of_splitlines hcs
    refine ⟨[], Or.inl rfl, ?_⟩
    rw [List.cons_append, List.nil_append, splitlines_cons hc', splitlines_cons hc', splitlines_newline]
    rfl
  | case5 c cs hne hc l ls hcs ih =>
    have hc' : isLineBreak c = false := by simpa using hc
    obtain ⟨extra, hextra, h⟩ := ih
    refine ⟨extra, hextra, ?_⟩
    rw [List.cons_append, splitlines_cons hc', splitlines_cons hc', h, hcs]
    rfl

/-- A further character opens a line, ends one, or goes to the end of the last one. -/
theorem splitlines_concat (c : Char) (s : Text) :
    (∃ extra, (extra = [] ∨ extra = [[]] ∨ extra = [[c]]) ∧ splitlines (s ++ [c]) = splitlines s ++ extra) ∨
      ∃ front l, splitlines s = front ++ [l] ∧ splitlines (s ++ [c]) = front ++ [l ++ [c]] := by
  induction s using splitlines.induct with
  | case1 =>
    by_cases hc : isLineBreak c
    · exact Or.inl ⟨[[]], by simp, splitlines_break hc fun _ _ h => nomatch h⟩
    · exact Or.inl ⟨[[c]], by simp, splitlines_cons (by simpa using hc) []⟩
  | case2 cs ih =>
    rw [List.cons_append, List.cons_append, splitlines, splitlines]
    rcases ih with ⟨extra, hextra, h⟩ | ⟨front, l, h, h'⟩
    · exact Or.inl ⟨extra, hextra, by rw [h]; rfl⟩
    · exact Or.inr ⟨[] :: front, l, by rw [h]; rfl, by rw [h']; rfl⟩
  | case3 d cs hne hd ih =>
    rw [splitlines_break hd hne]
    by_cases hmerge : d = '\r' ∧ cs = [] ∧ c = '\n'
    · obtain ⟨rfl, rfl, rfl⟩ := hmerge
      exact Or.inl ⟨[], by simp, rfl⟩
    · rw [List.cons_append, splitlines_break hd]
      · rcases ih with ⟨extra, hextra, h⟩ | ⟨front, l, h, h'⟩
        · exact Or.inl ⟨extra, hextra, by rw [h]; rfl⟩
        · exact Or.inr ⟨[] :: front, l, by rw [h]; rfl, by rw [h']; rfl⟩
      · intro cs' hr hcs
        cases cs with
        | nil => exact hmerge ⟨hr, rfl, (List.cons.inj hcs).1⟩
        | cons e cs => exact hne cs hr (by rw [(List.cons.inj hcs).1])
  | case4 d cs hne hd hcs ih =>
    have hd' : isLineBreak d = false := by simpa using hd
    obtain rfl := eq_nil_of_splitlines hcs
    rw [List.cons_append, List.nil_append, splitlines_cons hd', splitlines_cons hd']
    by_cases hc : isLineBreak c
    · have hbreak : splitlines [c] = [[]] := splitlines_break hc fun _ _ h => nomatch h
      rw [hbreak]
      exact Or.inl ⟨[], by simp, rfl⟩
    · rw [splitlines_cons (by simpa using hc)]
      exact Or.inr ⟨[], [d], rfl, rfl⟩
  | case5 d cs hne hd l ls hcs ih =>
    have hd' : isLineBreak d = false := by simpa using hd
    rw [List.cons_append, splitlines_cons hd', splitlines_cons hd', hcs]
    rcases ih with ⟨extra, hextra, h⟩ | ⟨front, m, h, h'⟩
    · rw [h, hcs]
      exact Or.inl ⟨extra, hextra, rfl⟩
    · rw [h']
      rw [hcs] at h
      cases front with
      | nil =>
        cases h
        exact Or.inr ⟨[], d :: l, rfl, rfl⟩
      | cons x front =>
        cases h
        exact Or.inr ⟨(d :: l) :: front, m, rfl, rfl⟩

/-! ### Reading a text line by line -/

/-- What `f` makes of the lines. -/
def readLines {β : Type} (f : Text → Option β) (s : Text) : List β := (splitlines s).filterMap f

section
variable {β : Type} {f : Text → Option β}

@[simp] theorem readLines_nil : readLines f [] = [] := rfl

theorem readLines_universalNewlines (s : Text) : readLines f (universalNewlines s) = readLines f s := by
  rw [readLines, splitlines_universalNewlines, readLines]

theorem readLines_append_newline (hnil : f [] = none) (s rest : Text) :
    readLines f (s ++ '\n' :: rest) = readLines f s ++ readLines f rest := by
  obtain ⟨extra, rfl | rfl, h⟩ := splitlines_append_newline s rest
  · rw [readLines, h, List.append_nil, List.filterMap_append, readLines, readLines]
  · rw [readLines, h, List.filterMap_append, List.filterMap_append, List.filterMap_cons_none hnil,
      List.filterMap_nil, List.append_nil, readLines, readLines]

/-- Texts that are printed are read one after the other. -/
theorem readLines_flatMap (hnil : f [] = none) : ∀ texts : List Text,
    readLines f (texts.flatMap fun t => t ++ ['\n']) = texts.flatMap (readLines f)
  | [] => rfl
  | t :: texts => by
      rw [List.flatMap_cons, List.append_assoc, List.singleton_append, readLines_append_newline hnil,
        readLines_flatMap hnil texts, List.flatMap_cons]

theorem readLines_cons_space (hnil : f [] = none) (hleft : ∀ c l, isSpace c → f (c :: l) = f l) {c : Char}
    (hc : isSpace c) (s : Text) : readLines f (c :: s) = readLines f s := by
  by_cases hbreak : isLineBreak c
  · by_cases hmerge : ∃ cs, c = '\r' ∧ s = '\n' :: cs
    · obtain ⟨cs, rfl, rfl⟩ := hmerge
      rw [readLines, splitlines, readLines, splitlines_newline]
    · rw [readLines, splitlines_break hbreak fun cs hr hs => hmerge ⟨cs, hr, hs⟩,
        List.filterMap_cons_none hnil, readLines]
  · rw [readLines, splitlines_cons (by simpa using hbreak), readLines]
    cases splitlines s with
    | nil => simp [hleft c [] hc, hnil]
    | cons l ls => simp [List.filterMap_cons, hleft c l hc]

theorem readLines_concat_space (hnil : f [] = none) (hright : ∀ c l, isSpace c → f (l ++ [c]) = f l) {c : Char}
    (hc : isSpace c) (s : Text) : readLines f (s ++ [c]) = readLines f s := by
  have hsingle : f [c] = none := (hright c [] hc).trans hnil
  rw [readLines, readLines]
  rcases splitlines_concat c s with ⟨extra, rfl | rfl | rfl, h⟩ | ⟨front, l, h, h'⟩
  · rw [h, List.append_nil]
  · simp [h, hnil]
  · simp [h, hsingle]
  · simp [h, h', List.filterMap_append, List.filterMap_cons, hright c l hc]

/-- A reader that ignores the space around lines ignores the space around the text. -/
theorem readLines_strip (hnil : f [] = none) (hleft : ∀ c l, isSpace c → f (c :: l) = f l)
    (hright : ∀ c l, isSpace c → f (l ++ [c]) = f l) (s : Text) : readLines f (strip s) = readLines f s := by
  have hdrop : ∀ s : Text, readLines f (s.dropWhile isSpace) = readLines f s := by
    intro s
    induction s with
    | nil => rfl
    | cons c s ih =>
      by_cases hc : isSpace c
      · rw [List.dropWhile_cons_of_pos hc, ih, readLines_cons_space hnil hleft hc]
      · rw [List.dropWhile_cons_of_neg hc]
  have hrdrop : ∀ s : Text, readLines f (rstrip s) = readLines f s := by
    intro s
    induction s using List.reverseRecOn with
    | nil => rfl
    | append_singleton s c ih =>
      rw [rstrip]
      by_cases hc : isSpace c
      · rw [List.rdropWhile_concat_pos _ _ _ hc, ← rstrip, ih, readLines_concat_space hnil hright hc]
      · rw [List.rdropWhile_concat_neg _ _ _ hc]
  rw [strip, hrdrop, hdrop]

end

/-! ### Lines of a file -/

/-- The lines of a text, each with the newline that ends it. -/
def keepLines : Text → List Text
  | [] => []
  | c :: cs =>
    if c = '\n' then ['\n'] :: keepLines cs
    else match keepLines cs with
      | [] => [[c]]
      | l :: ls => (c :: l) :: ls

/-- `for line in f` -/
def fileLines (content : Text) : List Text := keepLines (universalNewlines content)

theorem not_mem_universalNewlines (s : Text) : '\r' ∉ universalNewlines s := by
  induction s using universalNewlines.induct with
  | case1 => exact List.not_mem_nil
  | case2 cs ih => simpa [universalNewlines] using ih
  | case3 c cs hne ih =>
    rw [universalNewlines, List.mem_cons, not_or]
    · refine ⟨?_, ih⟩
      split
      · decide
      · next hc => exact Ne.symm hc
    · exact hne

theorem universalNewlines_eq_self : ∀ {s : Text}, '\r' ∉ s → universalNewlines s = s
  | [], _ => rfl
  | c :: s, h => by
      have hc : c ≠ '\r' := fun hc => h (hc ▸ List.mem_cons_self)
      rw [universalNewlines, if_neg hc, universalNewlines_eq_self fun hs => h (List.mem_cons_of_mem c hs)]
      rintro _ rfl
      exact absurd rfl hc

theorem mem_of_mem_keepLines {c : Char} : ∀ {s l : Text}, l ∈ keepLines s → c ∈ l → c ∈ s
  | [], l, hl, _ => absurd hl List.not_mem_nil
  | d :: s, l, hl, hc => by
      rw [keepLines] at hl
      split at hl
      · next hd =>
        rcases List.mem_cons.mp hl with rfl | hl
        · rw [List.mem_singleton.mp hc, hd]
          exact List.mem_cons_self
        · exact List.mem_cons_of_mem d (mem_of_mem_keepLines hl hc)
      · split at hl
        · rw [List.mem_singleton.mp hl] at hc
          rw [List.mem_singleton.mp hc]
          exact List.mem_cons_self
        · next m ms hms =>
          rcases List.mem_cons.mp hl with rfl | hl
          · rcases List.mem_cons.mp hc with rfl | hc
            · exact List.mem_cons_self
            · exact List.mem_cons_of_mem d (mem_of_mem_keepLines (hms ▸ List.mem_cons_self) hc)
          · exact List.mem_cons_of_mem d (mem_of_mem_keepLines (hms ▸ List.mem_cons_of_mem m hl) hc)

theorem keepLines_line : ∀ {l : Text}, '\n' ∉ l → ∀ rest : Text,
    keepLines (l ++ '\n' :: rest) = (l ++ ['\n']) :: keepLines rest
  | [], _, rest => rfl
  | c :: l, h, rest => by
      have hc : c ≠ '\n' := fun hc => h (hc ▸ List.mem_cons_self)
      rw [List.cons_append, keepLines, if_neg hc,
        keepLines_line fun hl => h (List.mem_cons_of_mem c hl)]
      rfl

/-- The lines that a file was made of. -/
theorem keepLines_lines : ∀ {ls : List Text}, (∀ l ∈ ls, '\n' ∉ l) →
    keepLines (ls.flatMap fun l => l ++ ['\n']) = ls.map fun l => l ++ ['\n']
  | [], _ => rfl
  | l :: ls, h => by
      rw [List.flatMap_cons, List.append_assoc, List.singleton_append,
        keepLines_line (h l List.mem_cons_self),
        keepLines_lines fun l hl => h l (List.mem_cons_of_mem _ hl), List.map_cons]

/-- The line after the last newline. -/
theorem keepLines_last : ∀ {l : Text}, '\n' ∉ l → l ≠ [] → keepLines l = [l]
  | [], _, hne => absurd rfl hne
  | c :: l, h, _ => by
      obtain ⟨hc, hl⟩ : '\n' ≠ c ∧ '\n' ∉ l := by simpa using h
      rw [keepLines, if_neg (Ne.symm hc)]
      rcases eq_or_ne l [] with rfl | hne
      · rfl
      · rw [keepLines_last hl hne]

/-- The lines of a text: all but the last end in a newline. -/
inductive IsLines : List Text → Prop
  | nil : IsLines []
  | last {l : Text} (h : '\n' ∉ l) (hne : l ≠ []) : IsLines [l]
  | cons {l : Text} {ls : List Text} (h : '\n' ∉ l) (hls : IsLines ls) : IsLines ((l ++ ['\n']) :: ls)

theorem isLines_keepLines (s : Text) : IsLines (keepLines s) := by
  induction s with
  | nil => exact .nil
  | cons c s ih =>
    rw [keepLines]
    split
    · exact .cons (l := []) List.not_mem_nil ih
    · next hc =>
      have hcons : ∀ {l : Text}, '\n' ∉ l → '\n' ∉ c :: l := fun hl hn =>
        (List.mem_cons.mp hn).elim (fun hn => hc hn.symm) hl
      split
      · exact .last (hcons List.not_mem_nil) (List.cons_ne_nil c [])
      · next l ls hs =>
        rw [hs] at ih
        cases ih with
        | last h _ => exact .last (hcons h) (List.cons_ne_nil c l)
        | cons h hls => exact .cons (hcons h) hls

theorem IsLines.mem {ls : List Text} (h : IsLines ls) {l : Text} (hl : l ∈ ls) :
    ∃ t stop, '\n' ∉ t ∧ (stop = [] ∨ stop = ['\n']) ∧ l = t ++ stop := by
  induction h with
  | nil => exact absurd hl List.not_mem_nil
  | @last m h _ =>
    rw [List.mem_singleton.mp hl]
    exact ⟨m, [], h, .inl rfl, (List.append_nil m).symm⟩
  | @cons m ls h _ ih =>
    rcases List.mem_cons.mp hl with rfl | hl
    · exact ⟨m, ['\n'], h, .inr rfl, rfl⟩
    · exact ih hl

theorem keepLines_flatten {ls : List Text} (h : IsLines ls) : keepLines ls.flatten = ls := by
  induction h with
  | nil => rfl
  | last h hne => rw [List.flatten_singleton, keepLines_last h hne]
  | cons h _ ih => rw [List.flatten_cons, List.append_assoc, List.singleton_append, keepLines_line h, ih]

/-- Rewritten one by one, or left out, lines stay lines. -/
theorem IsLines.filterMap {f : Text → Option Text} {ls : List Text} (h : IsLines ls)
    (hline : ∀ l l', '\n' ∉ l → f (l ++ ['\n']) = some l' → ∃ m, '\n' ∉ m ∧ l' = m ++ ['\n'])
    (hlast : ∀ l l', '\n' ∉ l → l ≠ [] → f l = some l' → '\n' ∉ l' ∧ l' ≠ []) :
    IsLines (ls.filterMap f) := by
  induction h with
  | nil => exact .nil
  | @last l h hne =>
    rcases hf : f l with _ | l'
    · rw [List.filterMap_cons_none hf]
      exact .nil
    · obtain ⟨h', hne'⟩ := hlast l l' h hne hf
      rw [List.filterMap_cons_some hf]
      exact .last h' hne'
  | @cons l ls h _ ih =>
    rcases hf : f (l ++ ['\n']) with _ | l'
    · rwa [List.filterMap_cons_none hf]
    · obtain ⟨m, hm, rfl⟩ := hline l l' h hf
      rw [List.filterMap_cons_some hf]
      exact .cons hm ih

/-- The lines of a file as its bytes have them, each with the line end behind it. -/
def rawLines : Text → List (Text × Text)
  | [] => []
  | '\r' :: '\n' :: cs => ([], ['\r', '\n']) :: rawLines cs
  | c :: cs =>
    if c = '\n' ∨ c = '\r' then ([], [c]) :: rawLines cs
    else match rawLines cs with
      | [] => [([c], [])]
      | (l, stop) :: ls => (c :: l, stop) :: ls

/-- A line end as text mode reads it. -/
def readStop (stop : Text) : Text := if stop = [] then [] else ['\n']

theorem flatMap_rawLines (s : Text) : (rawLines s).flatMap (fun l => l.1 ++ l.2) = s := by
  induction s using rawLines.induct with
  | case1 => rfl
  | case2 cs ih => simp [rawLines, ih]
  | case3 c cs hne hc ih =>
    rw [rawLines, if_pos hc, List.flatMap_cons, ih]
    · rfl
    · exact hne
  | case4 c cs hne hc hcs ih =>
    rw [hcs] at ih
    rw [rawLines, if_neg hc, hcs, ← ih]
    · rfl
    · exact hne
  | case5 c cs hne hc l stop ls hcs ih =>
    rw [hcs] at ih
    rw [rawLines, if_neg hc, hcs, ← ih]
    · simp
    · exact hne

/-- A line has no line end inside. -/
theorem mem_rawLines {s : Text} {line : Text × Text} (h : line ∈ rawLines s) :
    ('\n' ∉ line.1 ∧ '\r' ∉ line.1) ∧
      (line.2 = [] ∨ line.2 = ['\n'] ∨ line.2 = ['\r'] ∨ line.2 = ['\r', '\n']) := by
  induction s using rawLines.induct generalizing line with
  | case1 => cases h
  | case2 cs ih =>
    rw [rawLines] at h
    rcases List.mem_cons.mp h with rfl | h
    · simp
    · exact ih h
  | case3 c cs hne hc ih =>
    rw [rawLines, if_pos hc] at h
    · rcases List.mem_cons.mp h with rfl | h
      · rcases hc with rfl | rfl <;> simp
      · exact ih h
    · exact hne
  | case4 c cs hne hc hcs ih =>
    obtain ⟨hn, hr⟩ := not_or.mp hc
    rw [rawLines, if_neg hc, hcs] at h
    · rw [List.mem_singleton.mp h]
      simp [Ne.symm hn, Ne.symm hr]
    · exact hne
  | case5 c cs hne hc l stop ls hcs ih =>
    obtain ⟨hn, hr⟩ := not_or.mp hc
    rw [rawLines, if_neg hc, hcs] at h
    · rcases List.mem_cons.mp h with rfl | h
      · have hl := @ih (l, stop) (hcs ▸ List.mem_cons_self)
        refine ⟨⟨?_, ?_⟩, hl.2⟩
        · exact List.not_mem_cons_of_ne_of_not_mem (Ne.symm hn) hl.1.1
        · exact List.not_mem_cons_of_ne_of_not_mem (Ne.symm hr) hl.1.2
      · exact ih (hcs ▸ List.mem_cons_of_mem _ h)
    · exact hne

/-- Text mode reads the same lines, all of them ended by a newline. -/
theorem fileLines_eq (s : Text) : fileLines s = (rawLines s).map fun line => line.1 ++ readStop line.2 := by
  rw [fileLines]
  induction s using rawLines.induct with
  | case1 => rfl
  | case2 cs ih =>
    rw [universalNewlines, rawLines, keepLines, if_pos rfl, List.map_cons, ih]
    rfl
  | case3 c cs hne hc ih =>
    rw [rawLines, if_pos hc, universalNewlines, keepLines, List.map_cons, ih]
    · rcases hc with rfl | rfl <;> rfl
    · exact hne
    · exact hne
  | case4 c cs hne hc hcs ih =>
    obtain ⟨hn, hr⟩ := not_or.mp hc
    rw [hcs] at ih
    rw [rawLines, if_neg hc, hcs, universalNewlines, if_neg hr, keepLines, if_neg hn, ih]
    · rfl
    · exact hne
    · exact hne
  | case5 c cs hne hc l stop ls hcs ih =>
    obtain ⟨hn, hr⟩ := not_or.mp hc
    rw [hcs] at ih
    rw [rawLines, if_neg hc, hcs, universalNewlines, if_neg hr, keepLines, if_neg hn, ih]
    · rfl
    · exact hne
    · exact hne

/-! ### Splitting at a character -/

theorem length_splitOn (a : Char) (s : Text) : (s.splitOn a).length = s.count a + 1 := by
  induction s with
  | nil => simp
  | cons c s ih =>
    rw [List.splitOn_cons_eq_if_modifyHead]
    by_cases h : c = a <;> simp [h, ih]

/-- No part contains a separator. -/
theorem not_of_mem_splitOnP {p : Char → Bool} {c : Char} : ∀ {s l : Text}, l ∈ s.splitOnP p → c ∈ l →
    p c = false
  | [], l, h, hc => by
      rw [List.splitOnP_nil, List.mem_singleton] at h
      rw [h] at hc
      exact absurd hc List.not_mem_nil
  | d :: s, l, h, hc => by
      rw [List.splitOnP_cons_eq_if_modifyHead] at h
      split at h
      · rcases List.mem_cons.mp h with rfl | h
        · exact absurd hc List.not_mem_nil
        · exact not_of_mem_splitOnP h hc
      · next hd =>
        obtain ⟨q, qs, hq⟩ := List.exists_cons_of_ne_nil (List.splitOnP_ne_nil p s)
        have hmem : ∀ r ∈ q :: qs, c ∈ r → p c = false := fun r hr => not_of_mem_splitOnP (hq ▸ hr)
        rw [hq, List.modifyHead_cons] at h
        rcases List.mem_cons.mp h with rfl | h
        · rcases List.mem_cons.mp hc with rfl | hc
          · simpa using hd
          · exact hmem q List.mem_cons_self hc
        · exact hmem l (List.mem_cons_of_mem q h) hc

theorem not_mem_of_mem_splitOn (a : Char) {s l : Text} (h : l ∈ s.splitOn a) : a ∉ l := by
  intro ha
  rw [List.splitOn_eq_splitOnP] at h
  simpa using not_of_mem_splitOnP h ha

theorem mem_of_mem_splitOn {a c : Char} {l : Text} (hc : c ∈ l) : ∀ {s : Text}, l ∈ s.splitOn a →
    c ∈ s
  | [], h => by
      rw [List.splitOn_nil, List.mem_singleton] at h
      exact h ▸ hc
  | d :: s, h => by
      rw [List.splitOn_cons_eq_if_modifyHead] at h
      split at h
      · rcases List.mem_cons.mp h with rfl | h
        · exact absurd hc List.not_mem_nil
        · exact List.mem_cons_of_mem d (mem_of_mem_splitOn hc h)
      · obtain ⟨p, ps, hp⟩ := List.exists_cons_of_ne_nil (List.splitOn_ne_nil a s)
        have hmem : ∀ q ∈ p :: ps, c ∈ q → c ∈ s := fun q hq hcq => mem_of_mem_splitOn hcq (hp ▸ hq)
        rw [hp, List.modifyHead_cons] at h
        rcases List.mem_cons.mp h with rfl | h
        · exact (List.mem_cons.mp hc).elim (fun h => h ▸ List.mem_cons_self)
            fun h => List.mem_cons_of_mem d (hmem p List.mem_cons_self h)
        · exact List.mem_cons_of_mem d (hmem l (List.mem_cons_of_mem p h) hc)

/-- Splitting loses nothing but separators. -/
theorem mem_splitOn {a c : Char} : ∀ {s : Text}, c ∈ s → c = a ∨ ∃ p ∈ s.splitOn a, c ∈ p
  | d :: s, hc => by
      obtain ⟨p, ps, hp⟩ := List.exists_cons_of_ne_nil (List.splitOn_ne_nil a s)
      rw [List.splitOn_cons_eq_if_modifyHead, hp]
      by_cases hd : d = a
      · rw [if_pos (beq_iff_eq.mpr hd)]
        rcases List.mem_cons.mp hc with rfl | hc
        · exact Or.inl hd
        · exact (mem_splitOn hc).imp_right fun ⟨q, hq, hcq⟩ => ⟨q, List.mem_cons_of_mem _ (hp ▸ hq), hcq⟩
      · rw [if_neg (by simpa using hd), List.modifyHead_cons]
        rcases List.mem_cons.mp hc with rfl | hc
        · exact Or.inr ⟨c :: p, List.mem_cons_self, List.mem_cons_self⟩
        · refine (mem_splitOn hc).imp_right fun ⟨q, hq, hcq⟩ => ?_
          rcases List.mem_cons.mp (hp ▸ hq) with rfl | hq
          · exact ⟨d :: q, List.mem_cons_self, List.mem_cons_of_mem d hcq⟩
          · exact ⟨q, List.mem_cons_of_mem _ hq, hcq⟩

/-! ### Words -/

/-- `s.split()`: the maximal runs without white space. -/
def words (s : Text) : List Text := (s.splitOnP isSpace).filter (· ≠ [])

@[simp] theorem words_nil : words [] = [] := rfl

theorem words_append_cons (a b : Text) {c : Char} (hc : isSpace c) :
    words (a ++ c :: b) = words a ++ words b := by
  rw [words, List.splitOnP_append_cons a b hc, List.filter_append]; rfl

theorem words_append_space (a : Text) : ∀ {ws : Text}, (∀ c ∈ ws, isSpace c) → ∀ b : Text,
    ws ≠ [] → words (a ++ ws ++ b) = words a ++ words b
  | [c], h, b, _ => by
      rw [List.append_assoc]; exact words_append_cons a b (h c List.mem_cons_self)
  | c :: d :: ws, h, b, _ => by
      have hc : isSpace c := h c List.mem_cons_self
      rw [List.append_assoc, List.cons_append, words_append_cons a _ hc]
      congr 1
      exact words_append_space [] (fun c hc => h c (List.mem_cons_of_mem _ hc)) b (by simp)

theorem words_append_space_nil (a : Text) {ws : Text} (h : ∀ c ∈ ws, isSpace c) :
    words (a ++ ws) = words a := by
  by_cases hws : ws = []
  · rw [hws, List.append_nil]
  · simpa using words_append_space a h [] hws

/-- A word is not empty and has no white space. -/
theorem mem_words {s t : Text} (h : t ∈ words s) : t ≠ [] ∧ ∀ c ∈ t, isSpace c = false := by
  obtain ⟨ht, hne⟩ := List.mem_filter.mp h
  exact ⟨of_decide_eq_true hne, fun c hc => not_of_mem_splitOnP ht hc⟩

theorem words_cons_space {c : Char} (hc : isSpace c) (s : Text) : words (c :: s) = words s :=
  words_append_cons [] s hc

/-- A character before a word belongs to it. -/
theorem words_cons_cons {c d : Char} (hc : isSpace c = false) (hd : isSpace d = false) (s : Text) :
    ∃ w ws, words (d :: s) = (d :: w) :: ws ∧ words (c :: d :: s) = (c :: d :: w) :: ws := by
  obtain ⟨w, ws, hw⟩ := List.exists_cons_of_ne_nil (List.splitOnP_ne_nil isSpace s)
  refine ⟨w, ws.filter (· ≠ []), ?_, ?_⟩ <;> simp [words, List.splitOnP_cons_eq_if_modifyHead, hc, hd, hw]

/-- A non-empty run without white space is one word. -/
theorem words_singleton {t : Text} (h : ∀ c ∈ t, isSpace c = false) (ht : t ≠ []) :
    words t = [t] := by
  rw [words, List.splitOnP_eq_singleton h]; simp [ht]

/-- A character that is no white space belongs to a word. -/
theorem words_ne_nil {c : Char} (hc : isSpace c = false) : ∀ {s : Text}, c ∈ s → words s ≠ []
  | [d], h => by
      rw [List.mem_singleton.mp h] at hc
      simp [words_singleton (t := [d]) (by simpa using hc)]
  | d :: e :: s, h => by
      cases hd : isSpace d with
      | true =>
        rw [words_cons_space hd]
        refine words_ne_nil hc ((List.mem_cons.mp h).resolve_left ?_)
        rintro rfl
        cases hc.symm.trans hd
      | false =>
        cases he : isSpace e with
        | true =>
          have hw : words (d :: e :: s) = words [d] ++ words s := words_append_cons [d] s he
          simp [hw, words_singleton (t := [d]) (by simpa using hd)]
        | false =>
          obtain ⟨w, ws, -, hw⟩ := words_cons_cons hd he s
          simp [hw]

theorem words_rstrip (s : Text) : words (rstrip s) = words s := by
  conv_rhs => rw [← List.rdropWhile_append_rtakeWhile (p := isSpace) (l := s)]
  exact (words_append_space_nil _ fun c hc => List.mem_rtakeWhile_imp hc).symm

theorem words_strip (s : Text) : words (strip s) = words s := by
  rw [strip, words_rstrip]
  conv_rhs => rw [← List.takeWhile_append_dropWhile (p := isSpace) (l := s)]
  by_cases hs : s.takeWhile isSpace = []
  · rw [hs, List.nil_append]
  · exact (words_append_space [] (fun c hc => List.mem_takeWhile_imp hc) _ hs).symm

/-- A text starts with its first word, once stripped. -/
theorem startsWith_first_word {s w : Text} {ws : List Text} (h : words s = w :: ws) :
    startsWith (strip s) w := by
  rw [← words_strip] at h
  have hhead := head_strip s
  generalize strip s = t at h hhead
  have hword : ∀ c ∈ t.takeWhile fun c => !isSpace c, isSpace c = false := fun c hc => by
    simpa using List.mem_takeWhile_imp hc
  have hne : (t.takeWhile fun c => !isSpace c) ≠ [] := by
    cases t with
    | nil => cases h
    | cons c t => simp [hhead c rfl]
  rw [startsWith_iff]
  rw [← List.takeWhile_append_dropWhile (p := fun c => !isSpace c) (l := t)] at h ⊢
  cases hrest : t.dropWhile fun c => !isSpace c with
  | nil =>
    rw [hrest, List.append_nil, words_singleton hword hne] at h
    rw [(List.cons.inj h).1]
    exact List.prefix_append _ _
  | cons c rest =>
    have hc := List.head?_dropWhile_not (fun c => !isSpace c) t
    rw [hrest] at hc
    rw [hrest, words_append_cons _ _ (by simpa using hc), words_singleton hword hne] at h
    rw [← (List.cons.inj h).1]
    exact List.prefix_append _ _

theorem mem_join {sep c : Char} : ∀ {l : List Text}, c ∈ [sep].intercalate l → c = sep ∨ ∃ t ∈ l, c ∈ t
  | [], h => absurd h List.not_mem_nil
  | [t], h => Or.inr ⟨t, List.mem_singleton_self t, by simpa using h⟩
  | t :: u :: l, h => by
      have hj : [sep].intercalate (t :: u :: l) = t ++ sep :: [sep].intercalate (u :: l) := by
        simp [List.intercalate]
      rw [hj, List.mem_append, List.mem_cons] at h
      rcases h with h | h | h
      · exact Or.inr ⟨t, List.mem_cons_self, h⟩
      · exact Or.inl h
      · exact (mem_join h).imp_right fun ⟨v, hv, hc⟩ => ⟨v, List.mem_cons_of_mem _ hv, hc⟩

theorem mem_join_of_mem {sep c : Char} {t : Text} (hc : c ∈ t) : ∀ {l : List Text}, t ∈ l →
    c ∈ [sep].intercalate l
  | [u], ht => by simpa [List.mem_singleton.mp ht] using hc
  | u :: v :: l, ht => by
      have hj : [sep].intercalate (u :: v :: l) = u ++ sep :: [sep].intercalate (v :: l) := by
        simp [List.intercalate]
      rw [hj]
      rcases List.mem_cons.mp ht with rfl | ht
      · exact List.mem_append_left _ hc
      · exact List.mem_append_right _ (List.mem_cons_of_mem sep (mem_join_of_mem hc ht))

/-- What holds of the last character of every part holds of the last character of all together. -/
theorem getLast_join {P : Char → Prop} (sep : Char) : ∀ {l : List Text},
    (∀ t ∈ l, t ≠ [] ∧ ∀ c ∈ t.getLast?, P c) → ∀ c ∈ ([sep].intercalate l).getLast?, P c
  | [], _, c, hc => nomatch hc
  | [t], h, c, hc => (h t List.mem_cons_self).2 c (by simpa using hc)
  | t :: u :: l, h, c, hc => by
      have hj : [sep].intercalate (t :: u :: l) = t ++ sep :: [sep].intercalate (u :: l) := by
        simp [List.intercalate]
      have hne : [sep].intercalate (u :: l) ≠ [] := by
        cases l <;> simp [List.intercalate, (h u (by simp)).1]
      rw [hj, List.getLast?_append_of_ne_nil _ (List.cons_ne_nil _ _), List.getLast?_cons_of_ne_nil hne] at hc
      exact getLast_join sep (fun v hv => h v (List.mem_cons_of_mem t hv)) c hc

/-- `" ".join(l)` gives the words back. -/
theorem words_join : ∀ {l : List Text}, (∀ t ∈ l, ∀ c ∈ t, isSpace c = false) →
    words ([' '].intercalate l) = l.filter (· ≠ [])
  | [], _ => rfl
  | [t], h => by
      by_cases ht : t = []
      · subst ht; rfl
      · simp [words_singleton (h t List.mem_cons_self) ht, ht]
  | t :: u :: l, h => by
      have hj : [' '].intercalate (t :: u :: l) = t ++ ' ' :: [' '].intercalate (u :: l) := by
        simp [List.intercalate]
      rw [hj, words_append_cons _ _ (by decide),
        words_join fun v hv => h v (List.mem_cons_of_mem _ hv)]
      by_cases ht : t = []
      · subst ht; rfl
      · rw [words_singleton (h t List.mem_cons_self) ht, List.singleton_append,
          List.filter_cons_of_pos (a := t) (by simpa using ht)]

/-! ### Delimited parts -/

/-- `e` stands in `s` between separators or the ends. -/
def Delimited (p : Char → Bool) (e s : Text) : Prop :=
  ∃ pre post, s = pre ++ e ++ post ∧ (∀ c ∈ pre.getLast?, p c) ∧ ∀ c ∈ post.head?, p c

theorem splitOnP_append_delimited {p : Char → Bool} {pre : Text} (h : ∀ c ∈ pre.getLast?, p c)
    (t : Text) : ∃ front, (pre ++ t).splitOnP p = front ++ t.splitOnP p := by
  rcases List.eq_nil_or_concat pre with rfl | ⟨pre, c, rfl⟩
  · exact ⟨[], rfl⟩
  · rw [List.concat_eq_append] at h ⊢
    have hc : p c := h c (by simp)
    exact ⟨pre.splitOnP p, by rw [List.append_assoc]; exact List.splitOnP_append_cons pre t hc⟩

theorem Delimited.mem_splitOnP {p : Char → Bool} {e s : Text} (h : Delimited p e s)
    (he : ∀ c ∈ e, p c = false) : e ∈ s.splitOnP p := by
  obtain ⟨pre, post, rfl, hpre, hpost⟩ := h
  obtain ⟨front, hfront⟩ := splitOnP_append_delimited hpre (e ++ post)
  rw [List.append_assoc, hfront]
  refine List.mem_append_right front ?_
  cases post with
  | nil => rw [List.append_nil, List.splitOnP_eq_singleton he]; exact List.mem_singleton_self e
  | cons c post =>
    rw [List.splitOnP_append_cons e post (hpost c rfl), List.splitOnP_eq_singleton he]
    exact List.mem_cons_self

theorem Delimited.mem_words {e s : Text} (h : Delimited isSpace e s)
    (he : ∀ c ∈ e, isSpace c = false) (hne : e ≠ []) : e ∈ words s :=
  List.mem_filter.mpr ⟨h.mem_splitOnP he, decide_eq_true hne⟩

/-- Stripping white space after a part that ends with none of it leaves the part in place. -/
theorem Delimited.rstrip {p : Char → Bool} {e s : Text} (h : Delimited p e s) (hne : e ≠ [])
    (he : ∀ c ∈ e.getLast?, isSpace c = false) : Delimited p e (rstrip s) := by
  obtain ⟨pre, post, rfl, hpre, hpost⟩ := h
  refine ⟨pre, Py.rstrip post, rstrip_append_of_getLast ?_ post, hpre, ?_⟩
  · intro c hc
    rw [List.getLast?_append_of_ne_nil _ hne] at hc
    exact he c hc
  · intro c hc
    obtain ⟨t, ht⟩ := List.rdropWhile_prefix isSpace post
    refine hpost c ?_
    rw [← ht]
    exact List.mem_head?_append_of_mem_head? hc

/-! ### Partition and replacement -/

/-- `s.partition(sep)` for a one-character separator. -/
def partition (sep : Char) (s : Text) : Text × Text × Text :=
  match s.dropWhile (· ≠ sep) with
  | [] => (s, [], [])
  | c :: tail => (s.takeWhile (· ≠ sep), [c], tail)

/-- Both parts are made of characters of the text. -/
theorem partition_subset (sep : Char) (s : Text) :
    (partition sep s).1 ⊆ s ∧ (partition sep s).2.2 ⊆ s := by
  have hdrop := (List.dropWhile_suffix (l := s) fun c => decide (c ≠ sep)).subset
  rw [partition]
  cases h : s.dropWhile (· ≠ sep) with
  | nil => exact ⟨fun _ => id, List.nil_subset s⟩
  | cons c tail =>
    exact ⟨(List.takeWhile_prefix _).subset, fun d hd => hdrop (h ▸ List.mem_cons_of_mem c hd)⟩

theorem partition_of_not_mem {sep : Char} {s : Text} (h : sep ∉ s) :
    partition sep s = (s, [], []) := by
  have hd : s.dropWhile (· ≠ sep) = [] := List.dropWhile_eq_nil_iff.mpr fun c hc =>
    decide_eq_true (ne_of_mem_of_not_mem hc h)
  rw [partition, hd]

theorem partition_append {sep : Char} {k : Text} (h : sep ∉ k) (v : Text) :
    partition sep (k ++ sep :: v) = (k, [sep], v) := by
  have hk : ∀ c ∈ k, (decide (c ≠ sep)) = true := fun c hc =>
    decide_eq_true (ne_of_mem_of_not_mem hc h)
  rw [partition, List.dropWhile_append_of_pos hk, List.takeWhile_append_of_pos hk,
    List.dropWhile_cons_of_neg (by simp), List.takeWhile_cons_of_neg (by simp), List.append_nil]

/-- The first separator decides how a text is cut. -/
theorem append_cons_inj {sep : Char} {k k' v v' : Text} (h : sep ∉ k) (h' : sep ∉ k')
    (heq : k ++ sep :: v = k' ++ sep :: v') : k = k' ∧ v = v' := Occurs.cut_unique h h' heq

theorem partition_cons {sep c : Char} (hc : c ≠ sep) (s : Text) :
    partition sep (c :: s) = (c :: (partition sep s).1, (partition sep s).2) := by
  rw [partition, partition, List.dropWhile_cons_of_pos (by simpa using hc)]
  cases s.dropWhile (· ≠ sep) with
  | nil => rfl
  | cons d tail => rw [List.takeWhile_cons_of_pos (by simpa using hc)]

/-- `s.split(sep, maxsplit)` -/
def splitMax (sep : Char) : ℕ → Text → List Text
  | 0, s => [s]
  | n + 1, s => match partition sep s with
    | (front, [], _) => [front]
    | (front, _, tail) => front :: splitMax sep n tail

theorem mem_partition (sep : Char) {c : Char} {s : Text} (hc : c ∈ s) :
    c = sep ∨ c ∈ (partition sep s).1 ∨ (partition sep s).2.1 ≠ [] ∧ c ∈ (partition sep s).2.2 := by
  rw [partition]
  cases hdrop : s.dropWhile (· ≠ sep) with
  | nil => exact Or.inr (Or.inl hc)
  | cons d tail =>
    rw [← List.takeWhile_append_dropWhile (p := (· ≠ sep)) (l := s), hdrop] at hc
    rcases List.mem_append.mp hc with hc | hc
    · exact Or.inr (Or.inl hc)
    · rcases List.mem_cons.mp hc with rfl | hc
      · have hd := List.head?_dropWhile_not (fun c => decide (c ≠ sep)) s
        rw [hdrop] at hd
        exact Or.inl (by simpa using hd)
      · exact Or.inr (Or.inr ⟨List.cons_ne_nil _ _, hc⟩)

/-- Splitting loses nothing but separators. -/
theorem mem_splitMax (sep : Char) {c : Char} : ∀ (n : ℕ) {s : Text}, c ∈ s →
    c = sep ∨ ∃ p ∈ splitMax sep n s, c ∈ p
  | 0, s, hc => Or.inr ⟨s, List.mem_singleton_self s, hc⟩
  | n + 1, s, hc => by
      have hparts := mem_partition sep hc
      rw [splitMax]
      split
      · next front _ hpartition =>
        rw [hpartition] at hparts
        rcases hparts with h | h | ⟨h, -⟩
        · exact Or.inl h
        · exact Or.inr ⟨front, List.mem_singleton_self front, h⟩
        · exact absurd rfl h
      · next front _ tail _ hpartition =>
        rw [hpartition] at hparts
        rcases hparts with h | h | ⟨-, h⟩
        · exact Or.inl h
        · exact Or.inr ⟨front, List.mem_cons_self, h⟩
        · exact (mem_splitMax sep n h).imp_right fun ⟨p, hp, hcp⟩ => ⟨p, List.mem_cons_of_mem _ hp, hcp⟩

/-- `s.replace(old, new)` for a non-empty `old`: scanning from the left, `skip` characters of the
    last match still to be passed over. -/
def replaceFrom (old new : Text) : ℕ → Text → Text
  | _, [] => []
  | skip + 1, _ :: cs => replaceFrom old new skip cs
  | 0, c :: cs =>
    if old.isPrefixOf (c :: cs) then new ++ replaceFrom old new (old.length - 1) cs
    else c :: replaceFrom old new 0 cs

/-- `s.replace(old, new)` -/
def replace (s old new : Text) : Text := replaceFrom old new 0 s

/-- Replacing one character acts on each character by itself. -/
theorem replace_char (a : Char) (new : Text) : ∀ s : Text,
    replace s [a] new = s.flatMap fun c => if c = a then new else [c]
  | [] => rfl
  | c :: s => by
      have ih : replaceFrom [a] new 0 s = _ := replace_char a new s
      by_cases h : c = a
      · simp [replace, replaceFrom, h, ih]
      · simp [replace, replaceFrom, h, Ne.symm h, ih]

/-! ### `textwrap.dedent` -/

/-- `s.isspace()` -/
def isSpaceText (s : Text) : Bool := decide (s ≠ []) && s.all isSpace

/-- The number of blanks and tabs that two texts start with in common. -/
def commonMargin : Text → Text → ℕ
  | c :: s, d :: t => if c = d ∧ (c = ' ' ∨ c = '\t') then commonMargin s t + 1 else 0
  | _, _ => 0

/-- `textwrap.dedent(text)`: what the least and the greatest line have in common, all lines have. -/
def dedent (text : Text) : Text :=
  let lines := text.splitOn '\n'
  let margin := match lines.filter fun l => l ≠ [] ∧ ¬ isSpaceText l with
    | [] => 0
    | l :: ls => commonMargin (ls.foldl (fun a b => if b < a then b else a) l)
        (ls.foldl (fun a b => if a < b then b else a) l)
  ['\n'].intercalate (lines.map fun l => if isSpaceText l then [] else l.drop margin)

theorem commonMargin_append {indent s t : Text} (hindent : ∀ c ∈ indent, c = ' ' ∨ c = '\t')
    (hs : ∀ c ∈ s.head?, isSpace c = false) : commonMargin (indent ++ s) (indent ++ t) = indent.length := by
  induction indent with
  | nil =>
    cases s with
    | nil => rfl
    | cons c s =>
      have hc : isSpace c = false := hs c rfl
      cases t with
      | nil => rfl
      | cons d t =>
        rw [List.nil_append, List.nil_append, commonMargin, if_neg]
        · rfl
        · rintro ⟨-, rfl | rfl⟩ <;> exact absurd hc (by decide)
  | cons c indent ih =>
    rw [List.cons_append, List.cons_append, commonMargin, if_pos ⟨rfl, hindent c List.mem_cons_self⟩,
      ih fun d hd => hindent d (List.mem_cons_of_mem c hd)]
    rfl

/-- Picking elements while going through a list leads to one of them. -/
theorem foldl_pick_mem {α : Type} (p : α → α → Prop) [∀ a b, Decidable (p a b)] : ∀ (l : List α) (a : α),
    l.foldl (fun a b => if p a b then b else a) a ∈ a :: l
  | [], a => List.mem_singleton_self a
  | b :: l, a => by
      rw [List.foldl_cons]
      rcases List.mem_cons.mp (foldl_pick_mem p l (if p a b then b else a)) with h | h
      · rw [h]
        split
        · exact List.mem_cons_of_mem a List.mem_cons_self
        · exact List.mem_cons_self
      · exact List.mem_cons_of_mem a (List.mem_cons_of_mem b h)

/-- Lines that are blank or start behind a common indent lose the indent. -/
theorem dedent_join {indent : Text} {ls : List Text} (hindent : ∀ c ∈ indent, c = ' ' ∨ c = '\t')
    (hne : ls ≠ []) (hls : ∀ l ∈ ls, '\n' ∉ l)
    (h : ∀ l ∈ ls, l = [] ∨ isSpaceText l ∨ ∃ t, l = indent ++ t ∧ ∀ c ∈ t.head?, isSpace c = false) :
    dedent (['\n'].intercalate ls) =
      ['\n'].intercalate (ls.map fun l => if isSpaceText l then [] else l.drop indent.length) := by
  have hmargin : ∀ l ∈ ls.filter (fun l => decide (l ≠ [] ∧ ¬ isSpaceText l)),
      ∃ t, l = indent ++ t ∧ ∀ c ∈ t.head?, isSpace c = false := by
    intro l hl
    obtain ⟨hmem, hl⟩ := List.mem_filter.mp hl
    obtain ⟨hnil, hspace⟩ := of_decide_eq_true hl
    exact ((h l hmem).resolve_left hnil).resolve_left hspace
  rw [dedent, List.splitOn_intercalate '\n' hls hne]
  congr 1
  refine List.map_congr_left fun l hl => ?_
  split
  · rfl
  · next hspace =>
    split
    · next hfilter =>
      have hnil : l = [] := by
        by_contra hnil
        have hmem : l ∈ ls.filter (fun l => decide (l ≠ [] ∧ ¬ isSpaceText l)) :=
          List.mem_filter.mpr ⟨hl, decide_eq_true ⟨hnil, hspace⟩⟩
        rw [hfilter] at hmem
        exact List.not_mem_nil hmem
      simp [hnil]
    · next m ms hfilter =>
      rw [hfilter] at hmargin
      obtain ⟨s, hs, hhead⟩ := hmargin _ (foldl_pick_mem (fun a b => b < a) ms m)
      obtain ⟨t, ht, -⟩ := hmargin _ (foldl_pick_mem (fun a b => a < b) ms m)
      rw [hs, ht, commonMargin_append hindent hhead]

end Py
