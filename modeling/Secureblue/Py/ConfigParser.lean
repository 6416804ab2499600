import Secureblue.Py.Dict
import Secureblue.Py.Text

/-! Reading configuration files (`configparser.ConfigParser` with `strict=False`, the delimiter `=`
    and an `optionxform` that changes nothing).

    A reader goes through the lines of a file and keeps the section and the option it is in. Values
    are interpolated when they are asked for: `%%` is a percent sign, `%(name)s` another value. -/

namespace Py.ConfigParser

inductive Error where
  | missingSectionHeader
  | parsing
  | interpolationSyntax
  | interpolationMissingOption
  | interpolationDepth
  deriving DecidableEq, Repr

/-! ### Sections -/

/-- The lines of every value, by section and option. -/
abbrev Sections := Dict Text (Dict Text (List Text))

def defaultSection : Text := "DEFAULT"

namespace Sections

def value (s : Sections) (section' option : Text) : Option (List Text) :=
  (s.get section').bind fun options => options.get option

def setValue (s : Sections) (section' option : Text) (lines : List Text) : Sections :=
  s.set section' (((s.get section').getD ∅).set option lines)

/-- The section, empty if there is none yet. -/
def openSection (s : Sections) (section' : Text) : Sections :=
  if (s.get section').isSome then s else s.set section' ∅

/-- `has_section` -/
def hasSection (s : Sections) (section' : Text) : Bool :=
  decide (section' ≠ defaultSection) && (s.get section').isSome

theorem value_setValue (s : Sections) (section' option section'' option' : Text) (lines : List Text) :
    (s.setValue section' option lines).value section'' option' =
      if section'' = section' ∧ option' = option then some lines else s.value section'' option' := by
  rw [value, setValue, Dict.get_set]
  by_cases hs : section'' = section'
  · subst hs
    rw [if_pos rfl, Option.bind_some, Dict.get_set, value]
    by_cases ho : option' = option
    · simp [ho]
    · cases s.get section'' <;> simp [ho]
  · simp [hs, value]

theorem value_openSection (s : Sections) (section' section'' option : Text) :
    (s.openSection section').value section'' option = s.value section'' option := by
  rw [openSection]
  split
  · rfl
  · next h =>
    rw [value, Dict.get_set, value]
    by_cases hs : section'' = section'
    · subst hs
      have hnone : s.get section'' = none := by simpa using h
      simp [hnone]
    · rw [if_neg hs]

end Sections

/-! ### Lines -/

/-- A line that is a comment as a whole. -/
def isComment (line : Text) : Bool := startsWith (strip line) ['#'] || startsWith (strip line) [';']

/-- A line without its comment. -/
def clean (line : Text) : Text := if isComment line then [] else strip line

/-- What `\[(?P<header>.+)\]` matches. -/
def header (line : Text) : Option Text :=
  match line with
  | '[' :: rest =>
    let name := (rest.rdropWhile (· ≠ ']')).dropLast
    if name = [] then none else some name
  | _ => none

structure Reader where
  sections : Sections
  sectname : Option Text
  optname : Text
  indentLevel : ℕ
  /-- a line was not understood -/
  errors : Bool

def Reader.init : Reader := ⟨∅, none, [], 0, false⟩

/-- A further line for the option that the reader is in. -/
def Reader.append (r : Reader) (sectname line : Text) : Reader :=
  let lines := (r.sections.value sectname r.optname).getD []
  { r with sections := r.sections.setValue sectname r.optname (lines ++ [line]) }

/-- The section that a further line of a value belongs to. -/
def Reader.inValue (r : Reader) : Option Text := if r.optname = [] then none else r.sectname

/-- A line that is neither empty nor continues a value. -/
def Reader.rest (r : Reader) (line : Text) : Except Error Reader :=
  match header line, r.sectname with
  | some name, _ =>
    .ok { r with sections := r.sections.openSection name, sectname := some name, optname := [] }
  | none, none => .error .missingSectionHeader
  | none, some sectname =>
    match partition '=' line with
    | (_, [], _) => .ok { r with errors := true }
    | (key, _, optval) =>
      let optname := rstrip key
      .ok { r with sections := r.sections.setValue sectname optname [strip optval], optname,
                   errors := r.errors || decide (optname = []) }

def Reader.step (r : Reader) (line : Text) : Except Error Reader :=
  let indent := (line.takeWhile isSpace).length
  if clean line = [] then
    match r.inValue with
    | some sectname => .ok (if isComment line then r else r.append sectname [])
    | none => .ok r
  else match r.inValue with
    | some sectname =>
      if r.indentLevel < indent then .ok (r.append sectname (clean line))
      else Reader.rest { r with indentLevel := indent } (clean line)
    | none => Reader.rest { r with indentLevel := indent } (clean line)

def Reader.steps (r : Reader) : List Text → Except Error Reader
  | [] => .ok r
  | line :: lines => do
    let r ← r.step line
    r.steps lines

/-- `read` for the lines of a file. -/
def read (lines : List Text) : Except Error Sections := do
  let r ← Reader.init.steps lines
  if r.errors then .error .parsing else .ok r.sections

/-! ### Interpolation -/

/-- Where `_interpolate_some` is in a value: behind a percent sign, in the name of a reference, or
    behind the name. -/
inductive Position where
  | text
  | percent
  | name (before : Text)
  | closed (name : Text)

section
variable (find : Text → Option Text) (expand : Text → Except Error Text)

/-- One pass over a value; `expand` is for the values that it refers to. -/
def interpolateFrom : Position → Text → Except Error Text
  | .text, [] => .ok []
  | .text, c :: cs =>
    if c = '%' then interpolateFrom .percent cs
    else do
      let rest ← interpolateFrom .text cs
      return c :: rest
  | .percent, [] => .error .interpolationSyntax
  | .percent, c :: cs =>
    if c = '%' then do
      let rest ← interpolateFrom .text cs
      return '%' :: rest
    else if c = '(' then interpolateFrom (.name []) cs
    else .error .interpolationSyntax
  | .name _, [] => .error .interpolationSyntax
  | .name before, c :: cs =>
    if c = ')' then
      if before = [] then .error .interpolationSyntax else interpolateFrom (.closed before) cs
    else interpolateFrom (.name (before ++ [c])) cs
  | .closed _, [] => .error .interpolationSyntax
  | .closed name, c :: cs =>
    if c = 's' then
      match find name with
      | none => .error .interpolationMissingOption
      | some value => do
        let expanded ← (if '%' ∈ value then expand value else .ok value)
        let rest ← interpolateFrom .text cs
        return expanded ++ rest
    else .error .interpolationSyntax

end

/-- `_interpolate_some`, with how much deeper references may go. -/
def interpolate (find : Text → Option Text) : ℕ → Text → Except Error Text
  | 0, _ => .error .interpolationDepth
  | depth + 1, value => interpolateFrom find (interpolate find depth) .text value

def maxInterpolationDepth : ℕ := 10

/-- A value as it is stored, from the section or else from the default section. -/
def Sections.raw (s : Sections) (section' option : Text) : Option Text :=
  ((s.value section' option).or (s.value defaultSection option)).map fun lines =>
    rstrip (['\n'].intercalate lines)

/-- `parser[section].get(option)` -/
def Sections.get? (s : Sections) (section' option : Text) : Except Error (Option Text) :=
  match s.raw section' option with
  | none => .ok none
  | some value => do
    let value ← interpolate (s.raw section') maxInterpolationDepth value
    return some value

/-! ### Reading well-formed lines -/

theorem clean_line {line : Text} (hne : line ≠ []) (hhead : ∀ c ∈ line.head?, isSpace c = false)
    (hcomment : ∀ c ∈ line.head?, c ≠ '#' ∧ c ≠ ';') (hlast : ∀ c ∈ line.getLast?, isSpace c = false) :
    clean (line ++ ['\n']) = line := by
  have hstrip : strip (line ++ ['\n']) = line := by
    rw [strip_append_of_space (by decide), strip_eq_self hhead hlast]
  obtain ⟨c, cs, rfl⟩ := List.exists_cons_of_ne_nil hne
  obtain ⟨hhash, hsemicolon⟩ := hcomment c rfl
  have hcomment : isComment ((c :: cs) ++ ['\n']) = false := by
    rw [isComment, hstrip]
    simp [startsWith, List.isPrefixOf, hhash.symm, hsemicolon.symm]
  rw [clean, if_neg (Bool.eq_false_iff.mp hcomment), hstrip]

theorem indent_line {line : Text} (hne : line ≠ []) (hhead : ∀ c ∈ line.head?, isSpace c = false)
    (rest : Text) : (line ++ rest).takeWhile isSpace = [] := by
  obtain ⟨c, cs, rfl⟩ := List.exists_cons_of_ne_nil hne
  rw [List.cons_append, List.takeWhile_cons_of_neg (by simp [hhead c rfl])]

/-- A line that is not indented ends the value before it. -/
theorem Reader.step_line (r : Reader) {line : Text} (hne : line ≠ [])
    (hhead : ∀ c ∈ line.head?, isSpace c = false) (hcomment : ∀ c ∈ line.head?, c ≠ '#' ∧ c ≠ ';')
    (hlast : ∀ c ∈ line.getLast?, isSpace c = false) :
    r.step (line ++ ['\n']) = Reader.rest { r with indentLevel := 0 } line := by
  rw [Reader.step, clean_line hne hhead hcomment hlast, if_neg hne, indent_line hne hhead,
    List.length_nil]
  cases r.inValue with
  | none => rfl
  | some sectname => exact if_neg (Nat.not_lt_zero _)

theorem Reader.step_blank (r : Reader) : r.step ['\n'] = .ok (match r.inValue with
    | some sectname => r.append sectname []
    | none => r) := by
  have hclean : clean ['\n'] = [] := by decide
  rw [Reader.step, hclean, if_pos rfl]
  cases r.inValue <;> rfl

theorem Reader.step_header (r : Reader) {name : Text} (hne : name ≠ []) :
    r.step (('[' :: (name ++ [']'])) ++ ['\n']) = .ok { r with
      sections := r.sections.openSection name, sectname := some name, optname := [], indentLevel := 0 } := by
  have hheader : header ('[' :: (name ++ [']'])) = some name := by
    have hdrop : (name ++ [']']).rdropWhile (· ≠ ']') = name ++ [']'] :=
      List.rdropWhile_concat_neg _ _ _ (by simp)
    rw [header, hdrop, List.dropLast_concat, if_neg hne]
  have hlast : ('[' :: (name ++ [']'])).getLast? = some ']' := by
    rw [← List.cons_append, List.getLast?_concat]
  rw [Reader.step_line r (List.cons_ne_nil _ _) (by simp; decide) (by simp)
    (by rw [hlast]; simp; decide), Reader.rest, hheader]

/-- A line that sets an option. -/
theorem Reader.step_option (r : Reader) {sectname key value : Text} (hsect : r.sectname = some sectname)
    (hne : key ≠ []) (hkey : ∀ c ∈ key, isSpace c = false ∧ c ≠ '=')
    (hhead : ∀ c ∈ key.head?, c ≠ '#' ∧ c ≠ ';' ∧ c ≠ '[') (hvalue : value ≠ [])
    (hfirst : ∀ c ∈ value.head?, isSpace c = false) (hlast : ∀ c ∈ value.getLast?, isSpace c = false) :
    r.step ((key ++ '=' :: value) ++ ['\n']) = .ok { r with
      sections := r.sections.setValue sectname key [value], optname := key, indentLevel := 0 } := by
  obtain ⟨c, cs, rfl⟩ := List.exists_cons_of_ne_nil hne
  obtain ⟨hhash, hsemicolon, hbracket⟩ := hhead c rfl
  have hpartition : partition '=' ((c :: cs) ++ '=' :: value) = (c :: cs, ['='], value) :=
    partition_append (fun h => (hkey _ h).2 rfl) value
  have hheader : header ((c :: cs) ++ '=' :: value) = none := by
    rw [List.cons_append, header]
    exact fun rest h => hbracket (List.cons.inj h).1
  have hrstrip : rstrip (c :: cs) = c :: cs := by
    rw [rstrip, List.rdropWhile_eq_self_iff]
    exact fun hne => by simp [(hkey _ (List.getLast_mem hne)).1]
  have hend : ∀ d ∈ ((c :: cs) ++ '=' :: value).getLast?, isSpace d = false := fun d hd => by
    rw [List.getLast?_append_of_ne_nil _ (List.cons_ne_nil _ _), List.getLast?_cons_of_ne_nil hvalue] at hd
    exact hlast d hd
  rw [Reader.step_line r (by simp) (by simpa using (hkey c List.mem_cons_self).1)
    (by simpa using ⟨hhash, hsemicolon⟩) hend, Reader.rest, hheader]
  simp only [hsect, hpartition, hrstrip, strip_eq_self hfirst hlast]
  simp

theorem Reader.steps_cons {r r' : Reader} {line : Text} (h : r.step line = .ok r') (lines : List Text) :
    r.steps (line :: lines) = r'.steps lines := by
  rw [Reader.steps, h]
  rfl

/-! ### The characters of values -/

section
variable {P : Char → Prop}

/-- All characters of all values have a property. -/
def Sections.All (P : Char → Prop) (s : Sections) : Prop :=
  ∀ section' option lines, s.value section' option = some lines → ∀ l ∈ lines, ∀ c ∈ l, P c

theorem Sections.All.setValue {s : Sections} (h : s.All P) {section' option : Text} {lines : List Text}
    (hlines : ∀ l ∈ lines, ∀ c ∈ l, P c) : (s.setValue section' option lines).All P := by
  intro section'' option' ls hls
  rw [Sections.value_setValue] at hls
  split at hls
  · cases hls
    exact hlines
  · exact h section'' option' ls hls

theorem Sections.All.openSection {s : Sections} (h : s.All P) (section' : Text) :
    (s.openSection section').All P := by
  intro section'' option ls hls
  rw [Sections.value_openSection] at hls
  exact h section'' option ls hls

variable {r r' : Reader} {line : Text}

theorem Reader.all_append (h : r.sections.All P) (sectname : Text) (hline : ∀ c ∈ line, P c) :
    (r.append sectname line).sections.All P := by
  refine Sections.All.setValue h fun l hl => ?_
  rcases List.mem_append.mp hl with hl | hl
  · cases hvalue : r.sections.value sectname r.optname with
    | none => rw [hvalue] at hl; exact absurd hl List.not_mem_nil
    | some lines => rw [hvalue] at hl; exact h _ _ _ hvalue l hl
  · rw [List.mem_singleton.mp hl]
    exact hline

theorem Reader.all_rest (h : r.sections.All P) (hline : ∀ c ∈ line, P c)
    (hr : r.rest line = .ok r') : r'.sections.All P := by
  rw [Reader.rest] at hr
  split at hr
  · cases hr
    exact h.openSection _
  · cases hr
  · split at hr
    · cases hr
      exact h
    · next key _ optval _ hpartition =>
      cases hr
      refine h.setValue fun l hl c hc => hline c ?_
      rw [List.mem_singleton.mp hl] at hc
      have hsub := (partition_subset '=' line).2
      rw [hpartition] at hsub
      exact hsub (mem_of_mem_strip hc)

theorem mem_of_mem_clean {c : Char} (h : c ∈ clean line) : c ∈ line := by
  rw [clean] at h
  split at h
  · exact absurd h List.not_mem_nil
  · exact mem_of_mem_strip h

/-- Values are made of characters of the lines. -/
theorem Reader.all_step (h : r.sections.All P) (hline : ∀ c ∈ line, P c)
    (hr : r.step line = .ok r') : r'.sections.All P := by
  have hclean : ∀ c ∈ clean line, P c := fun c hc => hline c (mem_of_mem_clean hc)
  rw [Reader.step] at hr
  split at hr
  · split at hr
    · cases hr
      split
      · exact h
      · exact r.all_append h _ fun c hc => absurd hc List.not_mem_nil
    · cases hr
      exact h
  · split at hr
    · split at hr
      · cases hr
        exact r.all_append h _ hclean
      · exact Reader.all_rest (by exact h) hclean hr
    · exact Reader.all_rest (by exact h) hclean hr

theorem Reader.all_steps : ∀ {lines : List Text} {r : Reader}, r.sections.All P →
    (∀ line ∈ lines, ∀ c ∈ line, P c) → r.steps lines = .ok r' → r'.sections.All P
  | [], r, h, _, hr => by
      cases hr
      exact h
  | line :: lines, r, h, hlines, hr => by
      rw [Reader.steps] at hr
      cases hstep : r.step line with
      | error e => rw [hstep] at hr; cases hr
      | ok r₁ =>
        rw [hstep] at hr
        exact all_steps (r.all_step h (hlines line List.mem_cons_self) hstep)
          (fun l hl => hlines l (List.mem_cons_of_mem line hl)) hr

theorem all_read {lines : List Text} {s : Sections} (h : ∀ line ∈ lines, ∀ c ∈ line, P c)
    (hs : read lines = .ok s) : s.All P := by
  have hempty : Reader.init.sections.All P := fun section' option ls hls => by cases hls
  rw [read] at hs
  cases hsteps : Reader.init.steps lines with
  | error e => rw [hsteps] at hs; cases hs
  | ok r =>
    rw [hsteps] at hs
    have hr := Reader.all_steps hempty h hsteps
    by_cases herrors : r.errors
    · simp [herrors, bind, Except.bind] at hs
    · simp [herrors, bind, Except.bind] at hs
      exact hs ▸ hr

/-- A newline may be in a value that goes over several lines. -/
theorem Sections.All.raw {s : Sections} (h : s.All P) (hnewline : P '\n') {section' option value : Text}
    (hvalue : s.raw section' option = some value) : ∀ c ∈ value, P c := by
  rw [Sections.raw, Option.map_eq_some_iff] at hvalue
  obtain ⟨lines, hlines, rfl⟩ := hvalue
  have hall : ∀ l ∈ lines, ∀ c ∈ l, P c := by
    rcases Option.or_eq_some_iff.mp hlines with hl | ⟨-, hl⟩
    · exact h _ _ _ hl
    · exact h _ _ _ hl
  intro c hc
  rcases mem_join (mem_of_mem_rstrip hc) with hc | ⟨l, hl, hc⟩
  · exact hc ▸ hnewline
  · exact hall l hl c hc

end

/-! ### What interpolation means -/

section
variable {find : Text → Option Text} {expand : Text → Except Error Text}

/-- A value is made of characters, escaped percent signs and references; each stands for itself, for
    a percent sign, and for the value referred to. -/
inductive Interpolates (find : Text → Option Text) (expand : Text → Except Error Text) :
    Text → Text → Prop
  | nil : Interpolates find expand [] []
  | char {c : Char} {cs r : Text} (hc : c ≠ '%') (h : Interpolates find expand cs r) :
      Interpolates find expand (c :: cs) (c :: r)
  | percent {cs r : Text} (h : Interpolates find expand cs r) :
      Interpolates find expand ('%' :: '%' :: cs) ('%' :: r)
  | reference {name value expanded cs r : Text} (hne : name ≠ []) (hname : ')' ∉ name)
      (hvalue : find name = some value)
      (hexpanded : (if '%' ∈ value then expand value else .ok value) = .ok expanded)
      (h : Interpolates find expand cs r) :
      Interpolates find expand ('%' :: '(' :: (name ++ ')' :: 's' :: cs)) (expanded ++ r)

/-- What a reader at a position has read of the part it is in. -/
def Position.begun : Position → Text
  | .text => []
  | .percent => ['%']
  | .name before => '%' :: '(' :: before
  | .closed key => '%' :: '(' :: (key ++ [')'])

def Position.Sound : Position → Prop
  | .text | .percent => True
  | .name before => ')' ∉ before
  | .closed key => key ≠ [] ∧ ')' ∉ key

theorem interpolates_of_eq_ok {pos : Position} {cs r : Text} (hpos : pos.Sound)
    (h : interpolateFrom find expand pos cs = .ok r) : Interpolates find expand (pos.begun ++ cs) r := by
  induction pos, cs using interpolateFrom.induct find generalizing r with
  | case1 =>
    cases h
    exact .nil
  | case2 cs ih =>
    rw [interpolateFrom, if_pos rfl] at h
    exact ih trivial h
  | case3 c cs hc ih =>
    rw [interpolateFrom, if_neg hc] at h
    obtain ⟨rest, hrest, ⟨⟩⟩ := bind_eq_ok.mp h
    exact .char hc (ih trivial hrest)
  | case5 cs ih =>
    rw [interpolateFrom, if_pos rfl] at h
    obtain ⟨rest, hrest, ⟨⟩⟩ := bind_eq_ok.mp h
    exact .percent (ih trivial hrest)
  | case6 cs _ ih =>
    rw [interpolateFrom, if_neg (by decide), if_pos rfl] at h
    exact ih List.not_mem_nil h
  | case10 before cs hne ih =>
    rw [interpolateFrom, if_pos rfl, if_neg hne] at h
    have hi := ih ⟨hne, hpos⟩ h
    simpa [Position.begun] using hi
  | case11 before c cs hc ih =>
    rw [interpolateFrom, if_neg hc] at h
    have hi := ih (by simpa [Position.Sound] using ⟨hpos, Ne.symm hc⟩) h
    simpa [Position.begun] using hi
  | case14 key cs value hvalue ih =>
    rw [interpolateFrom, if_pos rfl] at h
    simp only [hvalue] at h
    obtain ⟨expanded, hexpanded, h⟩ := bind_eq_ok.mp h
    obtain ⟨rest, hrest, ⟨⟩⟩ := bind_eq_ok.mp h
    have hi := Interpolates.reference hpos.1 hpos.2 hvalue hexpanded (ih trivial hrest)
    simpa [Position.begun] using hi
  | case13 key cs hnone =>
    rw [interpolateFrom, if_pos rfl] at h
    simp only [hnone] at h
    cases h
  | _ => simp_all [interpolateFrom]

theorem interpolateFrom_name (cs : Text) : ∀ {name before : Text}, ')' ∉ name → before ++ name ≠ [] →
    interpolateFrom find expand (.name before) (name ++ ')' :: cs) =
      interpolateFrom find expand (.closed (before ++ name)) cs
  | [], before, _, hne => by
      rw [List.append_nil] at hne ⊢
      rw [List.nil_append, interpolateFrom, if_pos rfl, if_neg hne]
  | c :: name, before, hname, _ => by
      have hc : c ≠ ')' := fun h => hname (h ▸ List.mem_cons_self)
      rw [List.cons_append, interpolateFrom, if_neg hc,
        interpolateFrom_name cs (fun h => hname (List.mem_cons_of_mem c h)) (by simp)]
      simp

/-- Interpolation computes what a value means. -/
theorem interpolates_iff {value r : Text} :
    interpolateFrom find expand .text value = .ok r ↔ Interpolates find expand value r := by
  constructor
  · exact interpolates_of_eq_ok trivial
  · intro h
    induction h with
    | nil => rfl
    | char hc h ih => rw [interpolateFrom, if_neg hc, ih]; rfl
    | percent h ih =>
      rw [interpolateFrom, if_pos rfl, interpolateFrom, if_pos rfl, ih]
      rfl
    | reference hne hname hvalue hexpanded h ih =>
      rw [interpolateFrom, if_pos rfl, interpolateFrom, if_neg (by decide), if_pos rfl,
        interpolateFrom_name _ hname (by simpa using hne), interpolateFrom, if_pos rfl]
      simp only [List.nil_append, hvalue, hexpanded, ih]
      rfl

theorem interpolates_self : ∀ {s : Text}, '%' ∉ s → Interpolates find expand s s
  | [], _ => .nil
  | c :: _, h => .char (fun hc => h (hc ▸ List.mem_cons_self))
      (interpolates_self fun hs => h (List.mem_cons_of_mem c hs))

variable {expand' : Text → Except Error Text} {s r : Text}

theorem Interpolates.mono (h : Interpolates find expand s r)
    (hexpand : ∀ name value e, find name = some value → expand value = .ok e → expand' value = .ok e) :
    Interpolates find expand' s r := by
  induction h with
  | nil => exact .nil
  | char hc _ ih => exact .char hc ih
  | percent _ ih => exact .percent ih
  | reference hne hname hvalue hexpanded _ ih =>
    refine .reference hne hname hvalue ?_ ih
    split
    · next hpercent => rw [if_pos hpercent] at hexpanded; exact hexpand _ _ _ hvalue hexpanded
    · next hpercent => rw [if_neg hpercent] at hexpanded; exact hexpanded

/-- Without references, every escape makes a value shorter. -/
theorem Interpolates.length_lt {e : Error} (h : Interpolates find (fun _ => .error e) s r)
    (hfind : ∀ name value, find name = some value → '%' ∈ value) :
    r.length ≤ s.length ∧ ('%' ∈ s → r.length < s.length) := by
  induction h with
  | nil => exact ⟨le_rfl, fun h => absurd h List.not_mem_nil⟩
  | char hc _ ih =>
    refine ⟨Nat.succ_le_succ ih.1, fun h => Nat.succ_lt_succ (ih.2 ?_)⟩
    exact (List.mem_cons.mp h).resolve_left (Ne.symm hc)
  | percent _ ih =>
    simp only [List.length_cons]
    omega
  | reference _ _ hvalue hexpanded _ _ =>
    rw [if_pos (hfind _ _ hvalue)] at hexpanded
    cases hexpanded

/-- A value that could only refer to itself refers to nothing if it can be interpolated. -/
theorem interpolates_of_interpolate {e : Error} (hfind : ∀ name value, find name = some value → value = s)
    (hs : '%' ∈ s) : ∀ {depth : ℕ} {r : Text}, interpolate find depth s = .ok r →
      Interpolates find (fun _ => .error e) s r
  | 0, _, h => nomatch h
  | depth + 1, r, h => by
      have hi := interpolates_iff.mp h
      cases hdeeper : interpolate find depth s with
      | error e' =>
        refine hi.mono fun name value v hvalue hv => ?_
        rw [hfind name value hvalue, hdeeper] at hv
        cases hv
      | ok r' =>
        have hplain := interpolates_of_interpolate (e := e) hfind hs hdeeper
        have hr : Interpolates find (interpolate find depth) s r' := hplain.mono fun _ _ _ _ hv => nomatch hv
        have heq := (interpolates_iff.mpr hi).symm.trans (interpolates_iff.mpr hr)
        cases heq
        exact hplain

/-- A value that could only refer to itself is its own interpolation if it has no percent sign. -/
theorem interpolate_eq_self_iff (hfind : ∀ name value, find name = some value → value = s) (depth : ℕ) :
    interpolate find (depth + 1) s = .ok s ↔ '%' ∉ s := by
  constructor
  · intro h hs
    have hplain := interpolates_of_interpolate (e := .interpolationDepth) hfind hs h
    have hlt := (hplain.length_lt fun name value hvalue => hfind name value hvalue ▸ hs).2 hs
    omega
  · exact fun hs => interpolates_iff.mpr (interpolates_self hs)

/-- Interpolation takes all it puts in from values. -/
theorem Interpolates.all {P : Char → Prop} (h : Interpolates find expand s r)
    (hfind : ∀ name value, find name = some value → ∀ c ∈ value, P c)
    (hexpand : ∀ name value e, find name = some value → expand value = .ok e → ∀ c ∈ e, P c)
    (hs : ∀ c ∈ s, P c) : ∀ c ∈ r, P c := by
  induction h with
  | nil => exact hs
  | char _ _ ih =>
    rw [List.forall_mem_cons] at hs ⊢
    exact ⟨hs.1, ih hs.2⟩
  | percent _ ih =>
    rw [List.forall_mem_cons, List.forall_mem_cons] at hs
    rw [List.forall_mem_cons]
    exact ⟨hs.1, ih hs.2.2⟩
  | @reference name value expanded cs r _ _ hvalue hexpanded _ ih =>
    intro c hc
    rcases List.mem_append.mp hc with hc | hc
    · split at hexpanded
      · exact hexpand name value expanded hvalue hexpanded c hc
      · cases hexpanded
        exact hfind name _ hvalue c hc
    · exact ih (fun d hd => hs d (by simp [hd])) c hc

theorem all_interpolate {P : Char → Prop} (hfind : ∀ name value, find name = some value → ∀ c ∈ value, P c) :
    ∀ {depth : ℕ} {s r : Text}, (∀ c ∈ s, P c) → interpolate find depth s = .ok r → ∀ c ∈ r, P c
  | 0, _, _, _, h => nomatch h
  | _ + 1, _, _, hs, h =>
      (interpolates_iff.mp h).all hfind
        (fun name value _ hvalue hv => all_interpolate hfind (hfind name value hvalue) hv) hs

theorem Sections.All.get? {P : Char → Prop} {s : Sections} (h : s.All P) (hnewline : P '\n')
    {section' option value : Text} (hvalue : s.get? section' option = .ok (some value)) :
    ∀ c ∈ value, P c := by
  rw [Sections.get?] at hvalue
  split at hvalue
  · cases hvalue
  · next stored hstored =>
    obtain ⟨r, hr, hv⟩ := bind_eq_ok.mp hvalue
    cases hv
    exact all_interpolate (fun name v hv => h.raw hnewline hv) (h.raw hnewline hstored) hr

end

end Py.ConfigParser
