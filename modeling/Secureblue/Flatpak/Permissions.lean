import Secureblue.Py.Dict
import Secureblue.Py.Text

/-! Reading the permissions of an app (`parse_flatpak_permissions` in `audit_flatpak/__init__.py`).

    The key file is read into sections, a repeated header emptying its section in place. Three
    sections are read by name; all the others are merged, in the order of their first headers, into
    one map of permission lists (`get_readSections`). -/

namespace Flatpak
open Py

/-! ### The code -/

/-- Object representing permissions for a flatpak app. -/
structure Permissions where
  permissions : Dict Text (List Text) := ∅
  environment : Dict Text Text := ∅
  sessionBusTalk : List Text := []
  sessionBusOwn : List Text := []
  systemBusTalk : List Text := []
  systemBusOwn : List Text := []
  deriving DecidableEq

abbrev ConfigSections := Dict Text (Dict Text Text)

/-- The loop body of `_parse_config_sections`, on `current_section` and `sections`. -/
def parseLine (st : Option Text × ConfigSections) (rawLine : Text) :
    Except Exn (Option Text × ConfigSections) :=
  let line := strip rawLine
  if line = [] ∨ startsWith line ['#'] then .ok st
  else if startsWith line ['['] ∧ endsWith line [']'] then
    let name := (line.drop 1).dropLast
    .ok (some name, st.2.set name ∅)
  else
    match partition '=' line with
    | (_, [], _) => .error (.valueError "not enough values to unpack (expected 2, got 1)")
    | (key, _, value) =>
      match st.1 with
      | none => .error .keyError
      | some name =>
        match st.2.get name with
        | none => .error .keyError
        | some lines => .ok (some name, st.2.set name (lines.set key value))

/-- `_parse_config_sections` -/
def parseConfigSections (confText : Text) : Except Exn ConfigSections :=
  ((splitlines confText).foldlM parseLine (none, ∅)).map Prod.snd

def sessionBusPolicy : Text := "Session Bus Policy"
def systemBusPolicy : Text := "System Bus Policy"
def environmentSection : Text := "Environment"

/-- `[key for key, value in lines.items() if value == v]` -/
def keysOf (lines : Dict Text Text) (v : Text) : List Text :=
  (lines.items.filter fun e => e.2 = v).map Prod.fst

/-- `[val for val in value.split(";") if val]` -/
def listItems (value : Text) : List Text := (value.splitOn ';').filter (· ≠ [])

/-- The `match` in `parse_flatpak_permissions`. -/
def readSection (perms : Permissions) (e : Text × Dict Text Text) : Permissions :=
  if e.1 = sessionBusPolicy then
    { perms with sessionBusTalk := keysOf e.2 "talk", sessionBusOwn := keysOf e.2 "own" }
  else if e.1 = systemBusPolicy then
    { perms with systemBusTalk := keysOf e.2 "talk", systemBusOwn := keysOf e.2 "own" }
  else if e.1 = environmentSection then { perms with environment := e.2 }
  else { perms with
    permissions := perms.permissions.update (e.2.items.map fun l => (l.1, listItems l.2)) }

def readSections (sections : ConfigSections) : Permissions := sections.items.foldl readSection {}

/-- `parse_flatpak_permissions` -/
def parseFlatpakPermissions (permsText : Text) : Except Exn Permissions :=
  (parseConfigSections permsText).map readSections

/-! ### The sections read by name -/

/-- What a policy says of a bus name. -/
inductive Access where | talk | own
  deriving DecidableEq

def Access.text : Access → Text
  | talk => "talk"
  | own => "own"

inductive Bus where | session | system

def Bus.policy : Bus → Text
  | session => sessionBusPolicy
  | system => systemBusPolicy

/-- The names on a bus to which there is a right. -/
def Permissions.names (perms : Permissions) : Bus → Access → List Text
  | .session, .talk => perms.sessionBusTalk
  | .session, .own => perms.sessionBusOwn
  | .system, .talk => perms.systemBusTalk
  | .system, .own => perms.systemBusOwn

/-- A section that is merged into the permission lists. -/
def Merged (name : Text) : Prop :=
  name ≠ sessionBusPolicy ∧ name ≠ systemBusPolicy ∧ name ≠ environmentSection

instance : DecidablePred Merged := fun _ => inferInstanceAs (Decidable (_ ∧ _ ∧ _))

/-- A field that only the section of one name sets. -/
theorem foldl_readSection_field {γ : Type} (field : Permissions → γ) (name : Text)
    (f : Dict Text Text → γ)
    (hfield : ∀ perms e, field (readSection perms e) = if name = e.1 then f e.2 else field perms) :
    ∀ (l : List (Text × Dict Text Text)) (perms : Permissions),
      field (l.foldl readSection perms) = ((lastWins l name).map f).getD (field perms)
  | [], _ => rfl
  | e :: l, perms => by
      rw [List.foldl_cons, foldl_readSection_field field name f hfield l, hfield, lastWins_cons]
      cases lastWins l name with
      | some lines => rfl
      | none => split <;> rfl

theorem readSections_field {γ : Type} (field : Permissions → γ) (name : Text)
    (f : Dict Text Text → γ)
    (hfield : ∀ perms e, field (readSection perms e) = if name = e.1 then f e.2 else field perms)
    (sections : ConfigSections) :
    field (readSections sections) = ((sections.get name).map f).getD (field {}) := by
  rw [readSections, foldl_readSection_field field name f hfield, Dict.lastWins_items]

/-- The names on a bus are those to which its section gives the right. -/
theorem names_readSections (bus : Bus) (access : Access) (sections : ConfigSections) :
    (readSections sections).names bus access
      = ((sections.get bus.policy).map fun lines => keysOf lines access.text).getD [] := by
  have hne : sessionBusPolicy ≠ systemBusPolicy := by decide
  have hfield : ∀ perms e, (readSection perms e).names bus access =
      if bus.policy = e.1 then keysOf e.2 access.text else perms.names bus access := by
    intro perms e
    cases bus with
    | session =>
      by_cases h : e.1 = sessionBusPolicy
      · rw [readSection, if_pos h, Bus.policy, if_pos h.symm]
        cases access <;> rfl
      · rw [readSection, if_neg h, Bus.policy, if_neg (Ne.symm h)]
        split_ifs <;> cases access <;> rfl
    | system =>
      by_cases h : e.1 = systemBusPolicy
      · rw [readSection, if_neg (h ▸ hne.symm), if_pos h, Bus.policy, if_pos h.symm]
        cases access <;> rfl
      · rw [readSection, Bus.policy, if_neg (Ne.symm h), if_neg h]
        split_ifs <;> cases access <;> rfl
  have hnames := readSections_field (Permissions.names · bus access) bus.policy (keysOf · access.text) hfield sections
  have hnone : ({} : Permissions).names bus access = [] := by cases bus <;> cases access <;> rfl
  rwa [hnone] at hnames

theorem environment_readSections (sections : ConfigSections) :
    (readSections sections).environment = (sections.get environmentSection).getD ∅ := by
  have h := readSections_field Permissions.environment environmentSection id (fun perms e => ?_) sections
  · rwa [Option.map_id] at h
  have hne : sessionBusPolicy ≠ environmentSection := by decide
  have hne' : systemBusPolicy ≠ environmentSection := by decide
  simp only [readSection, eq_comm (a := environmentSection)]
  split_ifs <;> simp_all

/-! ### The merged lists -/

/-- The list that a body gives to a category. -/
def listIn (category : Text) (lines : Dict Text Text) : Option (List Text) :=
  (lines.get category).map listItems

/-- The last merged section that mentions a category decides its list. -/
def lastListIn (category : Text) (l : List (Text × Dict Text Text)) : Option (List Text) :=
  l.reverse.findSome? fun e => if Merged e.1 then listIn category e.2 else none

theorem lastListIn_append (category : Text) (l m : List (Text × Dict Text Text)) :
    lastListIn category (l ++ m) = (lastListIn category m).or (lastListIn category l) := by
  rw [lastListIn, List.reverse_append, List.findSome?_append]; rfl

theorem lastListIn_cons (category : Text) (e : Text × Dict Text Text)
    (l : List (Text × Dict Text Text)) : lastListIn category (e :: l)
      = (lastListIn category l).or (if Merged e.1 then listIn category e.2 else none) := by
  rw [← List.singleton_append, lastListIn_append]
  simp [lastListIn]

theorem get_foldl_readSection (category : Text) : ∀ (l : List (Text × Dict Text Text))
    (perms : Permissions), (l.foldl readSection perms).permissions.get category
      = (lastListIn category l).or (perms.permissions.get category)
  | [], _ => rfl
  | e :: l, perms => by
      have hstep : (readSection perms e).permissions.get category
          = (if Merged e.1 then listIn category e.2 else none).or (perms.permissions.get category) := by
        unfold readSection Merged
        split_ifs <;> simp_all [Dict.get_update, lastWins_map, Dict.lastWins_items, listIn]
      rw [List.foldl_cons, get_foldl_readSection category l, hstep, lastListIn_cons, Option.or_assoc]

/-- The permission list of a category. -/
theorem get_readSections (sections : ConfigSections) (category : Text) :
    (readSections sections).permissions.get category = lastListIn category sections.items := by
  rw [readSections, get_foldl_readSection]
  exact Option.or_none

/-! ### Well-formed sections -/

/-- A line below a header: blank, a comment, or an entry. -/
def BodyLine (line : Text) : Prop :=
  strip line = [] ∨ startsWith (strip line) ['#'] ∨
    (¬ (startsWith (strip line) ['['] ∧ endsWith (strip line) [']']) ∧ '=' ∈ strip line)

instance (line : Text) : Decidable (BodyLine line) := inferInstanceAs (Decidable (_ ∨ _ ∨ _ ∧ _))

/-- A section: a header and the lines below it. -/
structure Section where
  name : Text
  lines : List Text
  lines_ok : ∀ line ∈ lines, BodyLine line

namespace Section

def header (s : Section) : Text := ['['] ++ s.name ++ [']']

/-- The lines of the section, with its header. -/
def textLines (s : Section) : List Text := s.header :: s.lines

/-- The entry of a line. -/
def entryOf (line : Text) : Option (Text × Text) :=
  if strip line = [] ∨ startsWith (strip line) ['#'] then none
  else let (key, _, value) := partition '=' (strip line); some (key, value)

/-- The map of the entries. -/
def body (s : Section) : Dict Text Text := Dict.ofList (s.lines.filterMap entryOf)

end Section

/-- The lines of the text are those of the sections. -/
def IsTextOf (text : Text) (ss : List Section) : Prop := splitlines text = ss.flatMap Section.textLines

instance (text : Text) (ss : List Section) : Decidable (IsTextOf text ss) :=
  inferInstanceAs (Decidable (_ = _))

/-- The text of a list of sections, each line closed by a newline. -/
def renderSections (ss : List Section) : Text :=
  (ss.flatMap Section.textLines).flatMap fun line => line ++ ['\n']

theorem isTextOf_render {ss : List Section}
    (h : ∀ line ∈ ss.flatMap Section.textLines, ∀ c ∈ line, isLineBreak c = false) :
    IsTextOf (renderSections ss) ss := by
  have hlines := splitlines_lines h []
  rw [List.append_nil] at hlines
  exact hlines.trans (List.append_nil _)

/-- One pass over a line of a section, on the section as it is so far. -/
theorem parseLine_bodyLine {line : Text} (h : BodyLine line) (name : Text) (base : ConfigSections)
    (lines : Dict Text Text) : parseLine (some name, base.set name lines) line
      = .ok (some name, base.set name (lines.update (Section.entryOf line).toList)) := by
  unfold parseLine Section.entryOf
  rcases em (strip line = [] ∨ startsWith (strip line) ['#'] = true) with hskip | hskip
  · simp only [if_pos hskip]
    rfl
  · obtain ⟨hheader, heq⟩ := (h.resolve_left fun hn => hskip (.inl hn)).resolve_left
      fun hc => hskip (.inr hc)
    obtain ⟨key, value, hline, hkey⟩ := List.eq_append_cons_of_mem heq
    rw [hline] at hskip hheader ⊢
    simp only [if_neg hskip, if_neg hheader, partition_append hkey, Dict.get_set, if_true,
      Dict.set_set]
    rfl

theorem foldlM_bodyLines (name : Text) (base : ConfigSections) : ∀ {ls : List Text},
    (∀ line ∈ ls, BodyLine line) → ∀ lines : Dict Text Text,
    ls.foldlM parseLine (some name, base.set name lines)
      = .ok (some name, base.set name (lines.update (ls.filterMap Section.entryOf)))
  | [], _, _ => rfl
  | line :: ls, h, lines => by
      have ih := foldlM_bodyLines name base (fun l hl => h l (List.mem_cons_of_mem _ hl))
        (lines.update (Section.entryOf line).toList)
      rw [List.foldlM_cons, parseLine_bodyLine (h line List.mem_cons_self)]
      refine ih.trans ?_
      rw [← Dict.update_append, List.filterMap_cons]
      cases Section.entryOf line <;> rfl

/-- A section is read into its map, in place of an earlier one of its name. -/
theorem foldlM_section (s : Section) (st : Option Text × ConfigSections) :
    s.textLines.foldlM parseLine st = .ok (some s.name, st.2.set s.name s.body) := by
  have hstrip : strip s.header = s.header := by
    refine strip_eq_self ?_ ?_
    · rintro c ⟨rfl⟩
      decide
    · rw [Section.header, List.getLast?_concat]
      rintro c ⟨rfl⟩
      decide
  have hopen : startsWith s.header ['['] = true := by
    rw [Section.header, List.append_assoc]
    exact startsWith_append ['['] _
  have hclose : endsWith s.header [']'] = true := endsWith_iff.mpr (List.suffix_append ..)
  have hskip : ¬ (s.header = [] ∨ startsWith s.header ['#'] = true) := by
    rintro (h | h) <;> exact absurd h (by simp [Section.header, startsWith])
  have hname : (s.header.drop 1).dropLast = s.name := by
    rw [Section.header, List.append_assoc]
    exact List.dropLast_concat
  have hheader : parseLine st s.header = .ok (some s.name, st.2.set s.name ∅) := by
    simp only [parseLine, hstrip, if_neg hskip, hopen, hclose, and_self, if_true, hname]
  rw [Section.textLines, List.foldlM_cons, hheader]
  exact foldlM_bodyLines s.name st.2 s.lines_ok ∅

theorem foldlM_sections : ∀ (ss : List Section) (st : Option Text × ConfigSections),
    ∃ current, (ss.flatMap Section.textLines).foldlM parseLine st
      = .ok (current, st.2.update (ss.map fun s => (s.name, s.body)))
  | [], st => ⟨st.1, rfl⟩
  | s :: ss, st => by
      obtain ⟨current, ih⟩ := foldlM_sections ss (some s.name, st.2.set s.name s.body)
      refine ⟨current, ?_⟩
      rw [List.flatMap_cons, List.foldlM_append, foldlM_section]
      exact ih

/-- The parser reads the sections: the last of a name, in the order of first headers. -/
theorem parseConfigSections_eq {text : Text} {ss : List Section} (h : IsTextOf text ss) :
    parseConfigSections text = .ok (Dict.ofList (ss.map fun s => (s.name, s.body))) := by
  obtain ⟨current, hrun⟩ := foldlM_sections ss (none, ∅)
  rw [parseConfigSections, h, hrun]
  rfl

/-- And so the permissions of its sections. -/
theorem parseFlatpakPermissions_eq {text : Text} {ss : List Section} (h : IsTextOf text ss) :
    parseFlatpakPermissions text
      = .ok (readSections (Dict.ofList (ss.map fun s => (s.name, s.body)))) := by
  rw [parseFlatpakPermissions, parseConfigSections_eq h]
  rfl

end Flatpak
