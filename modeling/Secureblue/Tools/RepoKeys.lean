import Secureblue.Py.Text

/-! Which keys a repository file trusts (`repo_uses_gpg_key` of `check_repo_keys.py`).

    The check compares the lines that start with `gpgkey`. A reader of repository files goes on with the
    value on the indented lines below, and finds no key at all in a file without such a line. -/

namespace Tools.RepoKeys
open Py

/-! ### The check -/

def gpgkey : Text := "gpgkey"

def fileScheme : Text := "file://"

/-- Where the vendored key is installed. -/
def liveKeyPath (keyPath : Text) : Text :=
  removePrefix (removePrefix (removePrefix keyPath "files/system") "/desktop") "/nvidia"

inductive Raised where | indexError
  deriving DecidableEq

/-- `line.split("=", maxsplit=1)[1].strip().removeprefix("file://")` -/
def repoKeyPath (line : Text) : Except Raised Text :=
  match partition '=' line with
  | (_, [], _) => .error .indexError
  | (_, _, value) => .ok (removePrefix (strip value) fileScheme)

/-- The lines from here on. -/
def usesFrom (livePath : Text) : List Text → Except Raised Bool
  | [] => .ok true
  | line :: lines =>
    if !startsWith line gpgkey then usesFrom livePath lines
    else match repoKeyPath line with
      | .error e => .error e
      | .ok keyPath => if keyPath ≠ livePath then .ok false else usesFrom livePath lines

/-- `repo_uses_gpg_key`, from the contents of the repository file. -/
def repoUsesGpgKey (content keyPath : Text) : Except Raised Bool :=
  usesFrom (liveKeyPath keyPath) (fileLines content)

/-! ### What a repository file configures -/

/-- A line of a repository file: an option with its value, more of the value above, or anything else (a
    comment, a section, a blank line). -/
inductive Line where
  | option (key value : Text)
  | more (value : Text)
  | other

def classify (line : Text) : Line :=
  if strip line = [] then .other
  else if line.head?.any fun c => c = '#' || c = ';' || c = '[' then .other
  else if line.head?.any isSpace then .more line
  else match partition '=' line with
    | (_, [], _) => .other
    | (key, _, value) => .option (rstrip key) value

/-- The items of a value, with blanks or commas between them. -/
def items (value : Text) : List Text := (words value).flatMap fun w => (w.splitOn ',').filter (· ≠ [])

def location (item : Text) : Text := removePrefix item fileScheme

/-- The values of the option `gpgkey` from here on, line by line, and whether they continue one; the flag is
    whether the line above belongs to such a value. -/
def keyValues : Bool → List Text → List (Bool × Text)
  | _, [] => []
  | inKey, line :: lines =>
    match classify line with
    | .option key value => (if key = gpgkey then [(false, value)] else []) ++ keyValues (key = gpgkey) lines
    | .more value => (if inKey then [(true, value)] else []) ++ keyValues inKey lines
    | .other => keyValues false lines

def locations (values : List (Bool × Text)) : List Text := values.flatMap fun v => (items v.2).map location

/-- The key locations that a file configures, in whatever section. -/
def keyLocations (content : Text) : List Text := locations (keyValues false (fileLines content))

/-- Those of them on continuation lines. -/
def continuedLocations (content : Text) : List Text :=
  locations ((keyValues false (fileLines content)).filter fun v => v.1)

/-- The path of a vendored key, installed at a path without blanks and commas. -/
structure VendoredKey where
  path : Text
  ne_nil : liveKeyPath path ≠ []
  plain : ∀ c ∈ liveKeyPath path, isSpace c = false ∧ c ≠ ','

/-- The file configures a key, and no other than the vendored one. -/
structure OnlyVendored (content : Text) (key : VendoredKey) : Prop where
  some : keyLocations content ≠ []
  only : ∀ path ∈ keyLocations content, path = liveKeyPath key.path

/-- A line that starts with `gpgkey` names something else. -/
def Refused (content : Text) (key : VendoredKey) : Prop :=
  ∃ line ∈ fileLines content, startsWith line gpgkey ∧ repoKeyPath line ≠ .ok (liveKeyPath key.path)

/-- There is a line for the option `gpgkey`. -/
def HasKey (content : Text) : Prop := ∃ line ∈ fileLines content, ∃ value, classify line = .option gpgkey value

section
variable {line value livePath content : Text} {lines : List Text} {key : VendoredKey}

/-! ### The check goes through the lines -/

theorem usesFrom_iff : usesFrom livePath lines = .ok true ↔
    ∀ line ∈ lines, startsWith line gpgkey → repoKeyPath line = .ok livePath := by
  induction lines with
  | nil => simp [usesFrom]
  | cons line lines ih =>
    rw [usesFrom, List.forall_mem_cons, ← ih]
    cases hstart : startsWith line gpgkey with
    | false => simp
    | true =>
      cases hpath : repoKeyPath line with
      | error e => simp
      | ok keyPath =>
        by_cases heq : keyPath = livePath
        · simp [heq]
        · simp [heq]

theorem uses_iff_not_refused : repoUsesGpgKey content key.path = .ok true ↔ ¬Refused content key := by
  rw [repoUsesGpgKey, usesFrom_iff, Refused]
  push Not
  rfl

/-! ### The values -/

theorem mem_keyValues {inKey : Bool} : (false, value) ∈ keyValues inKey lines ↔
    ∃ line ∈ lines, classify line = .option gpgkey value := by
  induction lines generalizing inKey with
  | nil => simp [keyValues]
  | cons line lines ih =>
    rw [keyValues]
    cases hline : classify line with
    | option key v =>
      by_cases hkey : key = gpgkey
      · simp [hkey, hline, ih, eq_comm]
      · simp [hkey, hline, ih]
    | more v => cases inKey <;> simp [hline, ih]
    | other => simp [hline, ih]

/-- Without the option, no line continues it. -/
theorem keyValues_eq_nil (h : ∀ line ∈ lines, ∀ value, classify line ≠ .option gpgkey value) :
    keyValues false lines = [] := by
  induction lines with
  | nil => rfl
  | cons line lines ih =>
    obtain ⟨hline, hlines⟩ := List.forall_mem_cons.mp h
    rw [keyValues]
    cases hclass : classify line with
    | option key v =>
      have hkey : key ≠ gpgkey := fun hkey => hline v (by rw [hclass, hkey])
      simp [hkey, ih hlines]
    | more v => simp [ih hlines]
    | other => exact ih hlines

theorem partition_prefix (sep : Char) (s : Text) : (partition sep s).1 <+: s := by
  rw [partition]
  split
  · exact List.prefix_refl s
  · exact List.takeWhile_prefix _

/-- The check reads the value of such a line. -/
theorem startsWith_of_classify (h : classify line = .option gpgkey value) :
    startsWith line gpgkey ∧ repoKeyPath line = .ok (removePrefix (strip value) fileScheme) := by
  rw [classify] at h
  split at h
  · cases h
  · split at h
    · cases h
    · split at h
      · cases h
      · have hprefix := partition_prefix '=' line
        rcases hpart : partition '=' line with ⟨k, sep, v⟩
        rw [hpart] at h hprefix
        rw [repoKeyPath, hpart]
        cases sep with
        | nil => cases h
        | cons c sep =>
          obtain ⟨hkey, rfl⟩ := Line.option.inj h
          refine ⟨startsWith_iff.mpr (List.IsPrefix.trans ?_ hprefix), rfl⟩
          rw [← hkey]
          exact List.rdropWhile_prefix isSpace k

/-- The vendored path behind `gpgkey =` is a single location. -/
theorem items_of_plain (h : removePrefix (strip value) fileScheme = liveKeyPath key.path) :
    (items value).map location = [liveKeyPath key.path] := by
  have hscheme : ∀ c ∈ fileScheme, isSpace c = false ∧ c ≠ ',' := by decide
  have hvalue : strip value ≠ [] ∧ ∀ c ∈ strip value, isSpace c = false ∧ c ≠ ',' := by
    rw [removePrefix] at h
    split at h
    · next hstart =>
      obtain ⟨rest, hrest⟩ := startsWith_iff.mp hstart
      rw [← hrest, List.drop_left] at h
      rw [← hrest, h]
      refine ⟨fun hnil => key.ne_nil (List.append_eq_nil_iff.mp hnil).2, fun c hc => ?_⟩
      exact (List.mem_append.mp hc).elim (hscheme c) (key.plain c)
    · rw [h]
      exact ⟨key.ne_nil, key.plain⟩
  have hwords : words value = [strip value] := by
    rw [← words_strip, words_singleton (fun c hc => (hvalue.2 c hc).1) hvalue.1]
  have hcomma : ',' ∉ strip value := fun hc => (hvalue.2 ',' hc).2 rfl
  rw [items, hwords, List.flatMap_singleton, List.splitOn_eq_singleton hcomma,
    List.filter_cons_of_pos (by simpa using hvalue.1), List.filter_nil, List.map_singleton, location, h]

/-! ### What is accepted -/

theorem mem_locations {values : List (Bool × Text)} {path : Text} :
    path ∈ locations values ↔ ∃ v ∈ values, path ∈ (items v.2).map location := List.mem_flatMap

/-- If no line is refused, the option names the vendored key and the rest is on continuation lines. -/
theorem onlyVendored_iff (h : ¬Refused content key) : OnlyVendored content key ↔
    HasKey content ∧ ∀ path ∈ continuedLocations content, path = liveKeyPath key.path := by
  have hown : ∀ value, (false, value) ∈ keyValues false (fileLines content) →
      (items value).map location = [liveKeyPath key.path] := by
    intro value hmem
    obtain ⟨line, hline, hclass⟩ := mem_keyValues.mp hmem
    obtain ⟨hstart, hpath⟩ := startsWith_of_classify hclass
    refine items_of_plain ?_
    by_contra hne
    exact h ⟨line, hline, hstart, fun heq => hne (Except.ok.inj (hpath.symm.trans heq))⟩
  constructor
  · rintro ⟨hsome, honly⟩
    constructor
    · by_contra hnone
      refine hsome ?_
      rw [keyLocations, keyValues_eq_nil fun line hline value hclass => hnone ⟨line, hline, value, hclass⟩]
      rfl
    · intro path hpath
      obtain ⟨v, hv, hmem⟩ := mem_locations.mp hpath
      exact honly path (mem_locations.mpr ⟨v, List.mem_of_mem_filter hv, hmem⟩)
  · rintro ⟨⟨line, hline, value, hclass⟩, hmore⟩
    have hvalue : (false, value) ∈ keyValues false (fileLines content) := mem_keyValues.mpr ⟨line, hline, hclass⟩
    constructor
    · refine List.ne_nil_of_mem (a := liveKeyPath key.path) (mem_locations.mpr ⟨_, hvalue, ?_⟩)
      rw [hown value hvalue]
      exact List.mem_singleton_self _
    · intro path hpath
      obtain ⟨⟨continued, v⟩, hv, hmem⟩ := mem_locations.mp hpath
      cases continued with
      | false =>
        rw [hown v hv] at hmem
        exact List.mem_singleton.mp hmem
      | true => exact hmore path (mem_locations.mpr ⟨_, List.mem_filter.mpr ⟨hv, rfl⟩, hmem⟩)

end

/-- CORRECT: the check accepts only files with no other key than the vendored one exactly if a line is
    refused, or the option is there and no continuation line names another location. -/
theorem accepts_only_iff (content : Text) (key : VendoredKey) :
    (repoUsesGpgKey content key.path = .ok true → OnlyVendored content key) ↔
      Refused content key ∨
        HasKey content ∧ ∀ path ∈ continuedLocations content, path = liveKeyPath key.path := by
  rw [uses_iff_not_refused]
  by_cases h : Refused content key
  · simp [h]
  · simp [h, onlyVendored_iff h]

def copr : VendoredKey := ⟨"files/system/usr/copr.gpg", by decide +kernel, by decide +kernel⟩

/-- A file without the option. -/
def noKey : Text := "[copr]\nenabled=1\n"

/-- A file with another key on the line below. -/
def extraKey : Text := "[copr]\ngpgkey=file:///usr/copr.gpg\n file:///tmp/x\n"

/-- Both are accepted. -/
theorem not_accepts_only : ¬(repoUsesGpgKey noKey copr.path = .ok true → OnlyVendored noKey copr) ∧
    ¬(repoUsesGpgKey extraKey copr.path = .ok true → OnlyVendored extraKey copr) := by
  have hnone : repoUsesGpgKey noKey copr.path = .ok true ∧ keyLocations noKey = [] := by decide +kernel
  have hextra : repoUsesGpgKey extraKey copr.path = .ok true ∧
      ∃ path ∈ keyLocations extraKey, path ≠ liveKeyPath copr.path := by decide +kernel
  constructor
  · exact fun h => (h hnone.1).some hnone.2
  · intro h
    obtain ⟨huses, path, hpath, hne⟩ := hextra
    exact hne ((h huses).only path hpath)

end Tools.RepoKeys
