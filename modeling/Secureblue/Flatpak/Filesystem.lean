import Secureblue.Flatpak.Harden
import Secureblue.Flatpak.Monotone
import Secureblue.PrefixTable

/-! What the audit makes of the filesystem permissions of an app (`audit_flatpak/filesystem.py`).

    Each entry of the list is brought to a canonical path by the table of aliases, and of the entries
    with one path the last counts. The dangerous directories do not depend on which entry that is, so
    each is reported exactly when some entry names it (`checkDangerousDirs_eq`). Write access to the
    overrides does depend on it, so that a read-only entry hides a writable one before it
    (`flagged_iff`). The table is applied to texts, not to path components, so that a directory whose
    name goes on after an alias gets the path of another (`canonPath_iff`). -/

namespace Flatpak
open Py Auditor PrefixTable

/-! ### Entries -/

/-- The suffixes for the mode of access. -/
def modeSuffixes : List Text := [":ro", ":rw", ":create"]

/-- An entry without its mode. -/
def withoutMode (entry : Text) : Text :=
  match modeSuffixes.find? (endsWith entry) with
  | some mode => removeSuffix entry mode
  | none => entry

/-- The path that an entry is about: without a mode and trailing slashes. -/
def entryPath (entry : Text) : Text := (withoutMode entry).rdropWhile (· = '/')

/-- `!` before an entry takes a permission back. -/
def Negated (entry : Text) : Prop := ("!" : Text) <+: entry

/-- The entry is for reading only. -/
def ReadOnly (entry : Text) : Prop := (":ro" : Text) <:+ entry

instance decidableNegated (entry : Text) : Decidable (Negated entry) := inferInstanceAs (Decidable (_ <+: _))

instance decidableReadOnly (entry : Text) : Decidable (ReadOnly entry) := inferInstanceAs (Decidable (_ <:+ _))

/-- The rest of a path behind a whole component. -/
def IsRest (rest : Text) : Prop := ∀ c ∈ rest.head?, c = '/'

instance decidableIsRest (rest : Text) : Decidable (IsRest rest) :=
  inferInstanceAs (Decidable (∀ c ∈ rest.head?, c = '/'))

/-- A path under an alias, and the same path under the name for it. -/
def AliasOf (a b : Text) : Prop := ∃ e ∈ aliases, ∃ rest, IsRest rest ∧ a = e.2 ++ rest ∧ b = e.1 ++ rest

theorem aliasOf_iff {a b : Text} : AliasOf a b ↔
    ∃ e ∈ aliases, e.2 <+: a ∧ IsRest (a.drop e.2.length) ∧ b = e.1 ++ a.drop e.2.length := by
  constructor
  · rintro ⟨e, he, rest, hrest, rfl, rfl⟩
    have hdrop : (e.2 ++ rest).drop e.2.length = rest := List.drop_left
    exact ⟨e, he, List.prefix_append e.2 rest, by rwa [hdrop], by rw [hdrop]⟩
  · rintro ⟨e, he, ⟨rest, rfl⟩, hrest, rfl⟩
    exact ⟨e, he, _, hrest, congrArg (e.2 ++ ·) List.drop_left.symm, rfl⟩

instance decidableAliasOf (a b : Text) : Decidable (AliasOf a b) := decidable_of_iff' _ aliasOf_iff

/-- The path is the one looked for, or has an alias for the name in it. -/
def Spelling (target path : Text) : Prop := path = target ∨ AliasOf path target

instance decidableSpelling (target path : Text) : Decidable (Spelling target path) :=
  inferInstanceAs (Decidable (_ ∨ _))

/-- The entry gives access to the path. -/
def Grants (target entry : Text) : Prop := ¬Negated entry ∧ Spelling target (entryPath entry)

instance decidableGrants (target entry : Text) : Decidable (Grants target entry) :=
  inferInstanceAs (Decidable (_ ∧ _))

/-! ### Parsing an entry -/

theorem ofPerm_negated (entry : Text) : (Filesystem.ofPerm entry).negated = decide (Negated entry) :=
  Bool.eq_iff_iff.mpr (startsWith_iff.trans (decide_eq_true_iff (p := Negated entry)).symm)

theorem ofPerm_readonly (entry : Text) : (Filesystem.ofPerm entry).readonly = decide (ReadOnly entry) :=
  Bool.eq_iff_iff.mpr (endsWith_iff.trans (decide_eq_true_iff (p := ReadOnly entry)).symm)

/-- The code tries the modes one after another. -/
theorem withoutMode_eq (entry : Text) : withoutMode entry =
    if endsWith entry ":ro" then removeSuffix entry ":ro"
    else if endsWith entry ":rw" then removeSuffix entry ":rw"
    else if endsWith entry ":create" then removeSuffix entry ":create"
    else entry := by
  simp only [withoutMode, modeSuffixes, List.find?_cons, List.find?_nil]
  cases endsWith entry ":ro" <;> cases endsWith entry ":rw" <;> cases endsWith entry ":create" <;> rfl

theorem withoutMode_isPrefix (entry : Text) : withoutMode entry <+: entry := by
  rw [withoutMode]
  split
  · rw [removeSuffix]
    split
    · exact List.take_prefix _ entry
    · exact List.prefix_rfl
  · exact List.prefix_rfl

theorem ofPerm_aliasedPath {entry : Text} (h : ¬Negated entry) :
    (Filesystem.ofPerm entry).aliasedPath = entryPath entry := by
  have hpath : ¬startsWith (withoutMode entry) "!" := fun hp =>
    h ((startsWith_iff.mp hp).trans (withoutMode_isPrefix entry))
  simp only [Filesystem.ofPerm, ← withoutMode_eq, entryPath]
  rw [removePrefix, if_neg hpath]

theorem startsWith_eq (s p : Text) : startsWith s p = decide (p <+: s) :=
  Bool.eq_iff_iff.mpr (startsWith_iff.trans (decide_eq_true_iff (p := p <+: s)).symm)

/-- The canonical path is the path rewritten by the table of aliases. -/
theorem ofPerm_canonPath (entry : Text) :
    (Filesystem.ofPerm entry).canonPath = rewrite aliases (Filesystem.ofPerm entry).aliasedPath := by
  have hfind : ∀ path, (aliases.find? fun e => startsWith path e.2) = find aliases path := fun path => by
    simp only [find, startsWith_eq]
  simp only [Filesystem.ofPerm, hfind, rewrite]
  generalize List.rdropWhile _ _ = path
  cases h : find aliases path with
  | none => rfl
  | some e =>
    obtain ⟨-, rest, rfl⟩ := find_eq_some h
    exact congrArg (e.1 ++ ·) ((removePrefix_append e.2 rest).trans List.drop_left.symm)

/-! ### Aliases -/

theorem aliases_separated : Separated aliases where
  names := by decide +kernel
  fresh := by decide +kernel

/-- An alias is tried before those that it starts with, which end at a component. -/
theorem aliases_ordered :
    aliases.Pairwise fun e' e => ¬e'.2 <+: e.2 ∧ (e.2 <+: e'.2 → (e'.2.drop e.2.length).head? = some '/') := by
  decide +kernel

/-- The alias of an entry is found before a rest that does not start another component. -/
theorem find_alias {e : Text × Text} (he : e ∈ aliases) {rest : Text} (hrest : ¬IsRest rest) :
    find aliases (e.2 ++ rest) = some e := by
  obtain ⟨before, after, hsplit⟩ := List.append_of_mem he
  have hordered := aliases_ordered
  rw [hsplit] at hordered ⊢
  refine find_append fun a ha hfits => ?_
  obtain ⟨hshort, hlong⟩ := (List.pairwise_append.mp hordered).2.2 a ha e List.mem_cons_self
  obtain ⟨s, hs⟩ := hfits
  rcases prefixes_comparable hs with h | h
  · exact hshort h
  · obtain ⟨t, ht⟩ := h
    have hhead : t.head? = some '/' := by simpa [← ht] using hlong ⟨t, ht⟩
    rw [← ht, List.append_assoc] at hs
    have hts : t ++ s = rest := List.append_cancel_left hs
    refine hrest fun c hc => ?_
    cases t with
    | nil => cases hhead
    | cons d t =>
      cases hhead
      rw [← hts] at hc
      cases hc
      rfl

/-- An alias and its name before a text that goes on in the same component. -/
def Confused (a b : Text) : Prop := ∃ e ∈ aliases, ∃ rest, ¬IsRest rest ∧ a = e.2 ++ rest ∧ b = e.1 ++ rest

theorem pair_cases {a b : Text} (h : Pair aliases a b) : AliasOf a b ∨ Confused a b := by
  obtain ⟨e, he, rest, ha, hb⟩ := h
  by_cases hrest : IsRest rest
  · exact Or.inl ⟨e, he, rest, hrest, ha, hb⟩
  · exact Or.inr ⟨e, he, rest, hrest, ha, hb⟩

theorem Confused.rewrite_eq {a b : Text} (h : Confused a b) : rewrite aliases a = rewrite aliases b := by
  obtain ⟨e, he, rest, hrest, rfl, rfl⟩ := h
  rw [rewrite_append (find_alias he hrest), aliases_separated.rewrite_name he]

theorem Confused.not_alias {a b : Text} (h : Confused a b) : ¬(a = b ∨ AliasOf a b ∨ AliasOf b a) := by
  obtain ⟨e, he, rest, hrest, rfl, rfl⟩ := h
  rintro (heq | ⟨e', he', rest', hrest', -, hb⟩ | ⟨e', he', rest', -, hb, -⟩)
  · exact aliases_separated.front_ne_name he he rest rest heq
  · obtain ⟨-, rfl⟩ := aliases_separated.name_inj he he' hb
    exact hrest hrest'
  · exact aliases_separated.front_ne_name he' he rest' rest hb.symm

/-- CORRECT: for all entries that are not negated, one canonical path means one path, up to an alias for
    whole components, exactly when the paths are not an alias and its name that go on with one text in
    the same component. -/
theorem canonPath_iff (p q : Text) (hp : ¬Negated p) (hq : ¬Negated q) :
    ((Filesystem.ofPerm p).canonPath = (Filesystem.ofPerm q).canonPath →
      entryPath p = entryPath q ∨ AliasOf (entryPath p) (entryPath q) ∨ AliasOf (entryPath q) (entryPath p)) ↔
    ¬Confused (entryPath p) (entryPath q) ∧ ¬Confused (entryPath q) (entryPath p) := by
  rw [ofPerm_canonPath, ofPerm_canonPath, ofPerm_aliasedPath hp, ofPerm_aliasedPath hq]
  constructor
  · intro h
    refine ⟨fun hc => hc.not_alias (h hc.rewrite_eq), fun hc => hc.not_alias ?_⟩
    rcases h hc.rewrite_eq.symm with heq | halias | halias
    · exact Or.inl heq.symm
    · exact Or.inr (Or.inr halias)
    · exact Or.inr (Or.inl halias)
  · rintro ⟨hpq, hqp⟩ h
    rcases aliases_separated.rewrite_eq h with heq | hpair | hpair
    · exact Or.inl heq
    · exact Or.inr (Or.inl ((pair_cases hpair).resolve_right hpq))
    · exact Or.inr (Or.inr ((pair_cases hpair).resolve_right hqp))

/-- One directory in two spellings. -/
theorem canonPath_iff_sibling :
    ((Filesystem.ofPerm "~/.config:ro").canonPath = (Filesystem.ofPerm "xdg-config/").canonPath →
      entryPath "~/.config:ro" = entryPath "xdg-config/" ∨
        AliasOf (entryPath "~/.config:ro") (entryPath "xdg-config/") ∨
        AliasOf (entryPath "xdg-config/") (entryPath "~/.config:ro")) ↔
    ¬Confused (entryPath "~/.config:ro") (entryPath "xdg-config/") ∧
      ¬Confused (entryPath "xdg-config/") (entryPath "~/.config:ro") :=
  canonPath_iff "~/.config:ro" "xdg-config/" (by decide) (by decide)

/-- `~/.config2` has the canonical path of `xdg-config2`. -/
theorem config2_confused :
    (Filesystem.ofPerm "~/.config2").canonPath = (Filesystem.ofPerm "xdg-config2").canonPath ∧
      ¬(entryPath "~/.config2" = entryPath "xdg-config2" ∨
        AliasOf (entryPath "~/.config2") (entryPath "xdg-config2") ∨
        AliasOf (entryPath "xdg-config2") (entryPath "~/.config2")) :=
  ⟨by decide +kernel, Confused.not_alias ⟨("xdg-config", "~/.config"), by decide +kernel, "2", by decide,
    by decide +kernel, by decide +kernel⟩⟩

/-! ### The entries of a list -/

/-- A path that its spellings are rewritten to: the part of it behind a name is one of components. -/
def Canonical (target : Text) : Prop :=
  find aliases target = none ∧ ∀ e ∈ aliases, e.1 <+: target →
    IsRest (target.drop e.1.length) ∧ rewrite aliases (e.2 ++ target.drop e.1.length) = target

instance decidableCanonical (target : Text) : Decidable (Canonical target) :=
  inferInstanceAs (Decidable (_ ∧ _))

theorem Canonical.rewrite_iff {target : Text} (h : Canonical target) (path : Text) :
    rewrite aliases path = target ↔ Spelling target path := by
  constructor
  · intro hpath
    rcases rewrite_cases aliases path with ⟨-, hw⟩ | ⟨e, he, rest, hrest, hw⟩
    · exact Or.inl (hw.symm.trans hpath)
    · have htarget : target = e.1 ++ rest := hpath.symm.trans hw
      have hdrop : target.drop e.1.length = rest := by rw [htarget, List.drop_left]
      exact Or.inr ⟨e, he, rest, hdrop ▸ (h.2 e he ⟨rest, htarget.symm⟩).1, hrest, htarget⟩
  · rintro (rfl | ⟨e, he, rest, -, rfl, htarget⟩)
    · exact rewrite_of_find_none h.1
    · have hdrop : target.drop e.1.length = rest := by rw [htarget, List.drop_left]
      rw [← hdrop]
      exact (h.2 e he ⟨rest, htarget.symm⟩).2

theorem canonical_dangerous : ∀ d ∈ dangerousDirectoryChecks, Canonical d.permission := by
  decide +kernel

theorem canonical_override : Canonical overridePath := by decide +kernel

theorem filesystemPermsOf_concat (l : List Text) (entry : Text) :
    filesystemPermsOf (l ++ [entry]) =
      if (Filesystem.ofPerm entry).negated then filesystemPermsOf l
      else (filesystemPermsOf l).set (Filesystem.ofPerm entry).canonPath (Filesystem.ofPerm entry) :=
  List.foldl_append ..

/-- The last entry for a path counts. -/
theorem get_filesystemPermsOf {target : Text} (h : Canonical target) (l : List Text) :
    (filesystemPermsOf l).get target = (l.filter fun e => Grants target e).getLast?.map Filesystem.ofPerm := by
  induction l using List.reverseRecOn with
  | nil => rfl
  | append_singleton l entry ih =>
    rw [filesystemPermsOf_concat, ofPerm_negated, List.filter_append]
    by_cases hneg : Negated entry
    · have hgrants : ¬Grants target entry := fun hg => hg.1 hneg
      simpa [hneg, hgrants] using ih
    · have hcanon : (Filesystem.ofPerm entry).canonPath = target ↔ Grants target entry := by
        rw [ofPerm_canonPath, ofPerm_aliasedPath hneg, h.rewrite_iff]
        exact ⟨fun hs => ⟨hneg, hs⟩, And.right⟩
      rw [if_neg (by simpa using hneg), Dict.get_set]
      by_cases hgrants : Grants target entry
      · simp [hgrants, hcanon.mpr hgrants]
      · have hne : target ≠ (Filesystem.ofPerm entry).canonPath := fun heq => hgrants (hcanon.mp heq.symm)
        simpa [hne, hgrants] using ih

/-! ### What is reported of a directory -/

/-- The note on a directory. -/
def directoryNote (name : Text) (d : PermissionCheck) : Note :=
  ⟨name ++ " has filesystem=" ++ d.permission ++ " permission", some d.status⟩

/-- The lines of the recommendation on a directory. -/
def directoryLines (d : PermissionCheck) : List Text :=
  [("The following flatpak app(s) have filesystem=" : Text) ++ d.permission ++ " permission:",
    "[[NAMES_PLACEHOLDER]]"] ++ d.comment.toList ++
    (if d.sandboxEscape then [("This may also be used as a sandbox escape vector." : Text)] else []) ++
    [("To remove this permission from an app, use Flatseal or run:" : Text),
      ("$ flatpak override -u --nofilesystem=" : Text) ++ d.permission ++ " com.example.Example",
      "(replacing \"com.example.Example\" with the flatpak app ID)"]

/-- The recommendation on a directory, which is merged with those of other apps of the same text. -/
def directoryRecommendation (name : Text) (d : PermissionCheck) : Recommendation :=
  ⟨['\n'].intercalate (directoryLines d), some name⟩

/-- The text begins and ends, and not with a blank. -/
def Solid (t : Text) : Prop :=
  (t.head?.any fun c => !isSpace c) = true ∧ (t.getLast?.any fun c => !isSpace c) = true

instance (t : Text) : Decidable (Solid t) := inferInstanceAs (Decidable (_ ∧ _))

/-- Blanks between the ends of a text are not stripped. -/
theorem strip_of_solid {t : Text} (h : Solid t) : strip t = t := by
  refine strip_eq_self (fun c hc => ?_) fun c hc => ?_
  · have hsolid := h.1
    rw [hc, Option.any_some] at hsolid
    simpa using hsolid
  · have hsolid := h.2
    rw [hc, Option.any_some] at hsolid
    simpa using hsolid

theorem solid_between {front back : Text} (hfront : (front.head?.any fun c => !isSpace c) = true)
    (hback : (back.getLast?.any fun c => !isSpace c) = true) (t : Text) : Solid (front ++ t ++ back) := by
  obtain ⟨c, hc, hspace⟩ := (Option.any_eq_true ..).mp hfront
  obtain ⟨e, he, hspace'⟩ := (Option.any_eq_true ..).mp hback
  constructor
  · rw [List.append_assoc, List.head?_append, hc]
    exact hspace
  · rw [List.getLast?_append, he]
    exact hspace'

/-- The lines of a text as they are shown. -/
def shownLines (lines : List Text) : List Text := (lines.map strip).filter (· ≠ [])

theorem shownLines_cons_of_solid {t : Text} (h : Solid t) (lines : List Text) :
    shownLines (t :: lines) = t :: shownLines lines := by
  have hne : t ≠ [] := by
    rintro rfl
    cases h.1
  simp [shownLines, strip_of_solid h, hne]

theorem shownLines_cons_nil (lines : List Text) : shownLines ([] :: lines) = shownLines lines := rfl

/-- The checks of the table are made by `directoryCheck`. -/
theorem dangerous_directoryCheck : ∀ d ∈ dangerousDirectoryChecks, ∃ path status files escape arbitrary,
    d = directoryCheck path status files escape arbitrary := by
  simp only [dangerousDirectoryChecks, List.forall_mem_cons, List.not_mem_nil, false_implies, implies_true,
    and_true]
  exact ⟨⟨_, _, _, _, _, rfl⟩, ⟨_, _, _, _, _, rfl⟩, ⟨_, _, _, _, _, rfl⟩, ⟨_, _, _, _, _, rfl⟩,
    ⟨_, _, _, _, _, rfl⟩, ⟨_, _, _, _, _, rfl⟩, ⟨_, _, _, _, _, rfl⟩, ⟨_, _, _, _, _, rfl⟩,
    ⟨_, _, _, _, _, rfl⟩, ⟨_, _, _, _, _, rfl⟩, ⟨_, _, _, _, _, rfl⟩, ⟨_, _, _, _, _, rfl⟩,
    ⟨_, _, _, _, _, rfl⟩, ⟨_, _, _, _, _, rfl⟩, ⟨_, _, _, _, _, rfl⟩, ⟨_, _, _, _, _, rfl⟩,
    ⟨_, _, _, _, _, rfl⟩, ⟨_, _, _, _, _, rfl⟩, ⟨_, _, _, _, _, rfl⟩, ⟨_, _, _, _, _, rfl⟩,
    ⟨_, _, _, _, _, rfl⟩, ⟨_, _, _, _, _, rfl⟩⟩

section
variable (path : Text) (status : Status) (files : Text) (escape arbitrary : Bool)

theorem shownDescription_directoryCheck :
    (directoryCheck path status files escape arbitrary).shownDescription =
      ("filesystem=" : Text) ++ path ++ " permission" := by
  have hoption : (Category.overrideOptions .filesystems).1 ++ "=" = ("filesystem=" : Text) := rfl
  change (Category.overrideOptions .filesystems).1 ++ "=" ++ path ++ " permission" = _
  rw [hoption]

theorem note_directoryCheck (name : Text) :
    (directoryCheck path status files escape arbitrary).note name =
      directoryNote name (directoryCheck path status files escape arbitrary) := by
  rw [PermissionCheck.note, shownDescription_directoryCheck, directoryNote]
  simp only [List.append_assoc]
  rfl

/-- The lines are solid, but for the notes that are left out. -/
theorem recommendation_directoryCheck (name : Text) :
    (directoryCheck path status files escape arbitrary).recommendation name =
      directoryRecommendation name (directoryCheck path status files escape arbitrary) := by
  have hfront : ("The following flatpak app(s) have " : Text) ++ "filesystem=" =
      "The following flatpak app(s) have filesystem=" := by decide +kernel
  have hback : (" permission" : Text) ++ ":" = " permission:" := by decide +kernel
  have hhead : ("The following flatpak app(s) have " : Text) ++
      (("filesystem=" : Text) ++ path ++ " permission") ++ ":" =
      ("The following flatpak app(s) have filesystem=" : Text) ++ path ++ " permission:" := by
    rw [← hfront, ← hback]
    simp only [List.append_assoc]
  have hcommand : ("$ flatpak override -u --" : Text) ++ (Category.overrideOptions .filesystems).2 ++ "=" =
      "$ flatpak override -u --nofilesystem=" := by decide +kernel
  have hfirst : Solid (("The following flatpak app(s) have filesystem=" : Text) ++ path ++ " permission:") :=
    solid_between (by decide +kernel) (by decide +kernel) path
  have hnames : Solid namesPlaceholder := by decide +kernel
  have hcomment : Solid (("This grants access to " : Text) ++ files ++ ".") :=
    solid_between (by decide +kernel) (by decide +kernel) files
  have hlast : Solid (("$ flatpak override -u --nofilesystem=" : Text) ++ path ++ " com.example.Example") :=
    solid_between (by decide +kernel) (by decide +kernel) path
  have hremove : shownLines [removeLine, ("$ flatpak override -u --nofilesystem=" : Text) ++ path ++
      " com.example.Example", replacingLine, []] =
      [removeLine, ("$ flatpak override -u --nofilesystem=" : Text) ++ path ++ " com.example.Example",
        replacingLine] := by
    rw [shownLines_cons_of_solid (by decide +kernel), shownLines_cons_of_solid hlast,
      shownLines_cons_of_solid (by decide +kernel), shownLines_cons_nil]
    rfl
  have hempty : ("" : Text) = [] := rfl
  rw [PermissionCheck.recommendation, shownDescription_directoryCheck, directoryRecommendation]
  cases escape
  · simp only [directoryCheck, orEmpty, Option.getD_some, Option.getD_none, directoryLines, Option.toList_some,
      Bool.false_eq_true, if_false]
    rw [hhead, hcommand, hempty]
    change (⟨joinLines (shownLines _), _⟩ : Recommendation) = _
    rw [shownLines_cons_of_solid hfirst, shownLines_cons_of_solid hnames, shownLines_cons_of_solid hcomment,
      shownLines_cons_nil, hremove]
    rfl
  · simp only [directoryCheck, orEmpty, Option.getD_some, Option.getD_none, directoryLines, Option.toList_some,
      if_true]
    rw [hhead, hcommand]
    change (⟨joinLines (shownLines _), _⟩ : Recommendation) = _
    rw [shownLines_cons_of_solid hfirst, shownLines_cons_of_solid hnames, shownLines_cons_of_solid hcomment,
      shownLines_cons_of_solid (by decide +kernel), hremove]
    rfl

end

/-! ### Dangerous directories -/

/-- Some entry gives access to the directory. -/
def Granted (l : List Text) (d : PermissionCheck) : Prop := ∃ entry ∈ l, Grants d.permission entry

instance decidableGranted (l : List Text) (d : PermissionCheck) : Decidable (Granted l d) :=
  inferInstanceAs (Decidable (∃ entry ∈ l, _))

/-- The check with the spelling of the last entry for its directory. -/
def PermissionCheck.spelled (d : PermissionCheck) (l : List Text) : PermissionCheck :=
  (l.filter fun e => Grants d.permission e).getLast?.elim d fun entry =>
    { d with permission := entryPath entry }

/-- The dangerous directories that a list gives access to, in the order of the table. -/
def grantedDirectories (l : List Text) : List PermissionCheck :=
  (dangerousDirectoryChecks.filter fun d => Granted l d).map fun d => d.spelled l

/-- What reports of some checks add to a state. -/
theorem foldl_report : ∀ (checks : List PermissionCheck) (state : FlatpakPermissionsState),
    checks.foldl report state = { state with
      notes := state.notes ++ checks.map fun d => d.note state.name
      recs := state.recs ++ checks.map fun d => d.recommendation state.name
      status := checks.foldl (fun status d => status.downgradeTo d.status) state.status
      arbitraryPermissions := state.arbitraryPermissions || checks.any (·.arbitraryPermissions) }
  | [], state => by simp
  | d :: checks, state => by
      rw [List.foldl_cons, foldl_report checks (report state d)]
      simp [report, FlatpakPermissionsState.update, PermissionCheck.note, Bool.or_assoc]

/-- An entry that is no alias has its own path as the canonical one. -/
theorem canonPath_of_not_aliased {entry : Text} (h : (Filesystem.ofPerm entry).isAliased = false) :
    (Filesystem.ofPerm entry).canonPath = (Filesystem.ofPerm entry).aliasedPath := by
  simp only [Filesystem.ofPerm, Option.isSome_eq_false_iff, Option.isNone_iff_eq_none] at h ⊢
  rw [h]

/-- Some entry is granted exactly if there is a last one. -/
theorem granted_iff {l : List Text} {d : PermissionCheck} :
    Granted l d ↔ ∃ entry, (l.filter fun e => Grants d.permission e).getLast? = some entry := by
  constructor
  · rintro ⟨entry, hentry, hgrants⟩
    have hmem : entry ∈ l.filter fun e => Grants d.permission e :=
      List.mem_filter.mpr ⟨hentry, decide_eq_true hgrants⟩
    exact ⟨_, List.getLast?_eq_some_getLast (List.ne_nil_of_mem hmem)⟩
  · rintro ⟨entry, hlast⟩
    have hmem := List.mem_filter.mp (List.mem_of_getLast? hlast)
    exact ⟨entry, hmem.1, of_decide_eq_true hmem.2⟩

/-- What is added for a directory is a report in the spelling of the last entry. -/
theorem dirCheck_eq {l : List Text} {d : PermissionCheck} (hd : Canonical d.permission) {entry : Text}
    (hlast : (l.filter fun e => Grants d.permission e).getLast? = some entry) :
    (if (Filesystem.ofPerm entry).isAliased
      then { d with permission := (Filesystem.ofPerm entry).aliasedPath } else d) = d.spelled l := by
  have hgrants : Grants d.permission entry :=
    of_decide_eq_true (List.mem_filter.mp (List.mem_of_getLast? hlast)).2
  have hpath := ofPerm_aliasedPath hgrants.1
  rw [PermissionCheck.spelled, hlast, Option.elim_some, hpath]
  split
  · rfl
  · next haliased =>
    have hcanon := canonPath_of_not_aliased (by simpa using haliased)
    rw [ofPerm_canonPath, hpath, (hd.rewrite_iff _).mpr hgrants.2] at hcanon
    rw [← hcanon]

theorem checkDangerousDirs_foldl (state : FlatpakPermissionsState) (l : List Text) :
    checkDangerousDirs state (filesystemPermsOf l) = (grantedDirectories l).foldl report state := by
  rw [grantedDirectories, List.foldl_map, List.foldl_filter, checkDangerousDirs]
  refine List.foldl_ext _ _ _ fun st d hd => ?_
  have hcanon := canonical_dangerous d hd
  rw [get_filesystemPermsOf hcanon]
  cases hlast : (l.filter fun e => Grants d.permission e).getLast? with
  | none =>
    have hgranted : ¬Granted l d := fun h => by
      obtain ⟨entry, hentry⟩ := granted_iff.mp h
      cases hlast.symm.trans hentry
    rw [if_neg (by simpa using hgranted)]
    rfl
  | some entry =>
    rw [if_pos (decide_eq_true (granted_iff.mpr ⟨entry, hlast⟩)), ← dirCheck_eq hcanon hlast]
    rfl

/-- A reported check is the one of the table in the spelling of an entry that gives access. -/
theorem spelled_of_granted {l : List Text} {d : PermissionCheck} (h : Granted l d) :
    ∃ entry ∈ l, Grants d.permission entry ∧ d.spelled l = { d with permission := entryPath entry } := by
  obtain ⟨entry, hlast⟩ := granted_iff.mp h
  have hmem := List.mem_filter.mp (List.mem_of_getLast? hlast)
  exact ⟨entry, hmem.1, of_decide_eq_true hmem.2, by rw [PermissionCheck.spelled, hlast, Option.elim_some]⟩

/-- What a reported check says is said of its directory. -/
theorem report_grantedDirectories {l : List Text} {d : PermissionCheck} (h : d ∈ grantedDirectories l)
    (name : Text) :
    d.note name = directoryNote name d ∧ d.recommendation name = directoryRecommendation name d := by
  obtain ⟨e, he, rfl⟩ := List.mem_map.mp h
  obtain ⟨hmem, hgranted⟩ := List.mem_filter.mp he
  obtain ⟨entry, -, -, hspelled⟩ := spelled_of_granted (of_decide_eq_true hgranted)
  obtain ⟨path, status, files, escape, arbitrary, rfl⟩ := dangerous_directoryCheck e hmem
  rw [hspelled]
  exact ⟨note_directoryCheck (entryPath entry) status files escape arbitrary name,
    recommendation_directoryCheck (entryPath entry) status files escape arbitrary name⟩

/-- CORRECT: for every list, exactly the directories that some entry gives access to get a note with
    their status and a recommendation, each once in the order of the table, in the spelling of such an
    entry, and permissions become arbitrary if they are for one of these directories. Both name the app
    and the permission, and the recommendation what access is granted to. -/
theorem checkDangerousDirs_eq (state : FlatpakPermissionsState) (l : List Text) :
    checkDangerousDirs state (filesystemPermsOf l) = { state with
      notes := state.notes ++ (grantedDirectories l).map fun d => directoryNote state.name d
      recs := state.recs ++ (grantedDirectories l).map fun d => directoryRecommendation state.name d
      status := (grantedDirectories l).foldl (fun status d => status.downgradeTo d.status) state.status
      arbitraryPermissions :=
        state.arbitraryPermissions || (grantedDirectories l).any (·.arbitraryPermissions) } ∧
    (∀ d ∈ dangerousDirectoryChecks,
      (∃ files : Text, d.comment = some (("This grants access to " : Text) ++ files ++ ".")) ∧
      (Granted l d → ∃ entry ∈ l,
        Grants d.permission entry ∧ d.spelled l = { d with permission := entryPath entry })) ∧
    (dangerousDirectoryChecks.map (·.permission)).Nodup := by
  refine ⟨?_, fun d hd => ⟨?_, spelled_of_granted⟩, by decide +kernel⟩
  · rw [checkDangerousDirs_foldl, foldl_report,
      List.map_congr_left fun d hd => (report_grantedDirectories hd state.name).1,
      List.map_congr_left fun d hd => (report_grantedDirectories hd state.name).2]
  · obtain ⟨path, status, files, escape, arbitrary, rfl⟩ := dangerous_directoryCheck d hd
    exact ⟨files, rfl⟩

/-! ### The overrides of flatpak -/

/-- The note on write access to the overrides. -/
def overridesNote (name : Text) : Note := ⟨name ++ " can modify flatpak permissions.", some .fail⟩

/-- The path of the overrides in both spellings. -/
def overridesSpellings : List Text := [overridePath, "~/.local/share/flatpak/overrides"]

/-- The entry is about the overrides of flatpak. -/
def NamesOverrides (entry : Text) : Prop := ¬Negated entry ∧ entryPath entry ∈ overridesSpellings

instance decidableNamesOverrides (entry : Text) : Decidable (NamesOverrides entry) :=
  inferInstanceAs (Decidable (_ ∧ _))

/-- The check of an app reports that it can write the overrides. -/
def Flagged (state : FlatpakPermissionsState) (perms : Permissions) : Prop :=
  (checkFsPermissions state perms).arbitraryPermissions = true ∧
    ∃ added, (checkFsPermissions state perms).notes = state.notes ++ added ∧ overridesNote state.name ∈ added

theorem spelling_override (path : Text) : Spelling overridePath path ↔ path ∈ overridesSpellings := by
  have hmem : (("xdg-data" : Text), ("~/.local/share" : Text)) ∈ aliases := by decide +kernel
  have hname : overridePath = ("xdg-data" : Text) ++ "/flatpak/overrides" := by decide +kernel
  constructor
  · rintro (rfl | ⟨e, he, rest, -, rfl, htarget⟩)
    · exact List.mem_cons_self
    · obtain ⟨rfl, rfl⟩ := aliases_separated.name_inj he hmem (htarget.symm.trans hname)
      decide +kernel
  · have hall : ∀ p ∈ overridesSpellings, Spelling overridePath p := by decide +kernel
    exact hall path

theorem grants_override (entry : Text) : Grants overridePath entry ↔ NamesOverrides entry :=
  and_congr_right fun _ => spelling_override (entryPath entry)

section
variable (state : FlatpakPermissionsState) (fs : FilesystemPerms)

theorem overridesNote_ne (name rest : Text) (h : rest.take 4 ≠ (" can" : Text)) (status : Option Status) :
    (⟨name ++ rest, status⟩ : Note) ≠ overridesNote name := by
  intro heq
  have htext := List.append_cancel_left (congrArg Note.text heq)
  exact h (by rw [htext]; decide)

/-- The check for `host-os` adds nothing about the overrides. -/
theorem checkHardenedMallocAccess_adds :
    (checkHardenedMallocAccess state fs).name = state.name ∧
      ∃ added, (checkHardenedMallocAccess state fs).notes = state.notes ++ added ∧
        overridesNote state.name ∉ added := by
  rw [checkHardenedMallocAccess]
  split
  · refine ⟨rfl, [⟨state.name ++ " is missing host-os:ro permission", some .warn⟩], rfl, ?_⟩
    rw [List.mem_singleton]
    exact (overridesNote_ne _ _ (by decide) _).symm
  · exact ⟨rfl, [], (List.append_nil _).symm, List.not_mem_nil⟩

/-- Nor do the checks of directories. -/
theorem checkDangerousDirs_adds (l : List Text) :
    ∃ added, (checkDangerousDirs state (filesystemPermsOf l)).notes = state.notes ++ added ∧
      overridesNote state.name ∉ added := by
  rw [checkDangerousDirs_foldl, foldl_report]
  refine ⟨_, rfl, fun h => ?_⟩
  obtain ⟨d, -, hd⟩ := List.mem_map.mp h
  rw [PermissionCheck.note, List.append_assoc] at hd
  exact overridesNote_ne _ _ (by simp) _ hd

end

/-- The finding depends on the last entry about the overrides. -/
theorem flagged_iff_last {state : FlatpakPermissionsState} (hname : state.name ∉ arbitraryPermissionsExpected)
    (perms : Permissions) :
    Flagged state perms ↔ ∃ entry,
      ((permissionList perms .filesystems).filter fun e => NamesOverrides e).getLast? = some entry ∧
        ¬ReadOnly entry := by
  generalize hl : permissionList perms .filesystems = l
  have hget : (filesystemPermsOf l).get overridePath =
      (l.filter fun e => NamesOverrides e).getLast?.map Filesystem.ofPerm := by
    rw [get_filesystemPermsOf canonical_override]
    simp only [grants_override]
  obtain ⟨hst, added, hnotes, hadded⟩ := checkHardenedMallocAccess_adds state (filesystemPermsOf l)
  rw [Flagged, checkFsPermissions_eq, hl]
  dsimp only
  generalize checkHardenedMallocAccess state (filesystemPermsOf l) = st at hst hnotes
  -- without the finding, none of the three checks adds the note
  have hquiet : ¬∃ more, (checkDangerousDirs st (filesystemPermsOf l)).notes = state.notes ++ more ∧
      overridesNote state.name ∈ more := by
    rintro ⟨more, hmore, hmem⟩
    obtain ⟨dirs, hdirs, hnot⟩ := checkDangerousDirs_adds st l
    rw [hdirs, hnotes, List.append_assoc] at hmore
    rw [← List.append_cancel_left hmore, List.mem_append] at hmem
    exact hmem.elim hadded (hst ▸ hnot)
  cases hlast : (l.filter fun e => NamesOverrides e).getLast? with
  | none =>
    have hkeep : checkOverridesAccess st (filesystemPermsOf l) = st := by
      rw [checkOverridesAccess, hget, hlast]
      exact ite_self st
    simp only [hkeep, hquiet, and_false, reduceCtorEq, false_and, exists_false]
  | some entry =>
    by_cases hro : ReadOnly entry
    · have hkeep : checkOverridesAccess st (filesystemPermsOf l) = st := by
        rw [checkOverridesAccess, hget, hlast]
        simp [ofPerm_readonly, hro]
      simp only [hkeep, hquiet, and_false, Option.some.injEq, exists_eq_left', hro, not_true_eq_false]
    · refine iff_of_true ?_ ⟨entry, rfl, hro⟩
      have hadd : ∃ rec', checkOverridesAccess st (filesystemPermsOf l) =
          { st with arbitraryPermissions := true }.update (overridesNote st.name) rec' := by
        rw [checkOverridesAccess, hget, hlast, if_neg (hst ▸ hname)]
        simp only [Option.map_some, ofPerm_readonly, hro, decide_false, Bool.false_eq_true, if_false]
        exact ⟨_, rfl⟩
      obtain ⟨rec', hadd⟩ := hadd
      obtain ⟨dirs, hdirs, -⟩ := checkDangerousDirs_adds (checkOverridesAccess st (filesystemPermsOf l)) l
      constructor
      · rw [checkDangerousDirs_foldl, foldl_report, hadd]
        rfl
      · refine ⟨added ++ [overridesNote state.name] ++ dirs, ?_, by simp⟩
        rw [hdirs, hadd, FlatpakPermissionsState.update]
        simp only [hnotes, hst, List.append_assoc]

/-- CORRECT: for an app that is not expected to change permissions, a writable entry for the overrides
    is reported exactly when no read-only entry for them is the last one behind it. -/
theorem flagged_iff {state : FlatpakPermissionsState} (hname : state.name ∉ arbitraryPermissionsExpected)
    (perms : Permissions) :
    ((∃ entry ∈ permissionList perms .filesystems, NamesOverrides entry ∧ ¬ReadOnly entry) →
      Flagged state perms) ↔
    ∀ last ∈ ((permissionList perms .filesystems).filter fun e => NamesOverrides e).getLast?,
      ReadOnly last → ∀ entry ∈ permissionList perms .filesystems, NamesOverrides entry → ReadOnly entry := by
  rw [flagged_iff_last hname]
  generalize permissionList perms .filesystems = l
  constructor
  · intro h last hlast hro entry hentry hnames
    by_contra hw
    obtain ⟨last', hlast', hw'⟩ := h ⟨entry, hentry, hnames, hw⟩
    cases hlast.symm.trans hlast'
    exact hw' hro
  · rintro h ⟨entry, hentry, hnames, hw⟩
    have hmem : entry ∈ l.filter fun e => NamesOverrides e :=
      List.mem_filter.mpr ⟨hentry, decide_eq_true hnames⟩
    have hlast := List.getLast?_eq_some_getLast (List.ne_nil_of_mem hmem)
    exact ⟨_, hlast, fun hro => hw (h _ hlast hro entry hentry hnames)⟩

/-- The permissions of an app with a list of filesystem permissions only. -/
def onlyFilesystems (l : List Text) : Permissions := { permissions := .ofList [("filesystems", l)] }

/-- An app with write access, in both spellings. -/
theorem flagged_iff_writable :
    ((∃ entry ∈ permissionList (onlyFilesystems ["xdg-data/flatpak/overrides:ro",
        "~/.local/share/flatpak/overrides/"]) .filesystems, NamesOverrides entry ∧ ¬ReadOnly entry) →
      Flagged { name := "org.example.App" } (onlyFilesystems ["xdg-data/flatpak/overrides:ro",
        "~/.local/share/flatpak/overrides/"])) ↔
    ∀ last ∈ ((permissionList (onlyFilesystems ["xdg-data/flatpak/overrides:ro",
        "~/.local/share/flatpak/overrides/"]) .filesystems).filter fun e => NamesOverrides e).getLast?,
      ReadOnly last → ∀ entry ∈ permissionList (onlyFilesystems ["xdg-data/flatpak/overrides:ro",
        "~/.local/share/flatpak/overrides/"]) .filesystems, NamesOverrides entry → ReadOnly entry :=
  flagged_iff (by decide +kernel) _

/-- The list of an app with write access, then read access in the other spelling. -/
def hiddenOverrides : List Text := ["xdg-data/flatpak/overrides", "~/.local/share/flatpak/overrides:ro"]

/-- The read-only entry hides the writable one. -/
theorem hiddenOverrides_not_flagged :
    (∃ entry ∈ hiddenOverrides, NamesOverrides entry ∧ ¬ReadOnly entry) ∧
      ¬Flagged { name := "org.example.App" } (onlyFilesystems hiddenOverrides) := by
  refine ⟨by decide +kernel, fun h => ?_⟩
  obtain ⟨entry, hlast, hro⟩ := (flagged_iff_last (by decide +kernel) _).mp h
  have hall : ∀ e ∈ ((permissionList (onlyFilesystems hiddenOverrides) .filesystems).filter
      fun e => NamesOverrides e).getLast?, ReadOnly e := by decide +kernel
  exact hro (hall entry hlast)

end Flatpak
