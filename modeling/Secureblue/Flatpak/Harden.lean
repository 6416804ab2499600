import Secureblue.Py.Regex
import Secureblue.Flatpak.Checks

/-! Hardening an app (`harden_flatpak.py`), and what the audit makes of the same lines.

    The script recognises an override by a regular expression over a whole line. A line that it
    recognises has the entry between separators (`delimited_of_hostOsPattern`,
    `delimited_of_ldPreloadPattern`), and there the audit, which strips the line and splits the value,
    finds it too. -/

namespace Flatpak
open Py

/-! ### The code -/

/-- `libhardened_malloc_path` -/
def libhardenedMallocPath (uarch : Option Text) : Text :=
  let directory : Text := "/var/run/host/usr/lib64"
  let directory := match uarch with
    | some uarch => directory ++ "/glibc-hwcaps/" ++ uarch
    | none => directory
  directory ++ "/libhardened_malloc.so"

def ldPreload : Text := "LD_PRELOAD"
def filesystemsKey : Text := "filesystems="
def ldPreloadKey : Text := "LD_PRELOAD="

section
open Regex

/-- `host_os_pattern`: `filesystems=(?:.*;)?host-os(?::ro)?(?:;.*)?\n` -/
def hostOsPattern : Regex :=
  seq (lit filesystemsKey) (seq (opt (seq (star dot) (lit ";"))) (seq (lit "host-os")
    (seq (opt (lit ":ro")) (seq (opt (seq (lit ";") (star dot))) (lit "\n")))))

/-- `ld_preload_pattern`: `LD_PRELOAD=(?:.*\s)?{re.escape(hmalloc_path)}(?:\s.*)?\n` -/
def ldPreloadPattern (hmallocPath : Text) : Regex :=
  seq (lit ldPreloadKey) (seq (opt (seq (star dot) space)) (seq (lit hmallocPath)
    (seq (opt (seq space (star dot))) (lit "\n"))))

end

/-- The loop of `current_override_status`, on `host_os_access` and `ld_preload_set`. -/
def overrideStatusStep (hmallocPath : Text) (st : Bool × Bool) (line : Text) : Bool × Bool :=
  (if hostOsPattern.fullmatch line then true else st.1,
    if (ldPreloadPattern hmallocPath).fullmatch line then true else st.2)

/-- `current_override_status`, on the content of the override file if there is one -/
def currentOverrideStatus (content : Option Text) (hmallocPath : Text) : Bool × Bool :=
  match content with
  | none => (false, false)
  | some content => (fileLines content).foldl (overrideStatusStep hmallocPath) (false, false)

/-! ### The lines that are recognised -/

theorem foldl_overrideStatusStep (hmallocPath : Text) : ∀ (lines : List Text) (st : Bool × Bool),
    lines.foldl (overrideStatusStep hmallocPath) st
      = (st.1 || lines.any hostOsPattern.fullmatch,
          st.2 || lines.any (ldPreloadPattern hmallocPath).fullmatch)
  | [], st => by simp
  | line :: lines, st => by
      rw [List.foldl_cons, foldl_overrideStatusStep hmallocPath lines, overrideStatusStep,
        List.any_cons, List.any_cons]
      cases hostOsPattern.fullmatch line <;> cases (ldPreloadPattern hmallocPath).fullmatch line <;>
        simp

/-- A status is reported for a line that matches. -/
theorem currentOverrideStatus_iff (content hmallocPath : Text) :
    ((currentOverrideStatus (some content) hmallocPath).1 ↔
      ∃ line ∈ fileLines content, hostOsPattern.fullmatch line) ∧
    ((currentOverrideStatus (some content) hmallocPath).2 ↔
      ∃ line ∈ fileLines content, (ldPreloadPattern hmallocPath).fullmatch line) := by
  rw [currentOverrideStatus, foldl_overrideStatusStep]
  simp only [Bool.false_or, List.any_eq_true, and_self]

/-- The optional part beside an entry has a separator at its edge to it. -/
theorem mem_lang_edge {a b : Regex} {edge : Text → Option Char} {p : Char → Bool} (hnil : edge [] = none)
    (h : ∀ x ∈ a.lang, ∀ y ∈ b.lang, ∃ c, p c ∧ edge (x ++ y) = some c) {t : Text}
    (ht : t ∈ (Regex.opt (.seq a b)).lang) : ∀ c ∈ edge t, p c := by
  rw [Regex.mem_opt, Regex.mem_seq] at ht
  intro c hc
  rcases ht with rfl | ⟨x, hx, y, hy, rfl⟩
  · rw [hnil] at hc
    cases hc
  · obtain ⟨d, hd, hedge⟩ := h x hx y hy
    rw [hedge] at hc
    exact Option.some.inj hc ▸ hd

theorem mem_lang_before {r : Regex} {p : Char → Bool} (hr : ∀ {t}, t ∈ r.lang ↔ ∃ c, p c ∧ t = [c]) {t : Text} :
    t ∈ (Regex.opt (.seq (.star .dot) r)).lang → (∀ c ∈ t.getLast?, p c) := by
  refine mem_lang_edge rfl fun x _ y hy => ?_
  obtain ⟨c, hc, rfl⟩ := hr.mp hy
  exact ⟨c, hc, List.getLast?_concat⟩

theorem mem_lang_behind {r : Regex} {p : Char → Bool} (hr : ∀ {t}, t ∈ r.lang ↔ ∃ c, p c ∧ t = [c]) {t : Text} :
    t ∈ (Regex.opt (.seq r (.star .dot))).lang → (∀ c ∈ t.head?, p c) := by
  refine mem_lang_edge rfl fun x hx y _ => ?_
  obtain ⟨c, hc, rfl⟩ := hr.mp hx
  exact ⟨c, hc, rfl⟩

theorem mem_lang_lit_singleton {c : Char} {t : Text} :
    t ∈ (Regex.lit [c]).lang ↔ ∃ d, (d == c) = true ∧ t = [d] := by
  rw [Regex.mem_lit]
  constructor
  · exact fun h => ⟨c, beq_self_eq_true c, h⟩
  · rintro ⟨d, hd, rfl⟩
    rw [eq_of_beq hd]

/-- An entry of a `filesystems=` line that gives access to the system. -/
def hostOsEntries : List Text := ["host-os", "host-os:ro"]

theorem delimited_of_hostOsPattern {line : Text} (h : hostOsPattern.fullmatch line) :
    ∃ value, line = filesystemsKey ++ value ++ ['\n'] ∧
      ∃ entry ∈ hostOsEntries, Delimited (· == ';') entry value := by
  rw [Regex.fullmatch_iff] at h
  simp only [hostOsPattern, Regex.mem_seq (r := .lit _), Regex.mem_seq (r := .opt _),
    Regex.mem_lit] at h
  obtain ⟨_, rfl, _, ⟨pre, hpre, _, ⟨_, rfl, _, ⟨mode, hmode, _, ⟨post, hpost, _, rfl, rfl⟩, rfl⟩, rfl⟩,
    rfl⟩, rfl⟩ := h
  have hpre' := mem_lang_before (p := (· == ';')) mem_lang_lit_singleton hpre
  have hpost' := mem_lang_behind (p := (· == ';')) mem_lang_lit_singleton hpost
  refine ⟨pre ++ ("host-os".toList ++ mode) ++ post, by simp only [List.append_assoc]; rfl,
    "host-os".toList ++ mode, ?_, pre, post, rfl, hpre', hpost'⟩
  rcases Regex.mem_opt.mp hmode with rfl | hro
  · decide
  · rw [Regex.mem_lit.mp hro]
    decide

theorem delimited_of_ldPreloadPattern {hmallocPath line : Text}
    (h : (ldPreloadPattern hmallocPath).fullmatch line) :
    ∃ value, line = ldPreloadKey ++ value ++ ['\n'] ∧ Delimited isSpace hmallocPath value := by
  rw [Regex.fullmatch_iff] at h
  simp only [ldPreloadPattern, Regex.mem_seq (r := .lit _), Regex.mem_seq (r := .opt _),
    Regex.mem_lit] at h
  obtain ⟨_, rfl, _, ⟨pre, hpre, _, ⟨path, hpath, _, ⟨post, hpost, _, rfl, rfl⟩, rfl⟩, rfl⟩, rfl⟩ := h
  rw [← hpath]
  exact ⟨pre ++ path ++ post, by simp only [List.append_assoc]; rfl, pre, post, rfl,
    mem_lang_before Iff.rfl hpre, mem_lang_behind Iff.rfl hpost⟩

/-! ### What the audit makes of the lines -/

/-- The value that the audit reads from a line of a key file. -/
theorem entryOf_line (key value : Text) (hkey : ∀ c ∈ key, isSpace c = false ∧ c ≠ '=')
    (hhead : ∀ c ∈ key.head?, c ≠ '#') (hne : key ≠ []) :
    Section.entryOf (key ++ '=' :: value ++ ['\n']) = some (key, rstrip value) := by
  have hstrip : strip (key ++ '=' :: value ++ ['\n']) = key ++ '=' :: rstrip value := by
    have hdrop : (key ++ '=' :: value ++ ['\n']).dropWhile isSpace = key ++ '=' :: value ++ ['\n'] := by
      cases key with
      | nil => exact absurd rfl hne
      | cons c key => exact List.dropWhile_cons_of_neg (by simp [(hkey c List.mem_cons_self).1])
    have hend : rstrip (value ++ ['\n']) = rstrip value := List.rdropWhile_concat_pos _ _ _ rfl
    have hsplit : key ++ '=' :: value ++ ['\n'] = (key ++ ['=']) ++ (value ++ ['\n']) := by simp
    rw [strip, hdrop, hsplit, rstrip_append_of_getLast, hend, List.append_assoc]
    · rfl
    · simp only [List.getLast?_concat]
      rintro c ⟨rfl⟩
      decide
  have hskip : ¬ (key ++ '=' :: rstrip value = [] ∨
      startsWith (key ++ '=' :: rstrip value) ['#'] = true) := by
    rintro (h | h)
    · simp at h
    · obtain ⟨c, key, rfl⟩ := List.exists_cons_of_ne_nil hne
      obtain ⟨t, ht⟩ := startsWith_iff.mp h
      exact hhead c rfl (List.cons_eq_cons.mp ht).1.symm
  rw [Section.entryOf, hstrip, if_neg hskip,
    partition_append fun hmem => (hkey _ hmem).2 rfl]

/-- The permissions that are not negated, the last of a path counting. -/
theorem filesystemPermsOf_eq (l : List Text) : filesystemPermsOf l
    = Dict.ofList (((l.map Filesystem.ofPerm).filter (!·.negated)).map
        fun perm => (perm.canonPath, perm)) := by
  rw [Dict.ofList, Dict.update, List.foldl_map, List.foldl_filter, List.foldl_map, filesystemPermsOf]
  congr 1
  funext perms permString
  dsimp only
  cases (Filesystem.ofPerm permString).negated <;> rfl

/-- A value of `filesystems` in which the audit finds access to the system. -/
structure GrantsHostOs (value : Text) : Prop where
  entry : ∃ entry ∈ listItems value, (Filesystem.ofPerm entry).negated = false ∧
    (Filesystem.ofPerm entry).canonPath = "host-os"
  no_note : ∀ state, checkHardenedMallocAccess state (filesystemPermsOf (listItems value)) = state

theorem grantsHostOs_of_mem {entry value : Text} (hentry : entry ∈ hostOsEntries)
    (h : entry ∈ listItems value) : GrantsHostOs value := by
  have hperm : ∀ entry ∈ hostOsEntries, (Filesystem.ofPerm entry).negated = false ∧
      (Filesystem.ofPerm entry).canonPath = "host-os" := by decide +kernel
  obtain ⟨hnegated, hcanon⟩ := hperm entry hentry
  refine ⟨⟨entry, h, hnegated, hcanon⟩, fun state => ?_⟩
  have hget : ((filesystemPermsOf (listItems value)).get "host-os").isSome := by
    rw [filesystemPermsOf_eq, Dict.get_ofList, lastWins_isSome, List.map_map]
    refine List.mem_map.mpr ⟨Filesystem.ofPerm entry, List.mem_filter.mpr ⟨List.mem_map_of_mem h, ?_⟩,
      hcanon⟩
    rw [hnegated]
    rfl
  rw [checkHardenedMallocAccess, if_neg]
  rwa [Option.isNone_iff_eq_none, ← Ne, Option.ne_none_iff_isSome]

theorem grantsHostOs_of_delimited {entry value : Text} (hentry : entry ∈ hostOsEntries)
    (h : Delimited (· == ';') entry value) : GrantsHostOs value := by
  have hclean : ∀ entry ∈ hostOsEntries, entry ≠ [] ∧ ∀ c ∈ entry, (c == ';') = false := by decide
  obtain ⟨hne, hsep⟩ := hclean entry hentry
  exact grantsHostOs_of_mem hentry (List.mem_filter.mpr ⟨h.mem_splitOnP hsep, decide_eq_true hne⟩)

/-- A value of `LD_PRELOAD` that the audit takes for a request of hardened_malloc. -/
def RequestsMalloc (value : Text) : Prop :=
  ∀ state perms, perms.environment.get "LD_PRELOAD" = some value → checkLdPreload state perms = state

theorem ne_nil_of_name {hmallocPath : Text}
    (hname : hmallocPath.rtakeWhile (· ≠ '/') = "libhardened_malloc.so") : hmallocPath ≠ [] := by
  rintro rfl
  exact absurd hname (by decide)

theorem requestsMalloc_of_delimited {hmallocPath value : Text}
    (hspace : ∀ c ∈ hmallocPath, isSpace c = false)
    (hname : hmallocPath.rtakeWhile (· ≠ '/') = "libhardened_malloc.so")
    (h : Delimited isSpace hmallocPath value) : RequestsMalloc value := by
  intro state perms hget
  have hmem : "libhardened_malloc.so".toList ∈ (words value).map (List.rtakeWhile (· ≠ '/')) :=
    hname ▸ List.mem_map_of_mem (h.mem_words hspace (ne_nil_of_name hname))
  rw [checkLdPreload, hget]
  exact if_pos hmem

/-- CORRECT: where the script reports an override for a line, the audit finds it in the value of that
    line, as it stands and as the audit strips it. -/
theorem overrideStatus_recognised (content hmallocPath : Text)
    (hspace : ∀ c ∈ hmallocPath, isSpace c = false)
    (hname : hmallocPath.rtakeWhile (· ≠ '/') = "libhardened_malloc.so") :
    let status := currentOverrideStatus (some content) hmallocPath
    (status.1 ↔ ∃ line ∈ fileLines content, hostOsPattern.fullmatch line) ∧
    (status.2 ↔ ∃ line ∈ fileLines content, (ldPreloadPattern hmallocPath).fullmatch line) ∧
    (∀ line, hostOsPattern.fullmatch line → ∃ value, line = filesystemsKey ++ value ++ ['\n'] ∧
      Section.entryOf line = some (Category.filesystems.key, rstrip value) ∧
      GrantsHostOs value ∧ GrantsHostOs (rstrip value)) ∧
    ∀ line, (ldPreloadPattern hmallocPath).fullmatch line →
      ∃ value, line = ldPreloadKey ++ value ++ ['\n'] ∧
        Section.entryOf line = some (ldPreload, rstrip value) ∧
        RequestsMalloc value ∧ RequestsMalloc (rstrip value) := by
  obtain ⟨hhost, hpreload⟩ := currentOverrideStatus_iff content hmallocPath
  refine ⟨hhost, hpreload, fun line hline => ?_, fun line hline => ?_⟩
  · obtain ⟨value, hvalue, entry, hentry, hdelimited⟩ := delimited_of_hostOsPattern hline
    have hclean : ∀ entry ∈ hostOsEntries, entry ≠ [] ∧ ∀ c ∈ entry.getLast?, isSpace c = false := by
      decide
    obtain ⟨hne, hlast⟩ := hclean entry hentry
    refine ⟨value, hvalue, ?_, grantsHostOs_of_delimited hentry hdelimited,
      grantsHostOs_of_delimited hentry (hdelimited.rstrip hne hlast)⟩
    rw [hvalue]
    exact entryOf_line Category.filesystems.key value (by decide) (by decide) (by decide)
  · obtain ⟨value, hvalue, hdelimited⟩ := delimited_of_ldPreloadPattern hline
    have hlast : ∀ c ∈ hmallocPath.getLast?, isSpace c = false :=
      fun c hc => hspace c (List.mem_of_mem_getLast? hc)
    refine ⟨value, hvalue, ?_, requestsMalloc_of_delimited hspace hname hdelimited,
      requestsMalloc_of_delimited hspace hname (hdelimited.rstrip (ne_nil_of_name hname) hlast)⟩
    rw [hvalue]
    exact entryOf_line ldPreload value (by decide) (by decide) (by decide)

/-- The line that `flatpak override` writes for the script. -/
theorem overrideStatus_written :
    ∃ value, Section.entryOf "filesystems=!home;host-os:ro;\n" = some (Category.filesystems.key, rstrip value) ∧
      GrantsHostOs (rstrip value) := by
  have hspace : ∀ c ∈ libhardenedMallocPath none, isSpace c = false := by decide +kernel
  have hname : (libhardenedMallocPath none).rtakeWhile (· ≠ '/') = "libhardened_malloc.so" := by
    decide +kernel
  obtain ⟨-, -, hline, -⟩ := overrideStatus_recognised "filesystems=!home;host-os:ro;\n"
    (libhardenedMallocPath none) hspace hname
  obtain ⟨value, -, hentry, -, hgrants⟩ := hline "filesystems=!home;host-os:ro;\n" (by decide +kernel)
  exact ⟨value, hentry, hgrants⟩

end Flatpak
