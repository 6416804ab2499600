import Mathlib.Algebra.Order.BigOperators.Group.List
import Mathlib.Algebra.Order.Ring.Nat
import Secureblue.Flatpak.Overrides
import Secureblue.Pointwise

/-! What `remove_overrides_from_file` (`harden_flatpak.py`) leaves of a file.

    It is for taking `!host-os` out of the lists of filesystems and the preloaded library out of the
    environment, with everything else as it was. But `!host-os` is taken out of the text of a line: from
    the end of any entry, together with the separator behind it; and a file that is written again gets
    other line ends. `removeOverrides_iff` says for which files that makes no difference. -/

namespace Flatpak
open Py

/-! ### What it is for -/

/-- How a line may be changed: only the entries `!host-os` go from a list of filesystems. -/
def Edited (line line' : Text × Text) : Prop :=
  line'.2 = line.2 ∧
    if startsWith line.1 filesystemsKey then
      ∃ value value', line.1 = filesystemsKey ++ value ∧ line'.1 = filesystemsKey ++ value' ∧
        listItems value' = (listItems value).filter (fun e => decide (e ≠ hostOsNegation)) ∧
        (hostOsNegation ∉ listItems value → value' = value)
    else line'.1 = line.1

/-- The lines that stay. -/
def keptLines (content : Text) : List (Text × Text) :=
  (rawLines content).filter fun line => !startsWith line.1 ldPreloadKey

/-- The lines of `LD_PRELOAD` go, the lists of filesystems are edited, and all else is the same. -/
def Intended (content result : Text) : Prop :=
  ∃ lines', List.Forall₂ Edited (keptLines content) lines' ∧
    result = lines'.flatMap fun line => line.1 ++ line.2

/-- Something is to be taken out of the line. -/
def Touched (line : Text) : Prop :=
  startsWith line ldPreloadKey ∨ ∃ value, line = filesystemsKey ++ value ∧ hostOsNegation ∈ value.splitOn ';'

/-- In every list of filesystems, `!host-os` ends no other entry; and if something is to be taken out,
    the other lines end as they are written. -/
structure Removable (content : Text) : Prop where
  entries : ∀ line ∈ rawLines content, ∀ value, line.1 = filesystemsKey ++ value →
    ∀ e ∈ value.splitOn ';', endsWith e hostOsNegation → e = hostOsNegation
  stops : (∃ line ∈ rawLines content, Touched line.1) → ∀ line ∈ keptLines content, '\r' ∉ line.2

/-! ### What is taken out of a list -/

/-- Each entry loses a `!host-os` at its end, and nothing else. -/
theorem flatten_unnegated : ∀ (es : List Text) (run : Text), (unnegated run es).flatten
    = run ++ (es.map fun e => removeSuffix e hostOsNegation).flatten
  | [], run => by simp [unnegated]
  | [e], run => by simp [unnegated]
  | e :: e' :: es, run => by
      rw [unnegated]
      split
      · rw [flatten_unnegated]
        simp
      · next h =>
        have hself := removeSuffix_of_not_endsWith h
        rw [List.flatten_cons, flatten_unnegated (e' :: es) [], List.nil_append]
        simp [hself]

theorem unnegated_eq_self : ∀ {es : List Text}, es ≠ [] → (∀ e ∈ es, ¬ endsWith e hostOsNegation) →
    unnegated [] es = es
  | [], hne, _ => absurd rfl hne
  | [e], _, h => by
      rw [unnegated, removeSuffix_of_not_endsWith (h e List.mem_cons_self), List.nil_append]
  | e :: e' :: es, _, h => by
      rw [unnegated, if_neg (h e List.mem_cons_self),
        unnegated_eq_self (List.cons_ne_nil e' es) fun f hf => h f (List.mem_cons_of_mem e hf)]
      rfl

theorem withoutNegations_eq_self {value : Text} (h : ∀ e ∈ value.splitOn ';', ¬ endsWith e hostOsNegation) :
    withoutNegations value = value := by
  rw [withoutNegations, unnegated_eq_self (List.splitOn_ne_nil ';' value) h, List.intercalate_splitOn]

/-- The parts of a list are its items, up to empty ones. -/
theorem flatten_listItems (value : Text) : (listItems value).flatten = (value.splitOn ';').flatten := by
  rw [listItems]
  induction value.splitOn ';' with
  | nil => rfl
  | cons e es ih =>
    by_cases he : e = []
    · simpa [he] using ih
    · rw [List.filter_cons_of_pos (by simpa using he), List.flatten_cons, List.flatten_cons, ih]

theorem flatten_splitOn_withoutNegations (value : Text) : ((withoutNegations value).splitOn ';').flatten
    = ((value.splitOn ';').map fun e => removeSuffix e hostOsNegation).flatten := by
  have hsep : ∀ e ∈ unnegated [] (value.splitOn ';'), ';' ∉ e := by
    intro e he hmem
    obtain ⟨e', he', hmem'⟩ := (mem_of_mem_unnegated he hmem).resolve_left List.not_mem_nil
    exact not_mem_of_mem_splitOn ';' he' hmem'
  rw [withoutNegations, List.splitOn_intercalate _ hsep (unnegated_ne_nil _ _), flatten_unnegated,
    List.nil_append]

/-- An entry is left no longer than it should be. -/
theorem length_removeSuffix_le (e : Text) :
    (removeSuffix e hostOsNegation).length ≤ (if e = hostOsNegation then [] else e).length := by
  rw [removeSuffix]
  split
  · next hends =>
    rw [List.length_take]
    split
    · next heq => simp [heq]
    · omega
  · next hends =>
    rw [if_neg]
    rintro rfl
    exact hends (endsWith_iff.mpr List.suffix_rfl)

/-- An entry that loses only the whole of `!host-os` does not end in it otherwise. -/
theorem eq_of_length_removeSuffix {e : Text}
    (h : (removeSuffix e hostOsNegation).length = (if e = hostOsNegation then [] else e).length)
    (hends : endsWith e hostOsNegation) : e = hostOsNegation := by
  by_contra hne
  obtain ⟨t, rfl⟩ := endsWith_iff.mp hends
  rw [removeSuffix_append, if_neg hne, List.length_append] at h
  have hlen : hostOsNegation.length = 8 := rfl
  omega

/-- A sum of smaller terms is the same only if they are. -/
theorem eq_of_sum_eq {α : Type} {f g : α → ℕ} {l : List α} (hle : ∀ a ∈ l, f a ≤ g a)
    (hsum : (l.map g).sum ≤ (l.map f).sum) : ∀ a ∈ l, f a = g a := by
  intro a ha
  by_contra hne
  have hlt : (l.map f).sum < (l.map g).sum :=
    List.sum_lt_sum f g hle ⟨a, ha, lt_of_le_of_ne (hle a ha) hne⟩
  omega

/-- The characters of a list of entries without those that are `!host-os`. -/
theorem length_flatten_filter (es : List Text) :
    (es.filter fun e => decide (e ≠ hostOsNegation)).flatten.length
      = (es.map fun e => (if e = hostOsNegation then [] else e).length).sum := by
  induction es with
  | nil => rfl
  | cons e es ih =>
    by_cases he : e = hostOsNegation
    · simpa [he] using ih
    · rw [List.filter_cons_of_pos (by simpa using he), List.flatten_cons, List.length_append, ih,
        List.map_cons, List.sum_cons, if_neg he]

/-- What an edited list has besides separators. -/
theorem length_items {value value' : Text}
    (h : listItems value' = (listItems value).filter fun e => decide (e ≠ hostOsNegation)) :
    (value'.splitOn ';').flatten.length
      = ((value.splitOn ';').map fun e => (if e = hostOsNegation then [] else e).length).sum := by
  have hflatten : ((listItems value).filter fun e => decide (e ≠ hostOsNegation)).flatten
      = ((value.splitOn ';').filter fun e => decide (e ≠ hostOsNegation)).flatten := by
    rw [listItems]
    induction value.splitOn ';' with
    | nil => rfl
    | cons e es ih =>
      by_cases he : e = []
      · subst he
        rw [List.filter_cons_of_neg (by simp), List.filter_cons_of_pos (by decide), List.flatten_cons,
          List.nil_append, ih]
      · rw [List.filter_cons_of_pos (by simpa using he), List.filter_cons, List.filter_cons]
        split
        · rw [List.flatten_cons, List.flatten_cons, ih]
        · exact ih
  rw [← flatten_listItems, h, hflatten, length_flatten_filter]

theorem length_splitOn_withoutNegations (value : Text) : ((withoutNegations value).splitOn ';').flatten.length
    = ((value.splitOn ';').map fun e => (removeSuffix e hostOsNegation).length).sum := by
  rw [flatten_splitOn_withoutNegations, List.length_flatten, List.map_map]
  rfl

theorem length_removeSuffix_lt {e : Text} (h : endsWith e hostOsNegation) :
    (removeSuffix e hostOsNegation).length < e.length := by
  obtain ⟨t, rfl⟩ := endsWith_iff.mp h
  have hlen : hostOsNegation.length = 8 := rfl
  rw [removeSuffix_append, List.length_append]
  omega

/-- A list stays as it is if no entry ends in `!host-os`. -/
theorem withoutNegations_eq_iff {value : Text} :
    withoutNegations value = value ↔ ∀ e ∈ value.splitOn ';', ¬ endsWith e hostOsNegation := by
  refine ⟨fun hself e he hends => ?_, withoutNegations_eq_self⟩
  have hlen := length_splitOn_withoutNegations value
  rw [hself, List.length_flatten] at hlen
  have hle : ∀ e ∈ value.splitOn ';', (removeSuffix e hostOsNegation).length ≤ e.length := by
    intro e _
    by_cases h : endsWith e hostOsNegation
    · exact Nat.le_of_lt (length_removeSuffix_lt h)
    · rw [removeSuffix_of_not_endsWith h]
  have heq := eq_of_sum_eq hle (Nat.le_of_eq hlen) e he
  have hlt := length_removeSuffix_lt hends
  omega

/-! ### What is taken out of a file -/

/-- What is left of a line without its end. -/
def editLine (line : Text) : Text :=
  if startsWith line filesystemsKey then
    filesystemsKey ++ withoutNegations (line.drop filesystemsKey.length)
  else line

/-- The line is rewritten or left out. -/
def Hit (line : Text) : Prop :=
  startsWith line ldPreloadKey ∨
    ∃ value, line = filesystemsKey ++ value ∧ ∃ e ∈ value.splitOn ';', endsWith e hostOsNegation

theorem length_subNegations : ∀ (n : ℕ) (s : Text), (subNegations n s).1.length ≤ s.length ∧
    (0 < (subNegations n s).2 → (subNegations n s).1.length < s.length)
  | 0, [] => ⟨Nat.le_refl _, fun h => absurd h (Nat.lt_irrefl 0)⟩
  | _ + 1, [] => ⟨Nat.le_refl _, fun h => absurd h (Nat.lt_irrefl 0)⟩
  | n + 1, c :: s => by
      have ih := (length_subNegations n s).1
      rw [subNegations, List.length_cons]
      omega
  | 0, c :: s => by
      rw [subNegations, List.length_cons]
      split
      · next n _ =>
        have ih := (length_subNegations (n - 1) s).1
        dsimp only
        omega
      · have ih := length_subNegations 0 s
        dsimp only
        rw [List.length_cons]
        omega

theorem readStop_cases (stop : Text) : readStop stop = [] ∨ readStop stop = ['\n'] := by
  rw [readStop]
  split
  · exact .inl rfl
  · exact .inr rfl

theorem startsWith_readStop {line stop key : Text} (hkey : '\n' ∉ key) :
    startsWith (line ++ readStop stop) key = startsWith line key := by
  rw [Bool.eq_iff_iff]
  constructor
  · intro h
    obtain ⟨rest, rfl⟩ := startsWith_line hkey (readStop_cases stop) h
    exact startsWith_append key rest
  · intro h
    obtain ⟨rest, rfl⟩ := startsWith_iff.mp h
    rw [List.append_assoc]
    exact startsWith_append key _

theorem not_both {line : Text} (h : startsWith line filesystemsKey) : ¬ startsWith line ldPreloadKey := by
  obtain ⟨rest, rfl⟩ := startsWith_iff.mp h
  intro hld
  obtain ⟨rest', heq⟩ := startsWith_iff.mp hld
  exact absurd (List.cons.inj heq).1 (by decide)

/-- What a list of filesystems in a line is made of, the line has. -/
theorem exists_value {line : Text} (h : startsWith line filesystemsKey) :
    ∃ value, line = filesystemsKey ++ value ∧ ∀ c, c ∉ line → c ∉ value := by
  obtain ⟨value, rfl⟩ := startsWith_iff.mp h
  exact ⟨value, rfl, fun c hc hmem => hc (List.mem_append_right _ hmem)⟩

/-- The substitution in a line of filesystems as it is read. -/
theorem subNegations_raw {value : Text} (hvalue : '\n' ∉ value) (stop : Text) :
    (subNegations 0 (filesystemsKey ++ value ++ readStop stop)).1
      = filesystemsKey ++ withoutNegations value ++ readStop stop := by
  rw [List.append_assoc, subNegations_line hvalue (readStop_cases stop), List.append_assoc]

theorem lineLeft_raw {line : Text} (hline : '\n' ∉ line) (stop : Text) :
    lineLeft true true (line ++ readStop stop)
      = if startsWith line ldPreloadKey then none else some (editLine line ++ readStop stop) := by
  rw [lineLeft, startsWith_readStop (by decide), startsWith_readStop (by decide), editLine]
  by_cases hfs : startsWith line filesystemsKey
  · obtain ⟨value, rfl, hchars⟩ := exists_value hfs
    have hvalue : '\n' ∉ value := hchars '\n' hline
    rw [if_pos ⟨rfl, hfs⟩, if_neg (not_both hfs), if_pos hfs, subNegations_raw hvalue, List.drop_left]
  · rw [if_neg fun h => hfs h.2, if_neg hfs]
    by_cases hld : startsWith line ldPreloadKey
    · rw [if_pos ⟨rfl, hld⟩, if_pos hld]
    · rw [if_neg fun h => hld h.2, if_neg hld]

/-- Whether the substitution finds something, or the line is left out. -/
def Counted (line : Text) : Prop :=
  (startsWith line filesystemsKey ∧ 0 < (subNegations 0 line).2) ∨ startsWith line ldPreloadKey

theorem counted_iff {line : Text} (hline : '\n' ∉ line) (stop : Text) :
    Counted (line ++ readStop stop) ↔ Hit line := by
  rw [Counted, Hit, startsWith_readStop (by decide), startsWith_readStop (by decide), or_comm]
  refine or_congr_right ⟨?_, ?_⟩
  · rintro ⟨hfs, hcount⟩
    obtain ⟨value, rfl, hchars⟩ := exists_value hfs
    have hvalue : '\n' ∉ value := hchars '\n' hline
    refine ⟨value, rfl, ?_⟩
    by_contra hnone
    push Not at hnone
    have hlt := (length_subNegations 0 _).2 hcount
    rw [subNegations_raw hvalue, withoutNegations_eq_iff.mpr hnone] at hlt
    exact absurd hlt (Nat.lt_irrefl _)
  · rintro ⟨value, rfl, e, he, hends⟩
    have hvalue : '\n' ∉ value := fun h => hline (List.mem_append_right _ h)
    refine ⟨startsWith_append _ _, Nat.pos_of_ne_zero fun hzero => ?_⟩
    have hself := subNegations_eq_self 0 _ hzero
    rw [subNegations_raw hvalue, List.drop_zero] at hself
    have hkept := List.append_cancel_left (List.append_cancel_right hself)
    exact withoutNegations_eq_iff.mp hkept e he hends

/-- The loop notices every such line. -/
theorem foldl_modified (lines : List Text) (st : Bool × Text) :
    (lines.foldl (removeOverridesStep true true) st).1 = true ↔
      st.1 = true ∨ ∃ line ∈ lines, Counted line := by
  induction lines generalizing st with
  | nil => simp
  | cons line lines ih =>
    rw [List.foldl_cons, ih, List.exists_mem_cons_iff, ← or_assoc]
    refine or_congr_left ?_
    rw [removeOverridesStep, Counted]
    by_cases hfs : startsWith line filesystemsKey
    · have hld := not_both hfs
      by_cases hcount : 0 < (subNegations 0 line).2
      · simp [hfs, hcount]
      · simp [hfs, hld, hcount]
    · by_cases hld : startsWith line ldPreloadKey
      · simp [hfs, hld]
      · simp [hfs, hld]

theorem exists_counted_iff (content : Text) :
    (∃ line ∈ fileLines content, Counted line) ↔ ∃ line ∈ rawLines content, Hit line.1 := by
  rw [fileLines_eq]
  constructor
  · rintro ⟨line, hmem, hcounted⟩
    obtain ⟨raw, hraw, rfl⟩ := List.mem_map.mp hmem
    exact ⟨raw, hraw, (counted_iff (mem_rawLines hraw).1.1 raw.2).mp hcounted⟩
  · rintro ⟨raw, hraw, hhit⟩
    exact ⟨_, List.mem_map_of_mem hraw, (counted_iff (mem_rawLines hraw).1.1 raw.2).mpr hhit⟩

/-- The lines that are left, as they are written. -/
theorem flatten_lineLeft (content : Text) : ((fileLines content).filterMap (lineLeft true true)).flatten
    = (keptLines content).flatMap fun line => editLine line.1 ++ readStop line.2 := by
  have hlines : ∀ lines : List (Text × Text), (∀ line ∈ lines, '\n' ∉ line.1) →
      ((lines.map fun line => line.1 ++ readStop line.2).filterMap (lineLeft true true)).flatten
        = (lines.filter fun line => !startsWith line.1 ldPreloadKey).flatMap
          fun line => editLine line.1 ++ readStop line.2 := by
    intro lines h
    induction lines with
    | nil => rfl
    | cons line lines ih =>
      have ih := ih fun l hl => h l (List.mem_cons_of_mem line hl)
      have hleft := lineLeft_raw (h line List.mem_cons_self) line.2
      rw [List.map_cons]
      by_cases hld : startsWith line.1 ldPreloadKey
      · rw [if_pos hld] at hleft
        rw [List.filterMap_cons_none hleft, ih, List.filter_cons_of_neg (by simp [hld])]
      · rw [if_neg hld] at hleft
        rw [List.filterMap_cons_some hleft, List.flatten_cons, ih, List.filter_cons_of_pos (by simp [hld]),
          List.flatMap_cons]
  rw [fileLines_eq]
  exact hlines _ fun line hline => (mem_rawLines hline).1.1

theorem removeOverrides_hit {content : Text} (h : ∃ line ∈ rawLines content, Hit line.1) :
    removeOverridesFromFile content true true
      = (keptLines content).flatMap fun line => editLine line.1 ++ readStop line.2 := by
  have hmodified := (foldl_modified (fileLines content) (false, [])).mpr
    (.inr ((exists_counted_iff content).mpr h))
  have htext := (foldl_removeOverridesStep true true (fileLines content) (false, [])).1
  rw [removeOverridesFromFile, if_neg (by simp)]
  dsimp only
  rw [if_pos hmodified, htext, List.nil_append, flatten_lineLeft]

theorem removeOverrides_not_hit {content : Text} (h : ¬ ∃ line ∈ rawLines content, Hit line.1) :
    removeOverridesFromFile content true true = content := by
  have hmodified : ¬ ((fileLines content).foldl (removeOverridesStep true true) (false, [])).1 = true := by
    rw [foldl_modified, exists_counted_iff]
    simpa using h
  rw [removeOverridesFromFile, if_neg (by simp)]
  dsimp only
  rw [if_neg hmodified]

/-! ### When the file is what it should be -/

section
variable {content : Text}

theorem mem_keptLines {line : Text × Text} :
    line ∈ keptLines content ↔ line ∈ rawLines content ∧ ¬ startsWith line.1 ldPreloadKey := by
  rw [keptLines, List.mem_filter, Bool.not_eq_true', Bool.not_eq_true]

/-- An item is a part that is not empty. -/
theorem mem_listItems {value e : Text} : e ∈ listItems value ↔ e ∈ value.splitOn ';' ∧ e ≠ [] := by
  rw [listItems, List.mem_filter, decide_eq_true_iff]

theorem not_endsWith_of_not_mem {value : Text}
    (h : ∀ e ∈ value.splitOn ';', endsWith e hostOsNegation → e = hostOsNegation)
    (hnot : hostOsNegation ∉ listItems value) : ∀ e ∈ value.splitOn ';', ¬ endsWith e hostOsNegation := by
  intro e he hends
  have heq := h e he hends
  rw [heq] at he
  exact hnot (mem_listItems.mpr ⟨he, by decide⟩)

theorem edited_editLine {line : Text × Text} (h : ∀ value, line.1 = filesystemsKey ++ value →
    ∀ e ∈ value.splitOn ';', endsWith e hostOsNegation → e = hostOsNegation) :
    Edited line (editLine line.1, line.2) := by
  refine ⟨rfl, ?_⟩
  split
  · next hfs =>
    obtain ⟨value, hvalue⟩ := startsWith_iff.mp hfs
    have hentries := h value hvalue.symm
    refine ⟨value, withoutNegations value, hvalue.symm, ?_, listItems_withoutNegations hentries, ?_⟩
    · rw [editLine, if_pos hfs, ← hvalue, List.drop_left]
    · exact fun hnot => withoutNegations_eq_self (not_endsWith_of_not_mem hentries hnot)
  · next hfs => rw [editLine, if_neg hfs]

theorem edited_self {line : Text × Text} (h : ¬ Hit line.1) : Edited line line := by
  refine ⟨rfl, ?_⟩
  split
  · next hfs =>
    obtain ⟨value, hvalue⟩ := startsWith_iff.mp hfs
    refine ⟨value, value, hvalue.symm, hvalue.symm, ?_, fun _ => rfl⟩
    refine (List.filter_eq_self.mpr fun e he => decide_eq_true ?_).symm
    rintro rfl
    exact h (.inr ⟨value, hvalue.symm, hostOsNegation, (mem_listItems.mp he).1, endsWith_iff.mpr List.suffix_rfl⟩)
  · rfl

theorem hit_of_touched {line : Text} (h : Touched line) : Hit line := by
  rcases h with hld | ⟨value, hvalue, hmem⟩
  · exact .inl hld
  · exact .inr ⟨value, hvalue, hostOsNegation, hmem, endsWith_iff.mpr List.suffix_rfl⟩

theorem Removable.touched (h : Removable content) {line : Text × Text} (hline : line ∈ rawLines content)
    (hhit : Hit line.1) : Touched line.1 := by
  rcases hhit with hld | ⟨value, hvalue, e, he, hends⟩
  · exact .inl hld
  · have heq := h.entries line hline value hvalue e he hends
    exact .inr ⟨value, hvalue, heq ▸ he⟩

theorem intended_of_removable (h : Removable content) :
    Intended content (removeOverridesFromFile content true true) := by
  by_cases hhit : ∃ line ∈ rawLines content, Hit line.1
  · have hstops : ∀ line ∈ keptLines content, readStop line.2 = line.2 := by
      obtain ⟨line, hline, hhit⟩ := hhit
      intro kept hkept
      have hreturn := h.stops ⟨line, hline, h.touched hline hhit⟩ kept hkept
      rcases (mem_rawLines (mem_keptLines.mp hkept).1).2 with hstop | hstop | hstop | hstop
      · rw [hstop]; rfl
      · rw [hstop]; rfl
      · simp [hstop] at hreturn
      · simp [hstop] at hreturn
    refine ⟨(keptLines content).map fun line => (editLine line.1, line.2), ?_, ?_⟩
    · rw [List.forall₂_map_right_iff, List.forall₂_same]
      exact fun line hline => edited_editLine (h.entries line (mem_keptLines.mp hline).1)
    · rw [removeOverrides_hit hhit, List.flatMap_map]
      exact List.flatMap_congr fun line hline => by rw [hstops line hline]
  · rw [removeOverrides_not_hit hhit]
    push Not at hhit
    have hkept : keptLines content = rawLines content := by
      refine List.filter_eq_self.mpr fun line hline => ?_
      rw [Bool.not_eq_true', ← Bool.not_eq_true]
      exact fun hld => hhit line hline (.inl hld)
    refine ⟨rawLines content, ?_, (flatMap_rawLines content).symm⟩
    rw [hkept, List.forall₂_same]
    exact fun line hline => edited_self (hhit line hline)

/-- An edited line is not hit again. -/
theorem not_hit_editLine {line : Text} (hld : ¬ startsWith line ldPreloadKey)
    (h : ∀ value, line = filesystemsKey ++ value →
      ∀ e ∈ value.splitOn ';', endsWith e hostOsNegation → e = hostOsNegation) : ¬ Hit (editLine line) := by
  rw [editLine]
  split
  · next hfs =>
    obtain ⟨value, rfl⟩ := startsWith_iff.mp hfs
    have hentries := h value rfl
    rw [List.drop_left]
    rintro (hld | ⟨value', hvalue', e, he, hends⟩)
    · exact not_both (startsWith_append _ _) hld
    · obtain rfl := List.append_cancel_left hvalue'
      have hne : e ≠ [] := by
        rintro rfl
        exact absurd hends (by decide)
      have hitem := mem_listItems.mpr ⟨he, hne⟩
      rw [listItems_withoutNegations hentries] at hitem
      obtain ⟨hmem, hneg⟩ := List.mem_filter.mp hitem
      exact of_decide_eq_true hneg (hentries e (mem_listItems.mp hmem).1 hends)
  · next hfs =>
    rintro (hld' | ⟨value, rfl, -⟩)
    · exact hld hld'
    · exact hfs (startsWith_append _ _)

theorem not_mem_editLine {c : Char} {line : Text} (hsep : c ≠ ';') (h : c ∉ line) : c ∉ editLine line := by
  rw [editLine]
  split
  · next hfs =>
    obtain ⟨value, rfl, hchars⟩ := exists_value hfs
    rw [List.drop_left, List.mem_append, not_or]
    exact ⟨fun hkey => h (List.mem_append_left _ hkey), not_mem_withoutNegations hsep (hchars c h)⟩
  · exact h

/-- A line that is written again has no carriage return. -/
theorem return_not_mem_left {line : Text} (h : '\r' ∉ line) (stop : Text) :
    '\r' ∉ editLine line ++ readStop stop := by
  have hstop : '\r' ∉ readStop stop := by
    rcases readStop_cases stop with hstop | hstop <;> simp [hstop]
  rw [List.mem_append, not_or]
  exact ⟨not_mem_editLine (by decide) h, hstop⟩

/-- Once edited, the file is left alone. -/
theorem idempotent_of_removable (h : Removable content) :
    removeOverridesFromFile (removeOverridesFromFile content true true) true true
      = removeOverridesFromFile content true true := by
  refine removeOverrides_not_hit ?_
  rw [← exists_counted_iff, fileLines_removeOverridesFromFile, fileLines_eq]
  rintro ⟨line', hline', hcounted⟩
  obtain ⟨line, hline, hleft⟩ := List.mem_filterMap.mp hline'
  obtain ⟨raw, hraw, rfl⟩ := List.mem_map.mp hline
  have hnewline := (mem_rawLines hraw).1.1
  rw [lineLeft_raw hnewline] at hleft
  split at hleft
  · cases hleft
  · next hld =>
    rw [← Option.some.inj hleft, counted_iff (not_mem_editLine (by decide) hnewline)] at hcounted
    exact not_hit_editLine hld (h.entries raw hraw) hcounted

/-! ### What an intended result says of the file -/

/-- The characters of a text that are no separators. -/
def weight (t : Text) : ℕ := t.countP fun c => decide (c ≠ ';')

theorem weight_append (s t : Text) : weight (s ++ t) = weight s + weight t := List.countP_append

theorem weight_flatMap {α : Type} (l : List α) (f : α → Text) :
    weight (l.flatMap f) = (l.map fun a => weight (f a)).sum := List.countP_flatMap

theorem weight_eq_length_flatten (value : Text) : weight value = (value.splitOn ';').flatten.length := by
  induction value with
  | nil => rfl
  | cons c value ih =>
    obtain ⟨e, es, hes⟩ := List.exists_cons_of_ne_nil (List.splitOn_ne_nil ';' value)
    rw [hes] at ih
    rw [List.splitOn_cons_eq_if_modifyHead, hes, weight, List.countP_cons, ← weight, ih]
    by_cases hc : c = ';'
    · simp [hc]
    · simp [hc]

/-- The weight of a list without the entries `!host-os`. -/
def keptWeight (value : Text) : ℕ :=
  ((value.splitOn ';').map fun e => (if e = hostOsNegation then [] else e).length).sum

/-- What is left of a list is not more than should be. -/
theorem weight_withoutNegations_le (value : Text) : weight (withoutNegations value) ≤ keptWeight value := by
  rw [weight_eq_length_flatten, length_splitOn_withoutNegations, keptWeight]
  exact List.sum_le_sum fun e _ => length_removeSuffix_le e

/-- It is as much only if no entry was cut. -/
theorem entries_of_weight_eq {value : Text} (h : weight (withoutNegations value) = keptWeight value) :
    ∀ e ∈ value.splitOn ';', endsWith e hostOsNegation → e = hostOsNegation := by
  intro e he hends
  rw [weight_eq_length_flatten, length_splitOn_withoutNegations, keptWeight] at h
  have heq := eq_of_sum_eq (fun e _ => length_removeSuffix_le e) (Nat.le_of_eq h.symm) e he
  exact eq_of_length_removeSuffix heq hends

theorem weight_readStop_le {line : Text × Text} (hline : line ∈ rawLines content) :
    weight (readStop line.2) ≤ weight line.2 := by
  rcases (mem_rawLines hline).2 with h | h | h | h <;> rw [h] <;> decide

/-- The weight of a line as it should be. -/
def lineWeight (line : Text × Text) : ℕ :=
  (if startsWith line.1 filesystemsKey then
    weight filesystemsKey + keptWeight (line.1.drop filesystemsKey.length)
  else weight line.1) + weight line.2

theorem weight_of_edited (line line' : Text × Text) (h : Edited line line') :
    lineWeight line = weight (line'.1 ++ line'.2) := by
  obtain ⟨hstop, hline⟩ := h
  rw [weight_append, hstop, lineWeight]
  congr 1
  split at hline
  · next hfs =>
    obtain ⟨value, value', hvalue, hvalue', hitems, -⟩ := hline
    rw [if_pos hfs, hvalue, List.drop_left, hvalue', weight_append, weight_eq_length_flatten value',
      length_items hitems, keptWeight]
  · next hfs => rw [if_neg hfs, hline]

theorem weight_editLine_le (line : Text) : weight (editLine line) ≤ lineWeight (line, []) := by
  rw [editLine, lineWeight]
  split
  · have hle := weight_withoutNegations_le (line.drop filesystemsKey.length)
    rw [weight_append]
    dsimp only
    omega
  · exact Nat.le_add_right _ _

theorem lineWeight_eq (line stop : Text) : lineWeight (line, stop) = lineWeight (line, []) + weight stop := rfl

theorem weight_left_le {line : Text × Text} (hline : line ∈ rawLines content) :
    weight (editLine line.1 ++ readStop line.2) ≤ lineWeight line := by
  have hstop := weight_readStop_le hline
  have hle := weight_editLine_le line.1
  rw [weight_append, lineWeight_eq]
  omega

/-- No line of an intended result has lost more than entries `!host-os`. -/
theorem entries_of_lineWeight {line : Text × Text} (hline : line ∈ rawLines content)
    (h : weight (editLine line.1 ++ readStop line.2) = lineWeight line) :
    ∀ value, line.1 = filesystemsKey ++ value →
      ∀ e ∈ value.splitOn ';', endsWith e hostOsNegation → e = hostOsNegation := by
  intro value hvalue
  refine entries_of_weight_eq ?_
  have hle := weight_withoutNegations_le value
  have hstop := weight_readStop_le hline
  rw [weight_append, editLine, lineWeight, hvalue, if_pos (startsWith_append _ _),
    if_pos (startsWith_append _ _), List.drop_left, weight_append] at h
  omega

theorem removable_of_intended (h : Intended content (removeOverridesFromFile content true true)) :
    Removable content := by
  obtain ⟨lines', hedited, hresult⟩ := h
  by_cases hhit : ∃ line ∈ rawLines content, Hit line.1
  · rw [removeOverrides_hit hhit] at hresult
    have hsum := congrArg weight hresult
    rw [weight_flatMap, weight_flatMap, ← Pointwise.map_eq hedited weight_of_edited] at hsum
    have hweight := eq_of_sum_eq (fun line hline => weight_left_le (mem_keptLines.mp hline).1)
      (Nat.le_of_eq hsum.symm)
    constructor
    · intro line hline value hvalue
      have hkept : line ∈ keptLines content :=
        mem_keptLines.mpr ⟨hline, not_both (hvalue ▸ startsWith_append _ _)⟩
      exact entries_of_lineWeight hline (hweight line hkept) value hvalue
    · -- A file that is written again has no carriage return.
      intro _ line hline hreturn
      obtain ⟨line', hline', hstop, -⟩ := Pointwise.exists_of_mem hedited hline
      have hmem : '\r' ∈ lines'.flatMap fun line => line.1 ++ line.2 :=
        List.mem_flatMap.mpr ⟨line', hline', List.mem_append_right _ (hstop ▸ hreturn)⟩
      rw [← hresult] at hmem
      obtain ⟨kept, hkept, hmem⟩ := List.mem_flatMap.mp hmem
      exact return_not_mem_left (mem_rawLines (mem_keptLines.mp hkept).1).1.2 kept.2 hmem
  · push Not at hhit
    constructor
    · intro line hline value hvalue e he hends
      exact absurd (.inr ⟨value, hvalue, e, he, hends⟩) (hhit line hline)
    · rintro ⟨line, hline, htouched⟩
      exact absurd (hit_of_touched htouched) (hhit line hline)

/-- CORRECT: a file has exactly what is to be taken out taken out, once and for all, if `!host-os` ends no
    other entry and no line end has to be rewritten. -/
theorem removeOverrides_iff (content : Text) :
    (Intended content (removeOverridesFromFile content true true) ∧
      removeOverridesFromFile (removeOverridesFromFile content true true) true true
        = removeOverridesFromFile content true true ∧
      removeOverridesFromFile content false false = content) ↔ Removable content :=
  ⟨fun h => removable_of_intended h.1, fun h => ⟨intended_of_removable h, idempotent_of_removable h, rfl⟩⟩

/-- A directory whose name ends in `!host-os`. -/
def backupFile : Text := "[Context]\nfilesystems=~/backup!host-os;xdg-music;\n"

/-- `~/backup!host-os` and `xdg-music` become the one entry `~/backupxdg-music`. -/
theorem not_intended_backupFile :
    ¬ (Intended backupFile (removeOverridesFromFile backupFile true true) ∧
      removeOverridesFromFile (removeOverridesFromFile backupFile true true) true true
        = removeOverridesFromFile backupFile true true ∧
      removeOverridesFromFile backupFile false false = backupFile) := by
  rintro ⟨hintended, -⟩
  have hentries := (removable_of_intended hintended).entries
    ("filesystems=~/backup!host-os;xdg-music;".toList, ['\n']) (by decide +kernel)
    "~/backup!host-os;xdg-music;".toList (by decide +kernel) "~/backup!host-os".toList (by decide +kernel)
  exact absurd (hentries (by decide +kernel)) (by decide +kernel)

end

end Flatpak
