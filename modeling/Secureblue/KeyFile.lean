import Secureblue.Py.Text

/-! Key files: sections of `key=value` lines.

    Blanks before a line, before the `=` and behind it do not count, and of several entries with one
    key the last one does. A rewriting of the lines that keeps headers and keys acts on the entries of
    each key by itself (`keyLines_filterMap`). -/

namespace KeyFile
open Py

def blank (c : Char) : Bool := decide (c ∈ [' ', '\t', '\n', '\r'])

/-- The name in a line `[name]`. -/
def header (line : Text) : Option Text :=
  let line := (line.dropWhile blank).rdropWhile blank
  if startsWith line ['['] ∧ endsWith line [']'] then some (line.drop 1).dropLast else none

/-- The key of a line `key=value`, and what is behind the `=`. -/
def entry (line : Text) : Option (Text × Text) :=
  let line := removeSuffix (line.dropWhile blank) ['\n']
  if startsWith line ['#'] then none
  else
    match partition '=' line with
    | (_, [], _) => none
    | (key, _, value) => some (key.rdropWhile blank, value)

/-- The lines of a section, from a line in the section `current` on. -/
def sectionLines (name : Text) : Option Text → List Text → List Text
  | _, [] => []
  | current, line :: lines =>
    match header line with
    | some name' => sectionLines name (some name') lines
    | none =>
      if current = some name then line :: sectionLines name current lines
      else sectionLines name current lines

/-- The lines of a section that have a key. -/
def keyLines (name key : Text) (lines : List Text) : List Text :=
  (sectionLines name none lines).filter fun line => decide ((entry line).map Prod.fst = some key)

/-- The value of the line of an entry. -/
def valueOf (line : Text) : Option Text := (entry line).map fun e => e.2.dropWhile blank

def value (name key : Text) (lines : List Text) : Option Text :=
  (keyLines name key lines).getLast?.bind valueOf

/-! ### Lines -/

theorem header_of_head {c : Char} (hblank : blank c = false) (hc : c ≠ '[') (line : Text) :
    header (c :: line) = none := by
  rw [header, List.dropWhile_cons_of_neg (by simp [hblank]), if_neg]
  rintro ⟨hstart, -⟩
  obtain ⟨t, ht⟩ := startsWith_iff.mp hstart
  have hhead : (c :: line).head? = some '[' := by
    obtain ⟨u, hu⟩ := List.rdropWhile_prefix blank (c :: line)
    rw [← hu, ← ht]
    rfl
  exact hc (Option.some.inj hhead)

/-- A line with nothing around the key. -/
theorem entry_line {key : Text} (hkey : ∀ c ∈ key, blank c = false ∧ c ≠ '=')
    (hhash : ∀ c ∈ key.head?, c ≠ '#') (hne : key ≠ []) (rest : Text) :
    entry (key ++ '=' :: rest) = some (key, removeSuffix rest ['\n']) := by
  have hdrop : (key ++ '=' :: rest).dropWhile blank = key ++ '=' :: rest := by
    cases key with
    | nil => exact absurd rfl hne
    | cons c key => exact List.dropWhile_cons_of_neg (by simp [(hkey c List.mem_cons_self).1])
  have hremove : removeSuffix (key ++ '=' :: rest) ['\n'] = key ++ '=' :: removeSuffix rest ['\n'] := by
    rcases List.eq_nil_or_concat rest with rfl | ⟨t, c, rfl⟩
    · rw [removeSuffix, if_neg]
      · rfl
      · rw [endsWith_iff, List.singleton_suffix_iff_getLast?_eq_some]
        simp
    · rw [List.concat_eq_append, ← List.cons_append, ← List.append_assoc]
      rcases eq_or_ne c '\n' with rfl | hc
      · rw [removeSuffix_append, removeSuffix_append]
      · have hends : ∀ u : Text, ¬ endsWith (u ++ [c]) ['\n'] := fun u hu =>
          hc (Option.some.inj (by simpa [endsWith_iff, List.singleton_suffix_iff_getLast?_eq_some] using hu))
        rw [removeSuffix, if_neg (hends _), removeSuffix, if_neg (hends t), List.append_assoc]
        rfl
  have hskip : ¬ startsWith (key ++ '=' :: removeSuffix rest ['\n']) ['#'] := by
    intro hstart
    obtain ⟨t, ht⟩ := startsWith_iff.mp hstart
    cases key with
    | nil => exact absurd rfl hne
    | cons c key => exact hhash c rfl (List.cons_eq_cons.mp ht).1.symm
  have hlast : key.rdropWhile blank = key := by
    rw [List.rdropWhile_eq_self_iff]
    exact fun h => by simp [(hkey _ (List.getLast_mem h)).1]
  simp only [entry, hdrop, hremove]
  rw [if_neg hskip, partition_append fun hmem => (hkey _ hmem).2 rfl]
  dsimp only
  rw [hlast]

theorem mem_of_mem_sectionLines {name line : Text} : ∀ {lines : List Text} {current : Option Text},
    line ∈ sectionLines name current lines → line ∈ lines
  | [], _, h => h
  | l :: lines, current, h => by
      rw [sectionLines] at h
      split at h
      · exact List.mem_cons_of_mem l (mem_of_mem_sectionLines h)
      · split at h
        · rcases List.mem_cons.mp h with rfl | h
          · exact List.mem_cons_self
          · exact List.mem_cons_of_mem l (mem_of_mem_sectionLines h)
        · exact List.mem_cons_of_mem l (mem_of_mem_sectionLines h)

theorem mem_keyLines {name key line : Text} {lines : List Text} (h : line ∈ keyLines name key lines) :
    line ∈ lines ∧ (entry line).map Prod.fst = some key := by
  obtain ⟨hmem, hkey⟩ := List.mem_filter.mp h
  exact ⟨mem_of_mem_sectionLines hmem, of_decide_eq_true hkey⟩

/-! ### Rewriting the lines -/

section
variable {f : Text → Option Text}

theorem sectionLines_filterMap (hsome : ∀ line line', f line = some line' → header line' = header line)
    (hnone : ∀ line, f line = none → header line = none) (name : Text) :
    ∀ (lines : List Text) (current : Option Text),
      sectionLines name current (lines.filterMap f) = (sectionLines name current lines).filterMap f
  | [], _ => rfl
  | line :: lines, current => by
      have ih := sectionLines_filterMap hsome hnone name lines
      rcases hf : f line with _ | line'
      · rw [List.filterMap_cons_none hf, ih, sectionLines, hnone line hf]
        dsimp only
        split
        · rw [List.filterMap_cons_none hf]
        · rfl
      · rw [List.filterMap_cons_some hf, sectionLines, sectionLines, hsome line line' hf]
        split
        · exact ih _
        · split
          · rw [List.filterMap_cons_some hf, ih]
          · exact ih _

/-- The rewriting goes through to the entries of a key. -/
theorem keyLines_filterMap (hsome : ∀ line line', f line = some line' → header line' = header line)
    (hnone : ∀ line, f line = none → header line = none)
    (hkey : ∀ line line', f line = some line' → (entry line').map Prod.fst = (entry line).map Prod.fst)
    (name key : Text) (lines : List Text) :
    keyLines name key (lines.filterMap f) = (keyLines name key lines).filterMap f := by
  rw [keyLines, keyLines, sectionLines_filterMap hsome hnone]
  induction sectionLines name none lines with
  | nil => rfl
  | cons line lines ih =>
    rcases hf : f line with _ | line'
    · rw [List.filterMap_cons_none hf, ih, List.filter_cons]
      split
      · rw [List.filterMap_cons_none hf]
      · rfl
    · rw [List.filterMap_cons_some hf, List.filter_cons, List.filter_cons, hkey line line' hf, ih]
      split
      · rw [List.filterMap_cons_some hf]
      · rfl

end

end KeyFile
