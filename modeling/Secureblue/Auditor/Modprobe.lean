import Mathlib
import Secureblue.Auditor.Report
import Secureblue.Py.Dict

/-! The check for overrides of blocked kernel modules (`audit_modprobe`), with the list of loaded
    modules (`loaded_kernel_modules`).

    The names of blocked modules are collected in a list, over all files, and the loaded ones among
    them are reported. A name that is blocked twice is in the list twice, so the check says what it is
    for exactly when no loaded module is blocked more than once (`reportsOnce_iff`). -/

namespace Modprobe
open Py Auditor

/-! ### The code -/

/-- The commands that block a module. -/
def commands : List Text := ["blacklist", "install"]

/-- `/proc/modules` uses underscores in place of hyphens. -/
def underscored (name : Text) : Text := replace name ['-'] ['_']

/-- The loop body of `audit_modprobe` over the lines, or `none` for an `IndexError`. The words after
    the second one are not read. -/
def blockStep (blockedModules : List Text) (line : Text) : Option (List Text) :=
  match words (strip line) with
  | [] => some blockedModules
  | command :: rest =>
    if command ∈ commands then
      match rest with
      | [] => none
      | name :: _ => some (blockedModules ++ [underscored name])
    else some blockedModules

/-- The loop over the files, on their contents. -/
def blockedModules (files : List Text) : Option (List Text) :=
  files.foldlM (fun acc conf => (fileLines conf).foldlM blockStep acc) []

/-- `loaded_kernel_modules`, on the content of `/proc/modules`: the first word of each line, or `none`
    for an `IndexError`. -/
def loadedKernelModules (procModules : Text) : Option (List Text) :=
  (fileLines procModules).mapM fun line => (words line).head?

def modprobeDir : Text := "/usr/lib/modprobe.d"

/-- `_("The module {0} is blocked in {1}, but has been loaded anyway.")` -/
def loadedAnyway (mod : Text) : Note :=
  ⟨("The module " : Text) ++ mod ++ " is blocked in " ++ modprobeDir ++ ", but has been loaded anyway.",
    some .fail⟩

def bluetooth : Text := "bluetooth"

def bluetoothLoaded : Text := "bluetooth_loaded"

/-- The loop body of `audit_modprobe` over the unwanted modules, on `status` and `notes`. -/
def reportStep (st : Status × List Note) (mod : Text) : Status × List Note :=
  (.fail, st.2 ++ [loadedAnyway mod])

/-- `audit_modprobe`, on the contents of `modprobe_files` and of `/proc/modules`: the report, and the
    state that it leaves. -/
def auditModprobe (files : List Text) (procModules : Text) (state : Dict Text Bool) :
    Option (Report × Dict Text Bool) := do
  let blocked ← blockedModules files
  let loaded ← loadedKernelModules procModules
  let unwanted := (blocked.filter (· ∈ loaded)).insertionSort (· ≤ ·)
  let (status, notes) := unwanted.foldl reportStep (.pass, [])
  return (⟨"Ensuring no modprobe overrides", status, notes, []⟩,
    state.set bluetoothLoaded (bluetooth ∈ unwanted))

/-! ### What the check is for -/

/-- The module that a line blocks. -/
def blockedBy (line : Text) : Option Text :=
  match words line with
  | command :: name :: _ => if command ∈ commands then some (underscored name) else none
  | _ => none

/-- The modules that the files block, one for each line that blocks one. -/
def entries (files : List Text) : List Text := files.flatMap fun conf => (fileLines conf).filterMap blockedBy

/-- A line that blocks, without a name. -/
def Unnamed (line : Text) : Prop := ∃ command ∈ commands, words line = [command]

/-- What is said of a module that is loaded all the same. -/
def blockedNote (mod : Text) : Text :=
  "The module " ++ mod ++ " is blocked in " ++ "/usr/lib/modprobe.d" ++ ", but has been loaded anyway."

/-- Every loaded module that is blocked is reported once, in order, and nothing else is; the status is
    `FAIL` if there is one, and the state says whether bluetooth is among them. -/
def ReportsOnce (files loaded : List Text) (outcome : Option (Report × Dict Text Bool)) : Prop :=
  let Unwanted (mod : Text) := mod ∈ loaded ∧ ∃ conf ∈ files, ∃ line ∈ fileLines conf,
    blockedBy line = some mod
  ∃ report state, outcome = some (report, state) ∧
    (∃ mods : List Text, mods.Pairwise (· < ·) ∧ (∀ mod, mod ∈ mods ↔ Unwanted mod) ∧
      report.notes = mods.map fun mod => ⟨blockedNote mod, some .fail⟩) ∧
    (report.status = .fail ↔ ∃ mod, Unwanted mod) ∧
    ∃ flag, state.get bluetoothLoaded = some flag ∧ (flag ↔ Unwanted bluetooth)

/-! ### The lines -/

theorem mem_entries {files : List Text} {mod : Text} :
    mod ∈ entries files ↔ ∃ conf ∈ files, ∃ line ∈ fileLines conf, blockedBy line = some mod := by
  simp [entries]

theorem blockStep_unnamed {line : Text} (h : Unnamed line) (acc : List Text) :
    blockStep acc line = none := by
  obtain ⟨command, hcommand, hwords⟩ := h
  simp only [blockStep, words_strip, hwords, if_pos hcommand]

theorem blockStep_named {line : Text} (h : ¬ Unnamed line) (acc : List Text) :
    blockStep acc line = some (acc ++ (blockedBy line).toList) := by
  rw [blockStep, blockedBy, words_strip]
  cases hwords : words line with
  | nil => simp
  | cons command rest =>
    by_cases hcommand : command ∈ commands
    · cases rest with
      | nil => exact absurd ⟨command, hcommand, hwords⟩ h
      | cons name more => simp [hcommand]
    · cases rest <;> simp [hcommand]

/-- The loop over the lines of a file collects the modules that they block. -/
theorem foldlM_blockStep {lines : List Text} (h : ∀ line ∈ lines, ¬ Unnamed line) (acc : List Text) :
    lines.foldlM blockStep acc = some (acc ++ lines.filterMap blockedBy) := by
  induction lines generalizing acc with
  | nil => simp
  | cons line lines ih =>
    have hstep := blockStep_named (h line List.mem_cons_self) acc
    rw [List.foldlM_cons, hstep, Option.bind_eq_bind, Option.bind_some,
      ih fun l hl => h l (List.mem_cons_of_mem line hl)]
    cases hline : blockedBy line <;> simp [hline]

theorem foldlM_blockStep_unnamed {lines : List Text} {line : Text} (hmem : line ∈ lines)
    (h : Unnamed line) (acc : List Text) : lines.foldlM blockStep acc = none := by
  obtain ⟨before, after, rfl⟩ := List.append_of_mem hmem
  rw [List.foldlM_append]
  cases before.foldlM blockStep acc with
  | none => rfl
  | some acc' => simp [blockStep_unnamed h]

theorem blockedModules_eq {files : List Text} (h : ∀ conf ∈ files, ∀ line ∈ fileLines conf, ¬ Unnamed line) :
    blockedModules files = some (entries files) := by
  suffices hacc : ∀ acc, files.foldlM (fun acc conf => (fileLines conf).foldlM blockStep acc) acc
      = some (acc ++ entries files) from hacc []
  intro acc
  induction files generalizing acc with
  | nil => simp [entries]
  | cons conf files ih =>
    rw [List.foldlM_cons, foldlM_blockStep (h conf List.mem_cons_self), Option.bind_eq_bind, Option.bind_some,
      ih fun c hc => h c (List.mem_cons_of_mem conf hc)]
    simp [entries]

theorem blockedModules_unnamed {files : List Text} {conf line : Text} (hconf : conf ∈ files)
    (hline : line ∈ fileLines conf) (h : Unnamed line) : blockedModules files = none := by
  obtain ⟨before, after, rfl⟩ := List.append_of_mem hconf
  rw [blockedModules, List.foldlM_append]
  cases before.foldlM (fun acc conf => (fileLines conf).foldlM blockStep acc) [] with
  | none => rfl
  | some acc => simp [foldlM_blockStep_unnamed hline h]

/-! ### The report -/

theorem loadedAnyway_eq (mod : Text) : loadedAnyway mod = ⟨blockedNote mod, some .fail⟩ := rfl

theorem blockedNote_injective : Function.Injective blockedNote := by
  intro a b h
  have hmod := List.append_cancel_right (List.append_cancel_right (List.append_cancel_right h))
  exact List.append_cancel_left hmod

theorem foldl_reportStep (mods : List Text) (st : Status × List Note) :
    mods.foldl reportStep st
      = (if mods = [] then st.1 else .fail, st.2 ++ mods.map loadedAnyway) := by
  induction mods generalizing st with
  | nil => simp
  | cons mod mods ih => rw [List.foldl_cons, ih]; simp [reportStep]

/-- The unwanted modules, as often as they are blocked. -/
def unwanted (files loaded : List Text) : List Text :=
  ((entries files).filter (· ∈ loaded)).insertionSort (· ≤ ·)

theorem mem_unwanted {files loaded : List Text} {mod : Text} :
    mod ∈ unwanted files loaded ↔ mod ∈ loaded ∧ ∃ conf ∈ files, ∃ line ∈ fileLines conf,
      blockedBy line = some mod := by
  rw [unwanted, List.mem_insertionSort, List.mem_filter, mem_entries, decide_eq_true_iff, and_comm]

theorem auditModprobe_eq {files loaded : List Text} {procModules : Text}
    (hloaded : loadedKernelModules procModules = some loaded)
    (h : ∀ conf ∈ files, ∀ line ∈ fileLines conf, ¬ Unnamed line) (state : Dict Text Bool) :
    auditModprobe files procModules state
      = some (⟨"Ensuring no modprobe overrides", if unwanted files loaded = [] then .pass else .fail,
          (unwanted files loaded).map loadedAnyway, []⟩,
        state.set bluetoothLoaded (bluetooth ∈ unwanted files loaded)) := by
  rw [auditModprobe, blockedModules_eq h, hloaded]
  simp only [Option.bind_eq_bind, Option.bind_some, foldl_reportStep, List.nil_append]
  rfl

/-- A sorted list is strictly sorted if no entry is in it twice. -/
theorem unwanted_strict_iff (files loaded : List Text) :
    (unwanted files loaded).Pairwise (· < ·) ↔ ∀ mod ∈ loaded, (entries files).count mod ≤ 1 := by
  have hperm := List.perm_insertionSort (· ≤ ·) ((entries files).filter (· ∈ loaded))
  have hsorted : (unwanted files loaded).Pairwise (· ≤ ·) := List.pairwise_insertionSort _ _
  have hnodup : (unwanted files loaded).Nodup ↔ ∀ mod ∈ loaded, (entries files).count mod ≤ 1 := by
    rw [unwanted, hperm.nodup_iff, List.nodup_iff_count_le_one]
    constructor
    · intro h mod hmod
      have hcount := h mod
      rwa [List.count_filter (by simpa using hmod)] at hcount
    · intro h mod
      by_cases hmod : mod ∈ loaded
      · rw [List.count_filter (by simpa using hmod)]
        exact h mod hmod
      · have hnot : mod ∉ (entries files).filter (· ∈ loaded) := by simp [hmod]
        rw [List.count_eq_zero_of_not_mem hnot]
        omega
  rw [← hnodup]
  constructor
  · intro h
    exact h.imp fun hlt => ne_of_lt hlt
  · intro h
    exact (hsorted.and h).imp fun hle => lt_of_le_of_ne hle.1 hle.2

/-- Nothing is reported after an `IndexError`. -/
theorem not_reportsOnce_of_unnamed {files loaded : List Text} {conf line : Text} (hconf : conf ∈ files)
    (hline : line ∈ fileLines conf) (h : Unnamed line) (procModules : Text) (state : Dict Text Bool) :
    ¬ ReportsOnce files loaded (auditModprobe files procModules state) := by
  rw [auditModprobe, blockedModules_unnamed hconf hline h]
  rintro ⟨report, state', heq, -⟩
  cases heq

/-- The notes name a module as often as it is blocked. -/
theorem count_le_one_of_reportsOnce {files loaded : List Text} {procModules : Text}
    (hloaded : loadedKernelModules procModules = some loaded)
    (h : ∀ conf ∈ files, ∀ line ∈ fileLines conf, ¬ Unnamed line) {state : Dict Text Bool}
    (honce : ReportsOnce files loaded (auditModprobe files procModules state)) :
    ∀ mod ∈ loaded, (entries files).count mod ≤ 1 := by
  obtain ⟨report, state', heq, ⟨mods, hmods, -, hnotes⟩, -⟩ := honce
  rw [auditModprobe_eq hloaded h, Option.some.injEq, Prod.mk.injEq] at heq
  rw [← heq.1] at hnotes
  have hsame : unwanted files loaded = mods := by
    have hinjective : Function.Injective fun mod => (⟨blockedNote mod, some .fail⟩ : Note) :=
      fun a b h => blockedNote_injective (Note.mk.inj h).1
    exact List.map_injective_iff.mpr hinjective hnotes
  exact (unwanted_strict_iff files loaded).mp (hsame ▸ hmods)

/-- CORRECT: the check reports every loaded module that is blocked exactly once if and only if every
    line that blocks has a name and no loaded module is blocked by two lines. -/
theorem reportsOnce_iff {loaded : List Text} {procModules : Text}
    (hloaded : loadedKernelModules procModules = some loaded) (files : List Text)
    (state : Dict Text Bool) :
    ReportsOnce files loaded (auditModprobe files procModules state) ↔
      (∀ conf ∈ files, ∀ line ∈ fileLines conf, ¬ Unnamed line) ∧
      ∀ mod ∈ loaded, (entries files).count mod ≤ 1 := by
  constructor
  · intro honce
    have hnamed : ∀ conf ∈ files, ∀ line ∈ fileLines conf, ¬ Unnamed line :=
      fun conf hconf line hline h => not_reportsOnce_of_unnamed hconf hline h procModules state honce
    exact ⟨hnamed, count_le_one_of_reportsOnce hloaded hnamed honce⟩
  · rintro ⟨hnamed, hcount⟩
    have hunwanted := @mem_unwanted files loaded
    refine ⟨_, _, auditModprobe_eq hloaded hnamed state, ?_, ?_, ?_⟩
    · exact ⟨unwanted files loaded, (unwanted_strict_iff files loaded).mpr hcount, fun _ => hunwanted,
        List.map_congr_left fun mod _ => loadedAnyway_eq mod⟩
    · by_cases hnil : unwanted files loaded = []
      · simp only [hnil, if_true, reduceCtorEq, false_iff]
        rintro ⟨mod, hmod⟩
        have hmem := hunwanted.mpr hmod
        rw [hnil] at hmem
        cases hmem
      · obtain ⟨mod, hmod⟩ := List.exists_mem_of_ne_nil _ hnil
        simp only [hnil, if_false, true_iff]
        exact ⟨mod, hunwanted.mp hmod⟩
    · refine ⟨decide (bluetooth ∈ unwanted files loaded), ?_, ?_⟩
      · rw [Dict.get_set, if_pos rfl]
      · rw [decide_eq_true_iff]
        exact hunwanted

/-- Lines of the shipped configuration, which names some modules twice. -/
def twice : List Text :=
  ["install zd1301_demod /bin/false\ninstall zl10036 /bin/false\ninstall zd1301_demod /bin/false\n"]

def oneLoaded : Text := "zd1301_demod 16384 0 - Live 0x0000000000000000\n"

def zd1301 : List Text := ["zd1301_demod"]

theorem loaded_oneLoaded : loadedKernelModules oneLoaded = some zd1301 := by decide +kernel

theorem not_reportsOnce_twice : ¬ ReportsOnce twice zd1301 (auditModprobe twice oneLoaded ∅) := by
  have hnamed : ∀ conf ∈ twice, ∀ line ∈ fileLines conf, ¬ Unnamed line := by
    unfold Unnamed
    decide +kernel
  intro honce
  have hcount := count_le_one_of_reportsOnce loaded_oneLoaded hnamed honce "zd1301_demod" List.mem_cons_self
  revert hcount
  decide +kernel

/-- A module that one line blocks. -/
def once : List Text := ["install zd1301-demod /bin/false\n", "blacklist zl10036\n"]

theorem reportsOnce_once : ReportsOnce once zd1301 (auditModprobe once oneLoaded ∅) := by
  refine (reportsOnce_iff loaded_oneLoaded once ∅).mpr ⟨?_, ?_⟩
  · unfold Unnamed
    decide +kernel
  · decide +kernel

end Modprobe
