import Secureblue.Auditor.Report
import Secureblue.Flatpak.Monotone
import Secureblue.Pointwise
import Secureblue.Py.Dict
import Secureblue.Py.Int

/-! The check for overrides of kernel settings (`audit_sysctl`), with the parser of the configuration
    (`parse_config`) and the comparison of values (`normalize_sysctl`, `validate_sysctl`).

    A run goes through the settings, and through the files of a setting up to the first finding. The
    status of the report is a running variable. It is the most severe one of the notes, except that the
    note on the kernel fault resets it, whatever was found before (`status_iff`). Only the text of the
    kernel is normalised, so that a configured value in another layout than the normal one is reported
    although the kernel has it (`pass_iff`). -/

namespace Sysctl
open Py Auditor

/-! ### The code -/

/-- The settings of the kernel: the paths that `glob.iglob` yields for a pattern, and the content of a
    file, which is `none` for a `PermissionError`. -/
structure ProcSys where
  iglob : Text → List Text
  read : Text → Option Text

/-- The loop body of `parse_config`. -/
def parseConfigLine (config : Dict Text Text) (rawLine : Text) : Dict Text Text :=
  let line := strip rawLine
  if '=' ∉ line ∨ startsWith line "#" ∨ startsWith line "[" then config
  else
    let (key, _, value) := partition '=' line
    config.set (strip key) (strip value)

/-- `parse_config` -/
def parseConfig (stream : List Text) : Dict Text Text := stream.foldl parseConfigLine ∅

/-- `re.sub(r"\s+", " ", s)`; `inRun` is whether the character before belongs to a run. -/
def collapse : Bool → Text → Text
  | _, [] => []
  | inRun, c :: cs =>
    if isSpace c then if inRun then collapse true cs else ' ' :: collapse true cs
    else c :: collapse false cs

/-- `replacements` -/
def replacements : List (Text × Text) := [("disabled", "0"), ("enabled", "1")]

/-- `normalize_sysctl` -/
def normalizeSysctl (sysctl : Text) : Text :=
  let result := collapse false (strip sysctl)
  (replacements.lookup result).getD result

def sysrq : Text := "kernel.sysrq"

def ptraceScope : Text := "kernel.yama.ptrace_scope"

def printk : Text := "kernel.printk"

/-- The value of `kernel.printk` after a kernel fault. -/
def faultValue : Text := "15 3 3 3"

section
variable (decimal : Char → Option ℕ) (proc : ProcSys)

/-- `validate_sysctl`, or `none` for a `ValueError`. -/
def validateSysctl (sysctl actual expected : Text) : Option Bool :=
  if sysctl = sysrq then some (decide (actual ∈ [expected, "0", "4"]))
  else if sysctl = ptraceScope then do
    let actual ← Py.int decimal actual
    let expected ← Py.int decimal expected
    return decide (actual ≥ expected)
  else some (decide (actual = expected))

/-- `_("{0} should be {1}, but is actually {2}.")` -/
def shouldBe (sysctl expected actual : Text) : Text :=
  sysctl ++ " should be " ++ expected ++ ", but is actually " ++ actual ++ "."

/-- `_("This is likely due to a kernel fault, as documented in `{0}`.")` -/
def kernelFault : Text := "This is likely due to a kernel fault, as documented in `man 2 syslog`."

/-- The local variables of `audit_sysctl`. -/
structure Findings where
  status : Status := .pass
  notes : List Note := []
  permissionError : Bool := false

/-- The loop over the files of a setting. -/
def checkFiles (sysctl expected : Text) : List Text → Findings → Option Findings
  | [], st => some st
  | path :: paths, st =>
    match proc.read path with
    | none =>
      checkFiles sysctl expected paths
        { st with status := st.status.downgradeTo .info, permissionError := true }
    | some content =>
      let actual := normalizeSysctl content
      if sysctl = printk ∧ actual = faultValue then
        let note := shouldBe sysctl expected actual ++ '\n' :: kernelFault
        some { st with status := .warn, notes := st.notes ++ [⟨note, some .warn⟩] }
      else match validateSysctl decimal sysctl actual expected with
        | none => none
        | some true => checkFiles sysctl expected paths st
        | some false =>
          some { st with
            status := .fail
            notes := st.notes ++ [⟨shouldBe sysctl expected actual, some .fail⟩] }

/-- `sysctl_path` -/
def sysctlPath (sysctl : Text) : Text := ("/proc/sys/" : Text) ++ replace sysctl ['.'] ['/']

/-- The loop over the settings. -/
def checkSettings (settings : List (Text × Text)) (st : Findings) : Option Findings :=
  settings.foldlM (fun st e => checkFiles decimal proc e.1 e.2 (proc.iglob (sysctlPath e.1)) st) st

/-- The settings of a configuration text. -/
def settingsOf (conf : Text) : List (Text × Text) := (parseConfig (fileLines conf)).items

/-- `audit_sysctl` for the text of `55-hardening.conf`, or `none` if it raises a `ValueError`. -/
def auditSysctl (conf : Text) : Option Report := do
  let st ← checkSettings decimal proc (settingsOf conf) {}
  let unreadable : Note := ⟨"Unable to read some sysctl settings. Run as root for full info.", some .info⟩
  let notes := if st.permissionError then st.notes ++ [unreadable] else st.notes
  return { description := "Ensuring no sysctl overrides", status := st.status, notes, recs := [] }

/-! ### What is found for a setting -/

/-- What the files of a setting come to: a note that ends the loop over them, and whether a file before
    it could not be read. -/
structure Outcome where
  note : Option Note
  unreadable : Bool

/-- The outcome of a setting by itself. -/
def settingOutcome (sysctl expected : Text) : List Text → Option Outcome
  | [] => some ⟨none, false⟩
  | path :: paths =>
    match proc.read path with
    | none => (settingOutcome sysctl expected paths).map fun o => { o with unreadable := true }
    | some content =>
      let actual := normalizeSysctl content
      if sysctl = printk ∧ actual = faultValue then
        some ⟨some ⟨shouldBe sysctl expected actual ++ '\n' :: kernelFault, some .warn⟩, false⟩
      else match validateSysctl decimal sysctl actual expected with
        | none => none
        | some true => settingOutcome sysctl expected paths
        | some false => some ⟨some ⟨shouldBe sysctl expected actual, some .fail⟩, false⟩

end

/-- A setting's outcome added to what was found before. -/
def Findings.add (st : Findings) (o : Outcome) : Findings where
  status := (o.note.bind Note.status).getD (if o.unreadable then st.status.downgradeTo .info else st.status)
  notes := st.notes ++ o.note.toList
  permissionError := st.permissionError || o.unreadable

section
variable {decimal : Char → Option ℕ} {proc : ProcSys}

theorem Findings.add_unreadable (st : Findings) (o : Outcome) :
    st.add { o with unreadable := true } =
      Findings.add { st with status := st.status.downgradeTo .info, permissionError := true } o := by
  have hinfo : ∀ s : Status, (s.downgradeTo .info).downgradeTo .info = s.downgradeTo .info := by
    intro s
    simp only [Status.downgradeTo_eq_max, max_assoc, max_self]
  simp only [Findings.add, if_true, hinfo, ite_self, Bool.or_true, Bool.true_or]

/-- The loop over the files adds the outcome. -/
theorem checkFiles_eq (sysctl expected : Text) : ∀ (paths : List Text) (st : Findings),
    checkFiles decimal proc sysctl expected paths st =
      (settingOutcome decimal proc sysctl expected paths).map st.add
  | [], st => by simp [checkFiles, settingOutcome, Findings.add]
  | path :: paths, st => by
      rw [checkFiles, settingOutcome]
      cases proc.read path with
      | none =>
        simp only [checkFiles_eq sysctl expected paths, Option.map_map]
        congr 1
        funext o
        exact (st.add_unreadable o).symm
      | some content =>
        dsimp only
        split
        · simp [Findings.add]
        · cases validateSysctl decimal sysctl (normalizeSysctl content) expected with
          | none => rfl
          | some valid =>
            cases valid with
            | true => exact checkFiles_eq sysctl expected paths st
            | false => simp [Findings.add]

/-- The outcomes of the settings, if none of them raises an exception. -/
def outcomes (decimal : Char → Option ℕ) (proc : ProcSys) (settings : List (Text × Text)) :
    Option (List Outcome) :=
  settings.mapM fun e => settingOutcome decimal proc e.1 e.2 (proc.iglob (sysctlPath e.1))

/-- The loop over the settings adds their outcomes one after another. -/
theorem checkSettings_eq : ∀ (settings : List (Text × Text)) (st : Findings),
    checkSettings decimal proc settings st = (outcomes decimal proc settings).map (·.foldl Findings.add st)
  | [], st => rfl
  | e :: settings, st => by
      rw [checkSettings, List.foldlM_cons, checkFiles_eq, outcomes, List.mapM_cons]
      cases settingOutcome decimal proc e.1 e.2 (proc.iglob (sysctlPath e.1)) with
      | none => rfl
      | some o =>
        have ih := checkSettings_eq settings (st.add o)
        rw [checkSettings, outcomes] at ih
        simp only [Option.map_some, Option.bind_eq_bind, Option.bind_some, ih]
        cases settings.mapM fun e => settingOutcome decimal proc e.1 e.2 (proc.iglob (sysctlPath e.1)) <;> rfl

/-! ### The running status -/

/-- The status of the note of an outcome. -/
def Outcome.status (o : Outcome) : Option Status := o.note.bind Note.status

/-- The most severe status of the notes, with the one that unreadable files will get. -/
def Findings.severity (st : Findings) : Status :=
  max (Flatpak.mostSevere (st.notes.filterMap Note.status)) (if st.permissionError then .info else .pass)

/-- After a failure a warning resets the status, and no failure follows. -/
def Reset (statuses : List (Option Status)) : Prop :=
  ∃ before after, statuses = before ++ some .warn :: after ∧ some .fail ∈ before ∧ some .fail ∉ after

theorem reset_concat (statuses : List (Option Status)) (s : Option Status) :
    Reset (statuses ++ [s]) ↔
      s = some .warn ∧ some .fail ∈ statuses ∨ s ≠ some .fail ∧ Reset statuses := by
  constructor
  · rintro ⟨before, after, h, hbefore, hafter⟩
    rcases List.eq_nil_or_concat after with rfl | ⟨after, last, rfl⟩
    · obtain ⟨rfl, hs⟩ := List.append_inj' h rfl
      exact Or.inl ⟨List.singleton_inj.mp hs, hbefore⟩
    · rw [List.concat_eq_append, ← List.cons_append, ← List.append_assoc] at h
      obtain ⟨hstatuses, hs⟩ := List.append_inj' h rfl
      obtain rfl := List.singleton_inj.mp hs
      rw [List.concat_eq_append, List.mem_append, List.mem_singleton, not_or] at hafter
      exact Or.inr ⟨Ne.symm hafter.2, before, after, hstatuses, hbefore, hafter.1⟩
  · rintro (⟨rfl, h⟩ | ⟨hs, before, after, rfl, hbefore, hafter⟩)
    · exact ⟨statuses, [], rfl, h, List.not_mem_nil⟩
    · refine ⟨before, after ++ [s], by simp, hbefore, ?_⟩
      rw [List.mem_append, List.mem_singleton, not_or]
      exact ⟨hafter, Ne.symm hs⟩

theorem Reset.mem_fail {statuses : List (Option Status)} (h : Reset statuses) : some .fail ∈ statuses := by
  obtain ⟨before, after, rfl, hbefore, -⟩ := h
  exact List.mem_append_left _ hbefore

/-- Unreadable files count for less than a note. -/
def Outcome.permission (o : Outcome) : Status := if o.unreadable then .info else .pass

theorem Outcome.permission_le (o : Outcome) : o.permission ≤ .info := by
  rw [permission]
  split <;> decide

theorem severity_add (st : Findings) (o : Outcome) :
    (st.add o).severity = max st.severity (max (o.status.getD .pass) o.permission) := by
  have hinfo : ∀ a b : Bool, max (if a then Status.info else .pass) (if b then .info else .pass) =
      if a || b then Status.info else .pass := by decide
  have hnotes : Flatpak.mostSevere ((st.notes ++ o.note.toList).filterMap Note.status) =
      max (Flatpak.mostSevere (st.notes.filterMap Note.status)) (o.status.getD .pass) := by
    rw [List.filterMap_append, Outcome.status]
    cases o.note with
    | none => simp
    | some note =>
      cases hs : note.status with
      | none => simp [hs]
      | some s => simp [hs, Flatpak.mostSevere_concat]
  change max (Flatpak.mostSevere ((st.notes ++ o.note.toList).filterMap Note.status))
    (if st.permissionError || o.unreadable then .info else .pass) = _
  rw [hnotes, ← hinfo, max_max_max_comm, Findings.severity, Outcome.permission]

/-- An outcome has no note, or one that warns or fails. -/
def Outcome.Graded (o : Outcome) : Prop :=
  o.status = none ∧ o.note = none ∨ o.status = some .warn ∨ o.status = some .fail

/-- What the loop keeps: how the running status and the notes go together after some outcomes. -/
structure Tracked (statuses : List (Option Status)) (st : Findings) : Prop where
  reset : Reset statuses → st.status = .warn
  kept : ¬Reset statuses → st.status = st.severity
  failed : some .fail ∈ statuses → st.severity = .fail
  unfailed : some .fail ∉ statuses → st.severity ≤ .warn

theorem Tracked.init : Tracked [] {} where
  reset := fun ⟨_, _, h, _⟩ => absurd h (by simp)
  kept := fun _ => rfl
  failed := fun h => absurd h List.not_mem_nil
  unfailed := fun _ => by decide

theorem Tracked.severity_le {statuses : List (Option Status)} {st : Findings} (h : Tracked statuses st) :
    st.severity ≤ .fail := by
  by_cases hfail : some Status.fail ∈ statuses
  · rw [h.failed hfail]
  · exact (h.unfailed hfail).trans (by decide)

theorem status_add (st : Findings) (o : Outcome) :
    (st.add o).status = o.status.getD (max st.status o.permission) := by
  have hmax : (if o.unreadable then st.status.downgradeTo .info else st.status) = max st.status o.permission := by
    rw [Outcome.permission]
    split
    · exact Status.downgradeTo_eq_max _ _
    · exact (Status.max_pass _).symm
  rw [Findings.add, hmax, Outcome.status]

/-- One more outcome keeps it. -/
theorem Tracked.add {statuses : List (Option Status)} {st : Findings} (h : Tracked statuses st) {o : Outcome}
    (ho : o.Graded) : Tracked (statuses ++ [o.status]) (st.add o) := by
  have hsev := severity_add st o
  have hstatus := status_add st o
  have hinfo := o.permission_le
  have hwarn : o.permission ≤ .warn := hinfo.trans (by decide)
  have hfail : o.permission ≤ .fail := hinfo.trans (by decide)
  rcases ho with ⟨hs, -⟩ | hs | hs
  · -- no note: status and severity are joined with one status
    rw [hs, Option.getD_none] at hsev hstatus
    rw [max_eq_right (Status.pass_le _)] at hsev
    rw [hs]
    have hmem : some Status.fail ∈ statuses ++ [none] ↔ some Status.fail ∈ statuses := by simp
    refine ⟨fun hr => ?_, fun hr => ?_, fun hf => ?_, fun hf => ?_⟩
    · have hr := (reset_concat _ _).mp hr
      rw [hstatus, h.reset (by simpa using hr), max_eq_left hwarn]
    · have hr := mt (reset_concat statuses none).mpr hr
      rw [hstatus, hsev, h.kept (by simpa using hr)]
    · rw [hsev, h.failed (hmem.mp hf), max_eq_left hfail]
    · rw [hsev]
      exact max_le (h.unfailed (mt hmem.mpr hf)) hwarn
  · -- a warning: the status is reset, the severity only joined
    rw [hs, Option.getD_some] at hsev hstatus
    rw [max_eq_left hwarn] at hsev
    rw [hs]
    have hmem : some Status.fail ∈ statuses ++ [some .warn] ↔ some Status.fail ∈ statuses := by simp
    refine ⟨fun _ => hstatus, fun hr => ?_, fun hf => ?_, fun hf => ?_⟩
    · have hnot : some Status.fail ∉ statuses := fun hf => hr ((reset_concat _ _).mpr (Or.inl ⟨rfl, hf⟩))
      rw [hstatus, hsev, max_eq_right (h.unfailed hnot)]
    · rw [hsev, h.failed (hmem.mp hf)]
      decide
    · rw [hsev]
      exact max_le (h.unfailed (mt hmem.mpr hf)) le_rfl
  · -- a failure: both are that
    rw [hs, Option.getD_some] at hsev hstatus
    rw [max_eq_left hfail, max_eq_right h.severity_le] at hsev
    rw [hs]
    refine ⟨fun hr => ?_, fun _ => hstatus.trans hsev.symm, fun _ => hsev, fun hf => ?_⟩
    · have hr := (reset_concat _ _).mp hr
      simp at hr
    · exact absurd (List.mem_append_right statuses List.mem_cons_self) hf

theorem Tracked.foldl : ∀ {os : List Outcome} {statuses : List (Option Status)} {st : Findings},
    Tracked statuses st → (∀ o ∈ os, o.Graded) →
    Tracked (statuses ++ os.map Outcome.status) (os.foldl Findings.add st)
  | [], statuses, st, h, _ => by simpa using h
  | o :: os, statuses, st, h, hos => by
      have hadd := (h.add (hos o List.mem_cons_self)).foldl fun o' ho' => hos o' (List.mem_cons_of_mem o ho')
      simpa using hadd

/-- The status is the severity unless it was reset. -/
theorem Tracked.eq_severity_iff {statuses : List (Option Status)} {st : Findings} (h : Tracked statuses st) :
    st.status = st.severity ↔ ¬Reset statuses := by
  refine ⟨fun hst hr => ?_, h.kept⟩
  rw [h.reset hr, h.failed hr.mem_fail] at hst
  exact absurd hst (by decide)

end

/-! ### The outcome of a setting in terms of its files -/

section
variable (decimal : Char → Option ℕ) (proc : ProcSys)

/-- The file shows the value after a kernel fault. -/
def ShowsFault (sysctl path : Text) : Prop :=
  sysctl = printk ∧ ∃ content, proc.read path = some content ∧ normalizeSysctl content = faultValue

/-- The file is readable and has a value that is not valid. -/
def Differs (sysctl expected path : Text) : Prop :=
  ¬ShowsFault proc sysctl path ∧ ∃ content, proc.read path = some content ∧
    validateSysctl decimal sysctl (normalizeSysctl content) expected = some false

/-- Nothing is found in the file. -/
def Passes (sysctl expected path : Text) : Prop :=
  ¬ShowsFault proc sysctl path ∧ ∀ content, proc.read path = some content →
    validateSysctl decimal sysctl (normalizeSysctl content) expected = some true

/-- The first file of a setting in which something is found is of a kind. -/
def First (kind : Text → Prop) (e : Text × Text) (paths : List Text) : Prop :=
  ∃ before path after, paths = before ++ path :: after ∧
    (∀ p ∈ before, Passes decimal proc e.1 e.2 p) ∧ kind path

/-- The setting is found to have the value after a kernel fault. -/
def Faulted (e : Text × Text) : Prop :=
  First decimal proc (ShowsFault proc e.1) e (proc.iglob (sysctlPath e.1))

/-- The setting is found to have another value than the configured one. -/
def Mismatched (e : Text × Text) : Prop :=
  First decimal proc (Differs decimal proc e.1 e.2) e (proc.iglob (sysctlPath e.1))

/-- The kernel fault is found after a mismatch of an earlier setting, and none of a later one. -/
def ResetBySettings (settings : List (Text × Text)) : Prop :=
  ∃ before e after, settings = before ++ e :: after ∧ Faulted decimal proc e ∧
    (∃ e' ∈ before, Mismatched decimal proc e') ∧ ∀ e' ∈ after, ¬Mismatched decimal proc e'

end

section
variable {decimal : Char → Option ℕ} {proc : ProcSys}

theorem first_nil {kind : Text → Prop} {e : Text × Text} : ¬First decimal proc kind e [] := by
  rintro ⟨before, path, after, h, -⟩
  simp at h

theorem first_cons {kind : Text → Prop} {e : Text × Text} {path : Text} {paths : List Text} :
    First decimal proc kind e (path :: paths) ↔
      kind path ∨ Passes decimal proc e.1 e.2 path ∧ First decimal proc kind e paths := by
  constructor
  · rintro ⟨before, p, after, h, hbefore, hp⟩
    cases before with
    | nil =>
      obtain ⟨rfl, -⟩ := List.cons.inj h
      exact Or.inl hp
    | cons q before =>
      obtain ⟨rfl, rfl⟩ := List.cons.inj h
      exact Or.inr ⟨hbefore _ List.mem_cons_self, before, p, after, rfl,
        fun q hq => hbefore q (List.mem_cons_of_mem _ hq), hp⟩
  · rintro (h | ⟨hpath, before, p, after, rfl, hbefore, hp⟩)
    · exact ⟨[], path, paths, rfl, fun _ h => absurd h List.not_mem_nil, h⟩
    · exact ⟨path :: before, p, after, rfl, List.forall_mem_cons.mpr ⟨hpath, hbefore⟩, hp⟩

/-- What the outcome says about the files, and that it is graded. -/
structure Reflects (decimal : Char → Option ℕ) (proc : ProcSys) (e : Text × Text) (paths : List Text)
    (o : Outcome) : Prop where
  warn : o.status = some .warn ↔ First decimal proc (ShowsFault proc e.1) e paths
  fail : o.status = some .fail ↔ First decimal proc (Differs decimal proc e.1 e.2) e paths
  graded : o.Graded

/-- A file in which nothing is found can be left out. -/
theorem Reflects.cons {e : Text × Text} {path : Text} {paths : List Text} {o : Outcome}
    (h : Reflects decimal proc e paths o) (hpath : Passes decimal proc e.1 e.2 path) :
    Reflects decimal proc e (path :: paths) o where
  warn := by
    rw [h.warn, first_cons]
    exact ⟨fun hf => Or.inr ⟨hpath, hf⟩, fun hf => hf.elim (fun hs => absurd hs hpath.1) And.right⟩
  fail := by
    rw [h.fail, first_cons]
    refine ⟨fun hf => Or.inr ⟨hpath, hf⟩, fun hf => hf.elim ?_ And.right⟩
    rintro ⟨-, content, hread, hvalid⟩
    cases (hpath.2 content hread).symm.trans hvalid
  graded := h.graded

theorem settingOutcome_reflects {e : Text × Text} : ∀ {paths : List Text} {o : Outcome},
    settingOutcome decimal proc e.1 e.2 paths = some o → Reflects decimal proc e paths o
  | [], o, h => by
      cases h
      exact ⟨⟨nofun, fun h => absurd h first_nil⟩, ⟨nofun, fun h => absurd h first_nil⟩, Or.inl ⟨rfl, rfl⟩⟩
  | path :: paths, o, h => by
      rw [settingOutcome] at h
      cases hread : proc.read path with
      | none =>
        rw [hread] at h
        obtain ⟨o', ho', rfl⟩ := Option.map_eq_some_iff.mp h
        have hreflects := settingOutcome_reflects ho'
        have hnone : ∀ content, proc.read path ≠ some content := fun content hc => by
          cases hread.symm.trans hc
        have hpath : Passes decimal proc e.1 e.2 path :=
          ⟨fun ⟨_, content, hc, _⟩ => hnone content hc, fun content hc => absurd hc (hnone content)⟩
        obtain ⟨hwarn, hfail, hgraded⟩ := hreflects.cons hpath
        exact ⟨hwarn, hfail, hgraded⟩
      | some content =>
        rw [hread] at h
        dsimp only at h
        have hfault : ShowsFault proc e.1 path ↔ e.1 = printk ∧ normalizeSysctl content = faultValue := by
          simp [ShowsFault, hread]
        split at h
        · next hf =>
          cases h
          have hf := hfault.mpr hf
          refine ⟨⟨fun _ => first_cons.mpr (Or.inl hf), fun _ => rfl⟩, ⟨nofun, fun h => ?_⟩, Or.inr (Or.inl rfl)⟩
          rcases first_cons.mp h with hd | ⟨hp, -⟩
          · exact absurd hf hd.1
          · exact absurd hf hp.1
        · next hf =>
          have hf := mt hfault.mp hf
          split at h
          · cases h
          · next hvalid =>
            refine (settingOutcome_reflects h).cons ⟨hf, fun content' hc => ?_⟩
            cases hread.symm.trans hc
            exact hvalid
          · next hvalid =>
            cases h
            have hd : Differs decimal proc e.1 e.2 path := ⟨hf, content, hread, hvalid⟩
            refine ⟨⟨nofun, fun h => ?_⟩, ⟨fun _ => first_cons.mpr (Or.inl hd), fun _ => rfl⟩, Or.inr (Or.inr rfl)⟩
            rcases first_cons.mp h with hs | ⟨hp, -⟩
            · exact absurd hs hf
            · cases (hp.2 content hread).symm.trans hvalid

/-! ### The report -/

/-- Each setting has its outcome, if there is one for all. -/
theorem outcomes_eq_some_iff : ∀ {settings : List (Text × Text)} {os : List Outcome},
    outcomes decimal proc settings = some os ↔
      List.Forall₂ (fun e o => settingOutcome decimal proc e.1 e.2 (proc.iglob (sysctlPath e.1)) = some o)
        settings os
  | [], os => by
      rw [outcomes, List.mapM_nil, List.forall₂_nil_left_iff]
      exact ⟨fun h => (Option.some.inj h).symm, fun h => congrArg some h.symm⟩
  | e :: settings, os => by
      rw [outcomes, List.mapM_cons, List.forall₂_cons_left_iff]
      simp only [Option.bind_eq_bind, Option.bind_eq_some_iff]
      constructor
      · rintro ⟨o, ho, os', hos', h⟩
        exact ⟨o, os', ho, outcomes_eq_some_iff.mp hos', (Option.some.inj h).symm⟩
      · rintro ⟨o, os', ho, hos', rfl⟩
        exact ⟨o, ho, os', outcomes_eq_some_iff.mpr hos', rfl⟩

/-- The status is reset by the settings in which a file shows so. -/
theorem reset_iff {settings : List (Text × Text)} {os : List Outcome}
    (h : List.Forall₂ (fun e o => Reflects decimal proc e (proc.iglob (sysctlPath e.1)) o) settings os) :
    Reset (os.map Outcome.status) ↔ ResetBySettings decimal proc settings := by
  have hmem : ∀ {settings os}, List.Forall₂ (fun e o => Reflects decimal proc e (proc.iglob (sysctlPath e.1)) o)
      settings os → (some Status.fail ∈ os.map Outcome.status ↔ ∃ e ∈ settings, Mismatched decimal proc e) := by
    intro settings os h
    induction h with
    | nil => simp
    | cons ho _ ih => simp [ih, Mismatched, ← ho.fail, eq_comm]
  constructor
  · rintro ⟨before, after, hsplit, hbefore, hafter⟩
    obtain ⟨os₁, os', rfl, rfl, hos'⟩ := List.map_eq_append_iff.mp hsplit
    obtain ⟨o, os₂, rfl, ho, rfl⟩ := List.map_eq_cons_iff.mp hos'
    obtain ⟨es₁, es', h₁, h', rfl⟩ := Pointwise.exists_of_append h
    cases h' with
    | cons hreflects h₂ =>
      refine ⟨es₁, _, _, rfl, hreflects.warn.mp ho, (hmem h₁).mp hbefore, fun e' he' hm => ?_⟩
      exact hafter ((hmem h₂).mpr ⟨e', he', hm⟩)
  · rintro ⟨es₁, e, es₂, rfl, he, hbefore, hafter⟩
    obtain ⟨os₁, os', h₁, h', rfl⟩ := Pointwise.exists_of_append h.flip
    cases h' with
    | cons hreflects h₂ =>
      have h₁ := h₁.flip
      have h₂ := h₂.flip
      refine ⟨os₁.map Outcome.status, _, by rw [List.map_append, List.map_cons, hreflects.warn.mpr he],
        (hmem h₁).mpr hbefore, fun hf => ?_⟩
      obtain ⟨e', he', hm⟩ := (hmem h₂).mp hf
      exact hafter e' he' hm

/-- What is reported: the status of the findings, and their severity as the one of the notes. -/
theorem auditSysctl_eq_some {conf : Text} {report : Report} (h : auditSysctl decimal proc conf = some report) :
    ∃ st, checkSettings decimal proc (settingsOf conf) {} = some st ∧ report.status = st.status ∧
      Flatpak.mostSevere (report.notes.filterMap Note.status) = st.severity ∧
      (report.notes = [] → st.notes = [] ∧ st.permissionError = false) := by
  rw [auditSysctl] at h
  simp only [Option.bind_eq_bind, Option.bind_eq_some_iff] at h
  obtain ⟨st, hst, h⟩ := h
  cases h
  refine ⟨st, hst, rfl, ?_⟩
  rw [Findings.severity]
  cases hp : st.permissionError with
  | true =>
    rw [if_pos rfl, List.filterMap_append]
    exact ⟨Flatpak.mostSevere_concat .info _, fun h => absurd h (by simp)⟩
  | false =>
    simp only [Bool.false_eq_true, if_false, Status.max_pass, and_true, true_and]
    exact id

/-- CORRECT: the status of the report is the most severe one of its notes, exactly if it was not reset.
    A failure of one setting is lowered by the kernel fault of a later one. -/
theorem status_iff {conf : Text} {report : Report} (h : auditSysctl decimal proc conf = some report) :
    report.status = Flatpak.mostSevere (report.notes.filterMap Note.status) ↔
      ¬ResetBySettings decimal proc (settingsOf conf) := by
  obtain ⟨st, hst, hstatus, hseverity, -⟩ := auditSysctl_eq_some h
  rw [checkSettings_eq] at hst
  obtain ⟨os, hos, rfl⟩ := Option.map_eq_some_iff.mp hst
  have hforall := (outcomes_eq_some_iff.mp hos).imp fun _ _ => settingOutcome_reflects
  have hgraded : ∀ o ∈ os, o.Graded :=
    ((List.forall₂_and_left _ _).mp (hforall.flip.imp fun _ _ ho => ⟨ho.graded, ho⟩)).1
  have htracked := Tracked.init.foldl hgraded
  rw [hstatus, hseverity, htracked.eq_severity_iff, List.nil_append, reset_iff hforall]

/-- A file for each of some settings. -/
def ProcSys.ofFiles (files : List (Text × Text)) : ProcSys where
  iglob pattern := (files.filter (·.1 = pattern)).map Prod.fst
  read path := files.lookup path

/-- Two settings, in the order of the shipped file. -/
def twoSettings : Text := "kernel.kptr_restrict = 2\nkernel.printk = 3 3 3 3\n"

/-- A mismatch, and the value after a kernel fault. -/
def mismatchAndFault : ProcSys :=
  .ofFiles [("/proc/sys/kernel/kptr_restrict", "0\n"), ("/proc/sys/kernel/printk", "15\t3\t3\t3\n")]

/-- What is reported for them. -/
def twoNotes : Report where
  description := "Ensuring no sysctl overrides"
  status := .warn
  notes :=
    [⟨shouldBe "kernel.kptr_restrict" "2" "0", some .fail⟩,
      ⟨shouldBe printk "3 3 3 3" faultValue ++ '\n' :: kernelFault, some .warn⟩]
  recs := []

theorem auditSysctl_twoSettings :
    auditSysctl (fun _ => none) mismatchAndFault twoSettings = some twoNotes := by decide +kernel

/-- The two settings reset the status, since it is not the most severe one. -/
theorem status_iff_twoSettings : twoNotes.status = Flatpak.mostSevere (twoNotes.notes.filterMap Note.status) ↔
    ¬ResetBySettings (fun _ => none) mismatchAndFault (settingsOf twoSettings) :=
  status_iff auditSysctl_twoSettings

/-- The failure of the first setting is lowered to a warning by the second. -/
theorem twoSettings_lowered : ∃ report, auditSysctl (fun _ => none) mismatchAndFault twoSettings = some report ∧
    report.status = .warn ∧ .fail ∈ report.notes.filterMap Note.status ∧
    report.status ≠ Flatpak.mostSevere (report.notes.filterMap Note.status) :=
  ⟨twoNotes, auditSysctl_twoSettings, by decide⟩

end

/-! ### Normalised values -/

def disabled : Text := "disabled"

def enabled : Text := "enabled"

/-- The fields of a value, with one spelling for the two that have a synonym. -/
def canonicalFields (value : Text) : List Text :=
  if words value = [disabled] then ["0"]
  else if words value = [enabled] then ["1"]
  else words value

/-- The values are the same up to the white space between fields, and up to the synonyms. -/
def SameValue (a b : Text) : Prop := canonicalFields a = canonicalFields b

theorem collapse_of_space {c : Char} (hc : isSpace c) (s : Text) :
    collapse true (c :: s) = collapse true s ∧ collapse false (c :: s) = ' ' :: collapse true s := by
  simp [collapse, hc]

theorem collapse_of_not_space {c : Char} (hc : isSpace c = false) (b : Bool) (s : Text) :
    collapse b (c :: s) = c :: collapse false s := by
  simp [collapse, hc]

/-- Collapsing leaves the fields, with a blank before them if there was white space. -/
theorem collapse_words : ∀ {s : Text}, (∀ c ∈ s.getLast?, isSpace c = false) →
    collapse true s = [' '].intercalate (words s) ∧
      collapse false s = (if s.head?.any isSpace then [' '] else []) ++ [' '].intercalate (words s)
  | [], _ => ⟨rfl, rfl⟩
  | [c], h => by
      have hc : isSpace c = false := h c rfl
      simp [collapse, hc, words_singleton]
  | c :: d :: s, h => by
      have hlast : ∀ e ∈ (d :: s).getLast?, isSpace e = false :=
        fun e he => h e (by rwa [List.getLast?_cons_cons])
      obtain ⟨htrue, hfalse⟩ := collapse_words hlast
      cases hc : isSpace c with
      | true =>
        obtain ⟨h₁, h₂⟩ := collapse_of_space hc (d :: s)
        rw [h₁, h₂, htrue, words_cons_space hc]
        simp [hc]
      | false =>
        have hfields : c :: collapse false (d :: s) = [' '].intercalate (words (c :: d :: s)) := by
          rw [hfalse]
          cases hd : isSpace d with
          | true =>
            -- the field ends here, and another one follows
            have hlast' : s ≠ [] := by
              rintro rfl
              cases (hlast d rfl).symm.trans hd
            have hne := words_ne_nil (hlast _ (List.getLast?_cons_of_ne_nil hlast' ▸
              List.getLast?_eq_some_getLast hlast')) (List.getLast_mem hlast')
            obtain ⟨w, ws, hw⟩ := List.exists_cons_of_ne_nil hne
            have hcw : words (c :: d :: s) = words [c] ++ words s := words_append_cons [c] s hd
            have hc' : words [c] = [[c]] := words_singleton (by simpa using hc) (by simp)
            rw [hcw, hc', words_cons_space hd, hw]
            simp [hd, List.intercalate]
          | false =>
            obtain ⟨w, ws, hw, hcw⟩ := words_cons_cons hc hd s
            rw [hw, hcw]
            cases ws <;> simp [hd, List.intercalate]
        rw [collapse_of_not_space hc, collapse_of_not_space hc, hfields]
        simp [hc]

theorem words_join_words (s : Text) : words ([' '].intercalate (words s)) = words s := by
  rw [words_join fun t ht => (mem_words ht).2, List.filter_eq_self]
  exact fun t ht => decide_eq_true (mem_words ht).1

/-- The fields of a value are known from the text of them. -/
theorem join_words_eq_iff {s t : Text} (ht : words t = [t]) :
    [' '].intercalate (words s) = t ↔ words s = [t] := by
  constructor
  · intro h
    rw [← ht, ← h, words_join_words]
  · intro h
    simp [h]

/-- A normalised value is its fields with blanks between them. -/
theorem normalizeSysctl_eq (value : Text) :
    normalizeSysctl value = [' '].intercalate (canonicalFields value) := by
  have hcollapse : collapse false (strip value) = [' '].intercalate (words value) := by
    have hhead : (strip value).head?.any isSpace = false := by
      cases h : (strip value).head? with
      | none => rfl
      | some c => exact head_strip value c h
    rw [(collapse_words (getLast_strip value)).2, hhead, words_strip]
    rfl
  have hdisabled : words disabled = [disabled] := words_singleton (by decide) (by decide)
  have henabled : words enabled = [enabled] := words_singleton (by decide) (by decide)
  have hlookup : ∀ result, replacements.lookup result =
      if result = disabled then some ("0" : Text) else if result = enabled then some ("1" : Text) else none := by
    intro result
    rw [replacements, List.lookup_cons, List.lookup_cons, List.lookup_nil]
    by_cases hd : result = disabled
    · rw [if_pos hd, hd]
      rfl
    · have hd' : (result == ("disabled" : Text)) = false := beq_false_of_ne hd
      rw [if_neg hd, hd']
      by_cases he : result = enabled
      · rw [if_pos he, he]
        rfl
      · have he' : (result == ("enabled" : Text)) = false := beq_false_of_ne he
        rw [if_neg he, he']
  rw [normalizeSysctl, hcollapse, hlookup, canonicalFields]
  simp only [join_words_eq_iff hdisabled, join_words_eq_iff henabled]
  by_cases hd : words value = [disabled]
  · rw [if_pos hd, if_pos hd]
    rfl
  · rw [if_neg hd, if_neg hd]
    by_cases he : words value = [enabled]
    · rw [if_pos he, if_pos he]
      rfl
    · rw [if_neg he, if_neg he]
      rfl

theorem SameValue.normalize {a b : Text} (h : SameValue a b) : normalizeSysctl a = normalizeSysctl b := by
  rw [normalizeSysctl_eq, normalizeSysctl_eq, h]

/-- An integer literal is its own normal form, white space around it apart. -/
theorem normalizeSysctl_of_int {decimal : Char → Option ℕ} {value : Text} {n : ℤ}
    (h : Py.int decimal value = some n) : normalizeSysctl value = strip value := by
  have hchars := isIntChar_of_int h
  have hne : strip value ≠ [] := by
    intro hnil
    rw [Py.int, hnil] at h
    cases h
  have hwords : words value = [strip value] := by
    rw [← words_strip]
    exact words_singleton (fun c hc => (hchars c hc).not_space) hne
  have hletter : ∀ c ∈ strip value, c ≠ 'd' := by
    rintro c hc rfl
    exact not_isIntChar_of_ascii (by decide) (by decide) (by decide) (hchars 'd' hc)
  have hdisabled : words value ≠ [disabled] := fun h =>
    hletter 'd' (List.singleton_inj.mp (hwords.symm.trans h) ▸ by decide) rfl
  have henabled : words value ≠ [enabled] := fun h =>
    hletter 'd' (List.singleton_inj.mp (hwords.symm.trans h) ▸ by decide) rfl
  rw [normalizeSysctl_eq, canonicalFields, if_neg hdisabled, if_neg henabled, hwords]
  simp

theorem int_strip (decimal : Char → Option ℕ) (s : Text) : Py.int decimal (strip s) = Py.int decimal s := by
  rw [Py.int, strip_strip, ← Py.int]

/-! ### A report without notes -/

section
variable {decimal : Char → Option ℕ} {proc : ProcSys}

/-- Nothing is found for a setting. -/
def Outcome.clean : Outcome := ⟨none, false⟩

/-- The report if nothing is found. -/
def passReport : Report where
  description := "Ensuring no sysctl overrides"
  status := .pass
  notes := []
  recs := []

theorem foldl_add (os : List Outcome) : ∀ st : Findings,
    (os.foldl Findings.add st).notes = st.notes ++ os.flatMap (·.note.toList) ∧
      (os.foldl Findings.add st).permissionError = (st.permissionError || os.any (·.unreadable)) := by
  induction os with
  | nil => simp
  | cons o os ih =>
    intro st
    obtain ⟨hnotes, hunreadable⟩ := ih (st.add o)
    rw [List.foldl_cons, hnotes, hunreadable]
    simp [Findings.add, Bool.or_assoc]

theorem eq_clean_of_mem {os : List Outcome} (hnotes : (os.foldl Findings.add {}).notes = [])
    (hunreadable : (os.foldl Findings.add {}).permissionError = false) {o : Outcome} (ho : o ∈ os) :
    o = .clean := by
  obtain ⟨h₁, h₂⟩ := foldl_add os {}
  rw [h₁] at hnotes
  rw [h₂] at hunreadable
  have hn : o.note = none := by simpa using List.flatMap_eq_nil_iff.mp (List.append_eq_nil_iff.mp hnotes).2 o ho
  have hu : o.unreadable = false := by simpa using List.any_eq_false.mp (Bool.or_eq_false_iff.mp hunreadable).2 o ho
  rw [Outcome.clean, ← hn, ← hu]

/-- The report is without notes exactly if nothing is found for any setting. -/
theorem auditSysctl_eq_pass_iff {conf : Text} : auditSysctl decimal proc conf = some passReport ↔
    ∀ e ∈ settingsOf conf, settingOutcome decimal proc e.1 e.2 (proc.iglob (sysctlPath e.1)) = some .clean := by
  have hclean : (∀ e ∈ settingsOf conf,
      settingOutcome decimal proc e.1 e.2 (proc.iglob (sysctlPath e.1)) = some .clean) ↔
      outcomes decimal proc (settingsOf conf) = some ((settingsOf conf).map fun _ => .clean) := by
    rw [outcomes_eq_some_iff, List.forall₂_map_right_iff, List.forall₂_same]
  rw [hclean]
  constructor
  · intro h
    obtain ⟨st, hst, -, -, hpass⟩ := auditSysctl_eq_some h
    obtain ⟨hn, hu⟩ := hpass rfl
    rw [checkSettings_eq] at hst
    obtain ⟨os, hos, rfl⟩ := Option.map_eq_some_iff.mp hst
    have hos' : os = List.replicate (settingsOf conf).length .clean :=
      List.eq_replicate_iff.mpr ⟨(outcomes_eq_some_iff.mp hos).length_eq.symm, fun o ho => eq_clean_of_mem hn hu ho⟩
    rw [hos, hos', List.map_const']
  · intro h
    rw [auditSysctl, checkSettings_eq, h, Option.map_some, List.foldl_map, List.foldl_fixed' fun _ => rfl]
    rfl

/-- The assignment in a line, if it has one. -/
def assignment (rawLine : Text) : Option (Text × Text) :=
  let line := strip rawLine
  if '=' ∉ line ∨ startsWith line "#" ∨ startsWith line "[" then none
  else some (strip (partition '=' line).1, strip (partition '=' line).2.2)

/-- The value that is configured for a setting: the one of its last assignment. -/
def configured (conf sysctl : Text) : Option Text := lastWins ((fileLines conf).filterMap assignment) sysctl

theorem parseConfigLine_eq (config : Dict Text Text) (rawLine : Text) :
    parseConfigLine config rawLine = (assignment rawLine).elim config fun e => config.set e.1 e.2 := by
  rw [parseConfigLine, assignment]
  split <;> rfl

theorem mem_settingsOf {conf sysctl value : Text} :
    (sysctl, value) ∈ settingsOf conf ↔ configured conf sysctl = some value := by
  have hparse : ∀ (stream : List Text) (config : Dict Text Text),
      stream.foldl parseConfigLine config = config.update (stream.filterMap assignment) := by
    intro stream
    induction stream with
    | nil => intro config; rfl
    | cons rawLine stream ih =>
      intro config
      rw [List.foldl_cons, ih, parseConfigLine_eq]
      cases h : assignment rawLine with
      | none => rw [List.filterMap_cons_none h, Option.elim_none]
      | some e => rw [List.filterMap_cons_some h, Option.elim_some, Dict.update_cons]
  rw [settingsOf, parseConfig, hparse, configured, ← Dict.get_ofList]
  exact ⟨Dict.get_of_mem_items, Dict.mem_items_of_get⟩

/-- Every file of a configured setting that can be read holds the configured value. -/
def HoldsConfigured (proc : ProcSys) (conf : Text) : Prop :=
  ∀ sysctl value, configured conf sysctl = some value → ∀ path ∈ proc.iglob (sysctlPath sysctl),
    ∀ content ∈ proc.read path, SameValue content value

instance instDecidableSameValue (a b : Text) : Decidable (SameValue a b) :=
  inferInstanceAs (Decidable (canonicalFields a = canonicalFields b))

theorem holdsConfigured_iff {conf : Text} : HoldsConfigured proc conf ↔ ∀ e ∈ settingsOf conf,
    ∀ path ∈ proc.iglob (sysctlPath e.1), ∀ content ∈ proc.read path, SameValue content e.2 := by
  rw [HoldsConfigured, Prod.forall]
  simp only [mem_settingsOf]

instance instDecidableHoldsConfigured (conf : Text) : Decidable (HoldsConfigured proc conf) :=
  decidable_of_iff' _ holdsConfigured_iff

/-- A value that compares well with its own normal form. -/
def Comparable (decimal : Char → Option ℕ) (sysctl value : Text) : Prop :=
  if sysctl = sysrq then normalizeSysctl value ∈ [value, "0", "4"]
  else if sysctl = ptraceScope then ∃ n, Py.int decimal value = some n
  else normalizeSysctl value = value ∧ ¬(sysctl = printk ∧ value = faultValue)

theorem validateSysctl_normalize {sysctl value : Text} (h : ¬(sysctl = printk ∧ normalizeSysctl value = faultValue)) :
    validateSysctl decimal sysctl (normalizeSysctl value) value = some true ↔ Comparable decimal sysctl value := by
  rw [validateSysctl, Comparable]
  split
  · simp
  · split
    · constructor
      · intro hvalid
        obtain ⟨actual, -, hvalid⟩ := Option.bind_eq_some_iff.mp hvalid
        obtain ⟨expected, hexpected, -⟩ := Option.bind_eq_some_iff.mp hvalid
        exact ⟨expected, hexpected⟩
      · rintro ⟨n, hn⟩
        rw [normalizeSysctl_of_int hn, int_strip, hn]
        simp
    · simp only [Option.some.injEq, decide_eq_true_eq]
      refine ⟨fun hv => ⟨hv, fun hp => h ⟨hp.1, ?_⟩⟩, And.left⟩
      rw [hv, hp.2]

/-- A setting whose files hold the value has a clean outcome, exactly if they can be read and the value
    compares well. -/
theorem settingOutcome_clean_iff {sysctl value : Text} {paths : List Text}
    (h : ∀ path ∈ paths, ∀ content ∈ proc.read path, SameValue content value) :
    settingOutcome decimal proc sysctl value paths = some .clean ↔
      ∀ path ∈ paths, (proc.read path).isSome ∧ Comparable decimal sysctl value := by
  induction paths with
  | nil => exact ⟨fun _ _ hp => absurd hp List.not_mem_nil, fun _ => rfl⟩
  | cons path paths ih =>
    rw [List.forall_mem_cons] at h
    have ih := ih h.2
    rw [settingOutcome, List.forall_mem_cons]
    cases hread : proc.read path with
    | none =>
      refine ⟨fun ho => ?_, fun hr => by simp at hr⟩
      obtain ⟨o, -, ho⟩ := Option.map_eq_some_iff.mp ho
      cases congrArg Outcome.unreadable ho
    | some content =>
      simp only [(h.1 content hread).normalize, Option.isSome_some, true_and]
      split
      · next hfault =>
        refine ⟨fun hnote => ?_, fun hc => ?_⟩
        · cases congrArg Outcome.note (Option.some.inj hnote)
        · have hsysrq : printk ≠ sysrq := by decide
          have hptrace : printk ≠ ptraceScope := by decide
          have hcomparable := hc.1
          rw [Comparable, hfault.1, if_neg hsysrq, if_neg hptrace] at hcomparable
          exact absurd ⟨rfl, hcomparable.1.symm.trans hfault.2⟩ hcomparable.2
      · next hfault =>
        have hvalid : validateSysctl decimal sysctl (normalizeSysctl value) value = some true ↔
            Comparable decimal sysctl value := validateSysctl_normalize hfault
        split
        · next hv =>
          rw [← hvalid, hv]
          simp
        · next hv => exact ih.trans (and_iff_right (hvalid.mp hv)).symm
        · next hv =>
          rw [← hvalid, hv]
          refine ⟨fun hnote => ?_, nofun⟩
          cases congrArg Outcome.note (Option.some.inj hnote)

/-- CORRECT: when the files that can be read hold the configured values, the report is without notes
    exactly if all of them can be read, and every configured value of a file compares well with its
    normal form. -/
theorem pass_iff {conf : Text} (h : HoldsConfigured proc conf) :
    auditSysctl decimal proc conf = some passReport ↔ ∀ sysctl value, configured conf sysctl = some value →
      ∀ path ∈ proc.iglob (sysctlPath sysctl), (proc.read path).isSome ∧ Comparable decimal sysctl value := by
  rw [auditSysctl_eq_pass_iff, Prod.forall]
  refine forall_congr' fun sysctl => forall_congr' fun value => ?_
  rw [mem_settingsOf]
  exact imp_congr_right fun hconf => settingOutcome_clean_iff (h sysctl value hconf)

/-- Three settings that are compared in different ways. -/
def threeSettings : Text := "kernel.sysrq = 0\nkernel.yama.ptrace_scope = 1\nkernel.printk = 3 3 3 3\n"

/-- The kernel has them. -/
def threeFiles : ProcSys :=
  .ofFiles [("/proc/sys/kernel/sysrq", "0\n"), ("/proc/sys/kernel/yama/ptrace_scope", "1\n"),
    ("/proc/sys/kernel/printk", "3\t3\t3\t3\n")]

theorem pass_iff_threeSettings : auditSysctl (fun _ => none) threeFiles threeSettings = some passReport ↔
    ∀ sysctl value, configured threeSettings sysctl = some value →
      ∀ path ∈ threeFiles.iglob (sysctlPath sysctl),
        (threeFiles.read path).isSome ∧ Comparable (fun _ => none) sysctl value :=
  pass_iff (by decide +kernel)

/-- The last of them, with one more blank. -/
def twoBlanks : Text := "kernel.printk = 3  3 3 3\n"

/-- The kernel has the value, and a mismatch is reported. -/
theorem twoBlanks_reported : HoldsConfigured threeFiles twoBlanks ∧
    auditSysctl (fun _ => none) threeFiles twoBlanks ≠ some passReport := by
  decide +kernel

end

end Sysctl
