import Mathlib.Data.Option.Basic
import Secureblue.Py.Text
import Secureblue.Run
import Secureblue.Shell

/-! The scripts that switch unlocking of the LUKS root disk by FIDO2 or TPM2, and what they make of
    `/etc/crypttab` (luks-enable-fido2-unlock.sh and its siblings).

    Enabling FIDO2 keeps the former file as `crypttab.known-good` and edits the line of the disk. Both
    disabling scripts put that backup in place, whoever made it and whenever: disabling TPM2 thereby
    reverts FIDO2, and a second enabling replaces the backup by a file that has the option already.
    A run goes right exactly when each disabling finds the backup that it needs (`configured_iff`). -/

namespace Luks
open Py Shell Run

/-! ### The code -/

/-- The root disk, by its UUID as the kernel writes it. -/
structure Disk where
  uuid : Text
  canonical : ∀ c ∈ uuid, c ∈ ("0123456789abcdef-" : Text)

/-- `LUKS_PREFIX` -/
def luksPrefix : Text := "luks-"

/-- `RD_LUKS_UUID`, from the kernel command line. -/
def Disk.rdLuksUuid (disk : Disk) : Text := luksPrefix ++ disk.uuid

/-- What a script finds and is told when it is run. -/
structure Session where
  /-- `/usr/bin/rpm-ostree` is there. -/
  rpmOstree : Bool
  root : Bool
  /-- the reply to the question whether to go on -/
  confirm : Text
  lsblk : Text
  /-- The disk is there by its UUID. -/
  linked : Bool
  /-- the reply to the question whether to wipe a token and enroll again -/
  reenroll : Text

/-- The files about the disk in `/etc`, and the tokens in its LUKS header. -/
structure Machine where
  crypttab : Text
  knownGood : Option Text
  workingBeforeDisableFido2 : Option Text
  workingBeforeDisableTpm2 : Option Text
  systemdFido2 : Bool
  systemdTpm2 : Bool

/-- The checks that all scripts make before they change anything. -/
def checks (disk : Disk) (session : Session) : Option Unit := do
  guard session.rpmOstree
  guard session.root
  guard (session.confirm ∈ [("Y" : Text), "y"])
  guard (disk.rdLuksUuid ≠ [])
  guard (disk.rdLuksUuid <:+: session.lsblk)
  guard (luksPrefix <+: disk.rdLuksUuid)
  guard session.linked

/-- `sed -i s/old/new/`: the first occurrence on each line. -/
def sed (old new content : Text) : Text := (keepLines content).flatMap (substitute old new)

def uuidKey : Text := "UUID="

def noneField : Text := " none "

/-- The fields of the disk in crypttab before its options, `UUID=… none `. -/
def Disk.fields (disk : Disk) : Text := uuidKey ++ (disk.rdLuksUuid.drop 5 ++ noneField)

def discard : Text := "discard"

/-- `- fido2-device=auto - discard` -/
def fido2Discard : Text := "- fido2-device=auto - discard"

/-- luks-enable-fido2-unlock.sh -/
def enableFido2 (disk : Disk) (session : Session) (m : Machine) : Option Machine := do
  guard ((keepLines m.crypttab).length = 1)
  checks disk session
  -- with a token there, any reply but no wipes it
  guard (m.systemdFido2 → session.reenroll ∉ [("N" : Text), "n"])
  return { m with
    systemdFido2 := true
    knownGood := some m.crypttab
    crypttab := sed (disk.fields ++ discard) (disk.fields ++ fido2Discard) m.crypttab }

/-- "Restore the crypttab" -/
def Machine.restoreCrypttab (m : Machine) : Machine :=
  match m.knownGood with
  | some crypttab => { m with crypttab, knownGood := none }
  | none => m

/-- What the two scripts that disable an unlock do, with the copy of crypttab that they make and the slot
    that they wipe. -/
def disableUnlock (copy wipe : Machine → Machine) (disk : Disk) (session : Session) (m : Machine) :
    Option Machine := do
  checks disk session
  return wipe (copy m).restoreCrypttab

/-- luks-disable-fido2-unlock.sh -/
def disableFido2 : Disk → Session → Machine → Option Machine :=
  disableUnlock (fun m => { m with workingBeforeDisableFido2 := some m.crypttab })
    fun m => { m with systemdFido2 := false }

/-- luks-enable-tpm2-autounlock.sh -/
def enableTpm2 (disk : Disk) (session : Session) (m : Machine) : Option Machine := do
  checks disk session
  -- with a token there, any reply but yes ends the script
  guard (m.systemdTpm2 → session.reenroll ∈ [("Y" : Text), "y"])
  return { m with systemdTpm2 := true }

/-- luks-disable-tpm2-autounlock.sh -/
def disableTpm2 : Disk → Session → Machine → Option Machine :=
  disableUnlock (fun m => { m with workingBeforeDisableTpm2 := some m.crypttab })
    fun m => { m with systemdTpm2 := false }

/-- The four scripts. -/
inductive Script where
  | enableFido2
  | disableFido2
  | enableTpm2
  | disableTpm2
  deriving DecidableEq, Repr

/-- A completed run of a script, or `none` if it exits before. -/
def runScript (disk : Disk) : Script × Session → Machine → Option Machine
  | (.enableFido2, session) => Luks.enableFido2 disk session
  | (.disableFido2, session) => Luks.disableFido2 disk session
  | (.enableTpm2, session) => Luks.enableTpm2 disk session
  | (.disableTpm2, session) => Luks.disableTpm2 disk session

/-! ### What crypttab should say -/

/-- A file with one line, for the disk with its options. -/
def Disk.line (disk : Disk) (options : Text) : Text :=
  disk.rdLuksUuid ++ [' '] ++ (disk.fields ++ options ++ ['\n'])

/-- The file that the installer wrote. -/
def Disk.installed (disk : Disk) : Text := disk.line discard

/-- `fido2-device` -/
def fido2Device : Text := "fido2-device"

/-- The file contains the FIDO2 option. -/
def HasFido2 (crypttab : Text) : Prop := fido2Device <:+: crypttab

instance decidableHasFido2 (crypttab : Text) : Decidable (HasFido2 crypttab) :=
  inferInstanceAs (Decidable (fido2Device <:+: crypttab))

/-- A script that is about FIDO2. -/
def Script.isFido2 : Script → Bool
  | enableFido2 => true
  | disableFido2 => true
  | enableTpm2 => false
  | disableTpm2 => false

/-- The last FIDO2 script of a sequence was the enabling one. -/
def Enabled (scripts : List Script) : Prop := (scripts.filter Script.isFido2).getLast? = some .enableFido2

instance decidableEnabled (scripts : List Script) : Decidable (Enabled scripts) :=
  inferInstanceAs (Decidable ((scripts.filter Script.isFido2).getLast? = some .enableFido2))

/-- crypttab has the option exactly when FIDO2 is enabled, and is otherwise as installed. -/
def Configured (disk : Disk) (steps : List (Script × Session)) (m : Machine) : Prop :=
  (HasFido2 m.crypttab ↔ Enabled (steps.map Prod.fst)) ∧
    (¬Enabled (steps.map Prod.fst) → m.crypttab = disk.installed)

/-- The condition on a step: where crypttab is restored, the backup is one without the option when FIDO2
    is disabled, and agrees with crypttab on the option when TPM2 is. -/
def Restorable (m : Machine) : Script × Session → Prop
  | (.disableFido2, _) => (∀ backup ∈ m.knownGood, ¬HasFido2 backup) ∧ (m.knownGood = none → ¬HasFido2 m.crypttab)
  | (.disableTpm2, _) => ∀ backup ∈ m.knownGood, (HasFido2 backup ↔ HasFido2 m.crypttab)
  | _ => True

/-- A machine as it was installed. -/
structure Fresh (disk : Disk) (m : Machine) : Prop where
  crypttab : m.crypttab = disk.installed
  knownGood : m.knownGood = none

/-! ### What the scripts do to the two files -/

/-- The file as enabling FIDO2 leaves it. -/
def Disk.enrolled (disk : Disk) : Text := disk.line fido2Discard

section
variable (disk : Disk)

theorem Disk.drop_prefix : disk.rdLuksUuid.drop 5 = disk.uuid := by
  have hlen : luksPrefix.length = 5 := by decide
  rw [rdLuksUuid, ← hlen, List.drop_left]

/-- What the fields of the disk have after the first two letters. -/
def Disk.fieldsRest : Text := ['I', 'D', '='] ++ (disk.uuid ++ noneField)

theorem Disk.fields_eq : disk.fields = 'U' :: 'U' :: disk.fieldsRest := by
  have hkey : uuidKey = 'U' :: 'U' :: ['I', 'D', '='] := by decide
  rw [fields, hkey, disk.drop_prefix, fieldsRest, List.cons_append, List.cons_append]

section
variable {c : Char} (h : c ∉ ("0123456789abcdef-" : Text))
include h

/-- The characters that a UUID does not have. -/
theorem Disk.not_mem_name (hfixed : c ∉ luksPrefix ++ [' ']) : c ∉ disk.rdLuksUuid ++ [' '] := by
  simp only [rdLuksUuid, List.mem_append, not_or] at hfixed ⊢
  exact ⟨⟨hfixed.1, fun hc => h (disk.canonical c hc)⟩, hfixed.2⟩

theorem Disk.not_mem_rest (hfixed : c ∉ ['I', 'D', '='] ++ noneField) : c ∉ disk.fieldsRest := by
  simp only [fieldsRest, List.mem_append, not_or] at hfixed ⊢
  exact ⟨hfixed.1, fun hc => h (disk.canonical c hc), hfixed.2⟩

theorem Disk.not_mem_fields (hfixed : c ∉ uuidKey ++ noneField) : c ∉ disk.fields := by
  simp only [fields, disk.drop_prefix, List.mem_append, not_or] at hfixed ⊢
  exact ⟨hfixed.1, fun hc => h (disk.canonical c hc), hfixed.2⟩

end

/-- A file about the disk has one line. -/
theorem keepLines_line {options : Text} (h : '\n' ∉ options) :
    keepLines (disk.line options) = [disk.line options] := by
  have hname := disk.not_mem_name (c := '\n') (by decide) (by decide)
  have hfields := disk.not_mem_fields (c := '\n') (by decide) (by decide)
  have hline : '\n' ∉ disk.rdLuksUuid ++ [' '] ++ (disk.fields ++ options) := by
    simp only [List.mem_append, not_or] at hname ⊢
    exact ⟨hname, hfields, h⟩
  rw [Disk.line, ← List.append_assoc]
  exact Py.keepLines_line hline []

/-- The name of the disk is left alone: the text to be replaced starts with a letter it does not have. -/
theorem substitute_line (options new : Text) :
    substitute (disk.fields ++ discard) new (disk.line options) =
      disk.rdLuksUuid ++ [' '] ++ substitute (disk.fields ++ discard) new (disk.fields ++ options ++ ['\n']) := by
  have hname := disk.not_mem_name (c := 'U') (by decide) (by decide)
  rw [Disk.line, disk.fields_eq, List.cons_append]
  exact substitute_append hname _

/-- Enabling edits the installed file. -/
theorem sed_installed :
    sed (disk.fields ++ discard) (disk.fields ++ fido2Discard) disk.installed = disk.enrolled := by
  have hne : disk.fields ++ discard ≠ [] := by rw [disk.fields_eq]; exact List.cons_ne_nil _ _
  rw [sed, Disk.installed, keepLines_line disk (by decide), List.flatMap_singleton, substitute_line,
    substitute_prefix _ hne]
  rfl

/-- After the name of the disk, an enrolled file has the text nowhere: at the first letter the options
    differ, at the second the key does, and there is no third such letter. -/
theorem substitute_enrolled (new : Text) :
    substitute (disk.fields ++ discard) new (disk.fields ++ fido2Discard ++ ['\n']) =
      disk.fields ++ fido2Discard ++ ['\n'] := by
  have hfirst : ¬disk.fields ++ discard <+: disk.fields ++ (fido2Discard ++ ['\n']) := by
    rw [List.prefix_append_right_inj]
    decide
  have hsecond : ¬('U' :: 'U' :: (disk.fieldsRest ++ discard)) <+:
      'U' :: (disk.fieldsRest ++ (fido2Discard ++ ['\n'])) := by
    rintro ⟨t, ht⟩
    cases ht
  have hthird : 'U' ∉ disk.fieldsRest ++ (fido2Discard ++ ['\n']) := by
    rw [List.mem_append, not_or]
    exact ⟨disk.not_mem_rest (by decide) (by decide), by decide⟩
  rw [List.append_assoc]
  rw [disk.fields_eq] at hfirst ⊢
  simp only [List.cons_append] at hfirst ⊢
  rw [substitute_cons_of_not hfirst, substitute_cons_of_not hsecond, substitute_of_not_mem hthird]

/-- Enabling once more has nothing to edit. -/
theorem sed_enrolled :
    sed (disk.fields ++ discard) (disk.fields ++ fido2Discard) disk.enrolled = disk.enrolled := by
  rw [sed, Disk.enrolled, keepLines_line disk (by decide), List.flatMap_singleton, substitute_line,
    substitute_enrolled, Disk.line]

theorem hasFido2_enrolled : HasFido2 disk.enrolled := by
  have h : fido2Device <:+: fido2Discard := ⟨"- ", "=auto - discard", by decide⟩
  exact h.trans ⟨disk.rdLuksUuid ++ [' '] ++ disk.fields, ['\n'], by simp [Disk.enrolled, Disk.line]⟩

theorem not_hasFido2_installed : ¬HasFido2 disk.installed := by
  intro h
  have hname := disk.not_mem_name (c := 'v') (by decide) (by decide)
  have hfields := disk.not_mem_fields (c := 'v') (by decide) (by decide)
  have hv : 'v' ∈ disk.installed := h.subset (by decide)
  simp only [Disk.installed, Disk.line, List.mem_append] at hv hname
  rcases hv with hv | (hv | hv) | hv
  · exact hname hv
  · exact hfields hv
  · exact absurd hv (by decide)
  · exact absurd hv (by decide)

/-! ### Steps -/

variable {disk} {session : Session} {m m' : Machine}

/-- What enabling FIDO2 does to the files. -/
theorem enableFido2_files (h : enableFido2 disk session m = some m') :
    m'.crypttab = sed (disk.fields ++ discard) (disk.fields ++ fido2Discard) m.crypttab ∧
      m'.knownGood = some m.crypttab := by
  simp only [enableFido2, Option.bind_eq_bind, Option.bind_eq_some_iff] at h
  obtain ⟨_, -, _, -, _, -, h⟩ := h
  cases h
  exact ⟨rfl, rfl⟩

theorem enableTpm2_files (h : enableTpm2 disk session m = some m') :
    m'.crypttab = m.crypttab ∧ m'.knownGood = m.knownGood := by
  simp only [enableTpm2, Option.bind_eq_bind, Option.bind_eq_some_iff] at h
  obtain ⟨_, -, _, -, h⟩ := h
  cases h
  exact ⟨rfl, rfl⟩

theorem restoreCrypttab_files (m : Machine) :
    m.restoreCrypttab.crypttab = m.knownGood.getD m.crypttab ∧ m.restoreCrypttab.knownGood = none := by
  rw [Machine.restoreCrypttab]
  cases hbackup : m.knownGood with
  | none => exact ⟨rfl, hbackup⟩
  | some backup => exact ⟨rfl, rfl⟩

theorem disableUnlock_files {copy wipe : Machine → Machine} (h : disableUnlock copy wipe disk session m = some m')
    (hcopy : ∀ m, (copy m).crypttab = m.crypttab ∧ (copy m).knownGood = m.knownGood)
    (hwipe : ∀ m, (wipe m).crypttab = m.crypttab ∧ (wipe m).knownGood = m.knownGood) :
    m'.crypttab = m.knownGood.getD m.crypttab ∧ m'.knownGood = none := by
  simp only [disableUnlock, Option.bind_eq_bind, Option.bind_eq_some_iff] at h
  obtain ⟨_, -, h⟩ := h
  cases h
  obtain ⟨hc, hk⟩ := restoreCrypttab_files (copy m)
  rw [(hcopy m).1, (hcopy m).2] at hc
  exact ⟨(hwipe _).1.trans hc, (hwipe _).2.trans hk⟩

/-- What the two scripts that disable an unlock do to the files. -/
theorem disable_files {op : Script × Session} (hop : op.1 = .disableFido2 ∨ op.1 = .disableTpm2)
    (h : runScript disk op m = some m') : m'.crypttab = m.knownGood.getD m.crypttab ∧ m'.knownGood = none := by
  obtain ⟨script, session⟩ := op
  rcases hop with rfl | rfl
  · have hfido2 : disableFido2 disk session m = some m' := h
    rw [disableFido2] at hfido2
    exact disableUnlock_files hfido2 (fun _ => ⟨rfl, rfl⟩) fun _ => ⟨rfl, rfl⟩
  · have htpm2 : disableTpm2 disk session m = some m' := h
    rw [disableTpm2] at htpm2
    exact disableUnlock_files htpm2 (fun _ => ⟨rfl, rfl⟩) fun _ => ⟨rfl, rfl⟩

/-- Both files, as far as they exist, are the installed one or the enrolled one. -/
structure Known (disk : Disk) (m : Machine) : Prop where
  crypttab : m.crypttab = disk.installed ∨ m.crypttab = disk.enrolled
  knownGood : ∀ backup ∈ m.knownGood, backup = disk.installed ∨ backup = disk.enrolled

theorem Known.restored (h : Known disk m) :
    m.knownGood.getD m.crypttab = disk.installed ∨ m.knownGood.getD m.crypttab = disk.enrolled := by
  cases hbackup : m.knownGood with
  | none => exact h.crypttab
  | some backup => exact h.knownGood backup hbackup

/-- Every script keeps them so. -/
theorem Known.step (h : Known disk m) : ∀ {op}, runScript disk op m = some m' → Known disk m'
  | (.enableFido2, _), hop => by
      obtain ⟨hc, hk⟩ := enableFido2_files hop
      refine ⟨Or.inr ?_, fun backup hb => ?_⟩
      · rcases h.crypttab with hm | hm
        · rw [hc, hm, sed_installed]
        · rw [hc, hm, sed_enrolled]
      · rw [hk] at hb
        cases hb
        exact h.crypttab
  | (.enableTpm2, _), hop => by
      obtain ⟨hc, hk⟩ := enableTpm2_files hop
      exact ⟨hc ▸ h.crypttab, hk ▸ h.knownGood⟩
  | (.disableFido2, _), hop => by
      obtain ⟨hc, hk⟩ := disable_files (.inl rfl) hop
      exact ⟨hc ▸ h.restored, by rw [hk]; exact nofun⟩
  | (.disableTpm2, _), hop => by
      obtain ⟨hc, hk⟩ := disable_files (.inr rfl) hop
      exact ⟨hc ▸ h.restored, by rw [hk]; exact nofun⟩

theorem Fresh.known (h : Fresh disk m) : Known disk m :=
  ⟨Or.inl h.crypttab, by rw [h.knownGood]; exact nofun⟩

/-- Of the two files, the enrolled one has the option. -/
theorem hasFido2_iff {t : Text} (h : t = disk.installed ∨ t = disk.enrolled) :
    ¬HasFido2 t ↔ t = disk.installed := by
  rcases h with rfl | rfl
  · exact ⟨fun _ => rfl, fun _ => not_hasFido2_installed disk⟩
  · exact ⟨fun h => absurd (hasFido2_enrolled disk) h,
      fun h => absurd (h ▸ hasFido2_enrolled disk) (not_hasFido2_installed disk)⟩

/-- For known files the second part of the specification follows from the first. -/
theorem configured_of_known (h : Known disk m) (steps : List (Script × Session)) :
    Configured disk steps m ↔ (HasFido2 m.crypttab ↔ Enabled (steps.map Prod.fst)) :=
  ⟨And.left, fun hiff => ⟨hiff, fun hdis => (hasFido2_iff h.crypttab).mp (mt hiff.mp hdis)⟩⟩

/-! ### Sequences -/

theorem enabled_concat (steps : List (Script × Session)) (op : Script × Session) :
    Enabled ((steps ++ [op]).map Prod.fst) ↔
      op.1 = .enableFido2 ∨ op.1.isFido2 = false ∧ Enabled (steps.map Prod.fst) := by
  obtain ⟨script, session⟩ := op
  rw [Enabled, List.map_append, List.filter_append, List.map_singleton]
  cases script <;> simp [Script.isFido2, Enabled]

theorem not_enabled_disable (steps : List (Script × Session)) (session : Session) :
    ¬Enabled ((steps ++ [(Script.disableFido2, session)]).map Prod.fst) := by
  rw [enabled_concat]
  simp [Script.isFido2]

/-- A step leads from a configured machine to a configured one exactly if it can restore crypttab. -/
theorem configured_step (h : Known disk m) {steps : List (Script × Session)}
    (hconf : Configured disk steps m) : ∀ {op}, runScript disk op m = some m' →
    (Configured disk (steps ++ [op]) m' ↔ Restorable m op)
  | (.enableFido2, session), hop => by
      have hknown := h.step hop
      obtain ⟨hc, -⟩ := enableFido2_files hop
      have henrolled : m'.crypttab = disk.enrolled := by
        rcases h.crypttab with hm | hm
        · rw [hc, hm, sed_installed]
        · rw [hc, hm, sed_enrolled]
      rw [configured_of_known hknown, enabled_concat, henrolled]
      exact ⟨fun _ => trivial, fun _ => ⟨fun _ => Or.inl rfl, fun _ => hasFido2_enrolled disk⟩⟩
  | (.enableTpm2, session), hop => by
      have hknown := h.step hop
      obtain ⟨hc, -⟩ := enableTpm2_files hop
      rw [configured_of_known hknown, enabled_concat, hc, hconf.1]
      simp [Script.isFido2, Restorable]
  | (.disableFido2, session), hop => by
      have hknown := h.step hop
      obtain ⟨hc, -⟩ := disable_files (.inl rfl) hop
      rw [configured_of_known hknown, hc, iff_false_right (not_enabled_disable steps session), Restorable]
      cases hbackup : m.knownGood <;> simp
  | (.disableTpm2, session), hop => by
      have hknown := h.step hop
      obtain ⟨hc, -⟩ := disable_files (.inr rfl) hop
      rw [configured_of_known hknown, enabled_concat, hc, Restorable]
      cases hbackup : m.knownGood <;> simp [Script.isFido2, hconf.1]

/-- CORRECT: in a completed sequence of scripts on an installed machine, crypttab is configured after
    each of them exactly if each script that restores it finds a backup it can restore. -/
theorem configured_iff (hfresh : Fresh disk m) {ops : List (Script × Session)}
    (hrun : run (runScript disk) m ops = some m') :
    Throughout (runScript disk) (Configured disk) m ops ↔ EachStep (runScript disk) Restorable m ops := by
  have h₀ : Configured disk [] m :=
    (configured_of_known hfresh.known []).mpr
      (iff_of_false (hfresh.crypttab ▸ not_hasFido2_installed disk) nofun)
  refine throughout_iff h₀ (fun steps op u v hsteps hu hop => ?_) hrun
  have hknown : Known disk u := run_invariant hfresh.known (fun _ _ _ h hop => h.step hop) hu
  exact configured_step hknown (hsteps steps List.prefix_rfl u hu) hop

end

/-! ### A machine on which it goes wrong -/

def someDisk : Disk where
  uuid := "0b1c2d3e-4f50"
  canonical := by decide

def someMachine : Machine where
  crypttab := someDisk.installed
  knownGood := none
  workingBeforeDisableFido2 := none
  workingBeforeDisableTpm2 := none
  systemdFido2 := false
  systemdTpm2 := false

/-- The user confirms everything. -/
def someSession : Session where
  rpmOstree := true
  root := true
  confirm := "y"
  lsblk := someDisk.rdLuksUuid
  linked := true
  reenroll := "y"

theorem someMachine_fresh : Fresh someDisk someMachine := ⟨rfl, rfl⟩

/-- Enabling FIDO2, enabling TPM2 and disabling FIDO2 again restores the installed file. -/
theorem configured_iff_enable_disable :
    ∃ m', run (runScript someDisk) someMachine
        [(.enableFido2, someSession), (.enableTpm2, someSession), (.disableFido2, someSession)] = some m' ∧
      (Throughout (runScript someDisk) (Configured someDisk) someMachine
          [(.enableFido2, someSession), (.enableTpm2, someSession), (.disableFido2, someSession)] ↔
        EachStep (runScript someDisk) Restorable someMachine
          [(.enableFido2, someSession), (.enableTpm2, someSession), (.disableFido2, someSession)]) :=
  ⟨_, rfl, configured_iff someMachine_fresh rfl⟩

/-- Disabling TPM2 after enabling FIDO2, as the user is told to, reverts crypttab, and disabling FIDO2
    after enabling it twice leaves the option in place. -/
theorem fido2_misconfigured :
    (∃ m', run (runScript someDisk) someMachine [(.enableFido2, someSession), (.disableTpm2, someSession)] =
        some m' ∧
      ¬Configured someDisk [(.enableFido2, someSession), (.disableTpm2, someSession)] m') ∧
    ∃ m', run (runScript someDisk) someMachine
        [(.enableFido2, someSession), (.enableFido2, someSession), (.disableFido2, someSession)] = some m' ∧
      ¬Configured someDisk
        [(.enableFido2, someSession), (.enableFido2, someSession), (.disableFido2, someSession)] m' := by
  refine ⟨⟨_, rfl, fun h => ?_⟩, ⟨_, rfl, fun h => ?_⟩⟩
  · exact absurd (h.1.mpr (by decide)) (by decide +kernel)
  · exact absurd (h.1.mp (by decide +kernel)) (by decide)

end Luks
