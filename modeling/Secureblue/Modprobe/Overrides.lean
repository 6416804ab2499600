import Secureblue.Auditor.Modprobe
import Secureblue.Dns.GlobalDns
import Secureblue.Precedence
import Secureblue.Register

/-! The tools that block and unblock kernel modules by files in `/etc/modprobe.d`: the scripts
    `override-enable-module` and `override-reset-module`, and the toggles for webcam and Bluetooth with
    their workers.

    The files of the tools begin with `99-`, before the names of all others, so that what they say counts
    (`IsModprobe`); and the file that blocks the webcam comes before every override of one of its modules,
    so that no override helps against it. The scripts can also make and delete the files of the toggles
    (`Call.Plain` leaves these two names out). After any other run, a module is blocked as the last calls
    that concern it say (`modprobe_runs`).

    The Bluetooth worker writes or deletes its file before it turns to the service, and exits when systemctl
    fails, so that the file can be ahead of the service; the next call for the same finds the file and does
    nothing. -/

namespace Modprobe.Overrides
open Py

/-! ### The configuration of modprobe -/

/-- A character of a module name. -/
def isInner (c : Char) : Bool := c.isAlphanum || c == '_' || c == '-'

/-- The `install` lines of a file: a module, and the words of the command that is run for it. -/
def installs (content : Text) : List (Text × List Text) :=
  (fileLines content).filterMap fun line => match words line with
    | command :: name :: rest => if command = "install" then some (underscored name, rest) else none
    | _ => none

/-- A file that has nothing but `install` lines for single modules. -/
def IsInstalls (content : Text) : Bool :=
  decide ('\\' ∉ content) && (fileLines content).all fun line => match words line with
    | [] => true
    | command :: name :: _ :: _ => decide (command = "install") && name.all isInner
    | _ => false

/-- What the tools rely on: the first line for a module counts, in the order of the names of the files.
    `command` reads a file, and `inForce` a configuration. -/
structure IsModprobe (command : Text → Text → Option (List Text))
    (inForce : Text → List (Text × Text) → Option (List Text)) : Prop where
  reads : ∀ mod content, IsInstalls content → command mod content = (installs content).lookup mod
  first : ∀ mod parts, (parts.map Prod.fst).Nodup → inForce mod parts = Precedence.first (command mod) parts

/-- The files in `/etc`, and the vendor's that they do not replace. -/
def config (files : Dict Text Text) (vendor : List (Text × Text)) : List (Text × Text) :=
  files.items ++ vendor.filter (·.1 ∉ files.keys)

/-- The command with which loading a module fails. -/
def binFalse : List Text := ["/bin/false"]

/-! ### The tools -/

/-- The service for Bluetooth. -/
structure Service where
  masked : Bool
  enabled : Bool
  deriving DecidableEq

/-- The actions of `SystemdService`. -/
def Service.unmask (s : Service) : Service := { s with masked := false }

def Service.mask (s : Service) : Service := { s with masked := true }

def Service.enableNow (s : Service) : Service := { s with enabled := true }

def Service.disableNow (s : Service) : Service := { s with enabled := false }

structure Host where
  files : Dict Text Text
  bluetoothService : Service

/-- `^[A-Za-z0-9][A-Za-z0-9_-]{0,53}[A-Za-z0-9]$` -/
def isModName : Text → Bool
  | [] => false
  | c :: rest => c.isAlphanum && rest.getLast?.any Char.isAlphanum && rest.dropLast.all isInner &&
      decide (rest.dropLast.length ≤ 53)

/-- `MOD_FILE` -/
def modFile (name : Text) : Text := "99-" ++ name ++ ".conf"

/-- The line that `override-enable-module` writes. -/
def overrideLine (name : Text) : Text := "install " ++ name ++ " /sbin/modprobe --ignore-install " ++ name ++ "\n"

/-- `override-enable-module` -/
def overrideEnableModule (args : List Text) (h : Host) : Bool × Host :=
  let modName := args.headD []
  if !isModName modName then (false, h)
  else if (h.files.get (modFile modName)).isSome then (true, h)
  else (true, { h with files := h.files.set (modFile modName) (overrideLine modName) })

/-- `override-reset-module` -/
def overrideResetModule (args : List Text) (h : Host) : Bool × Host :=
  let modName := args.headD []
  if !isModName modName then (false, h)
  else if (h.files.get (modFile modName)).isSome then (true, { h with files := h.files.erase (modFile modName) })
  else (true, h)

/-- A toggle by a file, whose presence means on or off. -/
structure Toggle where
  name : Text
  text : Text
  fileEnables : Bool
  actions : Bool → List (Service → Service)

def disableWebcam : Text := "disable-webcam"

/-- `webcam_main.py`, with `inner/webcam.py` -/
def webcamToggle : Toggle where
  name := disableWebcam
  text := "\ninstall ipu-bridge /bin/false\ninstall ipu3-imgu /bin/false\ninstall ipu3-cio2 /bin/false\n" ++
    "install intel_ipu6 /bin/false\ninstall intel_ipu6_isys /bin/false\ninstall intel_ipu7 /bin/false\n" ++
    "install intel_ipu7_isys /bin/false\ninstall uvcvideo /bin/false\n"
  fileEnables := false
  actions _ := []

/-- `bluetooth_main.py`, with `inner/bluetooth.py` -/
def bluetoothToggle : Toggle where
  name := bluetooth
  text := "install bluetooth /sbin/modprobe --ignore-install bluetooth\n" ++
    "install btusb /sbin/modprobe --ignore-install btusb\n"
  fileEnables := true
  actions enable := if enable then [Service.unmask, Service.enableNow] else [Service.disableNow, Service.mask]

/-- The mode that a toggle is called with; none for a usage error or at the end of the input. -/
def toggleMode (casefold : Text → Text) (args : List Text) (lines : List Dns.Selector.Line) : Option Text :=
  match args with
  | [] => (Dns.Selector.askYesNo casefold lines).map fun answer => if answer.1 then "on" else "off"
  | [arg] => some (casefold arg)
  | _ => none

/-- Whether there is a file under the name. -/
def Host.hasFile (h : Host) (name : Text) : Bool := (h.files.get (modFile name)).isSome

/-- What a call meets with: whether `run0` lets it do its work, and which of the actions of its worker fails,
    also when it is tried again. -/
structure Fate where
  granted : Bool
  fails : Option ℕ

/-- `_do_systemctl_action` for one action after another; the process exits with the one that fails. -/
def systemctl : List (Service → Service) → Option ℕ → Service → Bool × Service
  | [], _, s => (true, s)
  | _ :: _, some 0, s => (false, s)
  | action :: actions, some (n + 1), s => systemctl actions (some n) (action s)
  | action :: actions, none, s => systemctl actions none (action s)

/-- The worker: first the file, then the service. -/
def Toggle.work (t : Toggle) (enable : Bool) (fails : Option ℕ) (h : Host) : Bool × Host :=
  let files := if enable == t.fileEnables then h.files.set (modFile t.name) t.text else h.files.erase (modFile t.name)
  let (ok, bluetoothService) := systemctl (t.actions enable) fails h.bluetoothService
  (ok, { files, bluetoothService })

/-- `main` of a toggle. -/
def Toggle.main (t : Toggle) (casefold : Text → Text) (args : List Text) (lines : List Dns.Selector.Line)
    (fate : Fate) (h : Host) : Bool × Host :=
  match toggleMode casefold args lines with
  | none => (false, h)
  | some mode =>
    let enabledByFile := h.hasFile t.name == t.fileEnables
    if mode = "on" ∨ mode = "off" then
      let targetStateEnabled := decide (mode = "on")
      if targetStateEnabled = enabledByFile then (true, h)
      else if fate.granted then t.work targetStateEnabled fate.fails h else (false, h)
    else (decide (mode = "status" ∨ mode = "--help"), h)

/-- A call of one of the tools. -/
inductive Call where
  | overrideEnable (args : List Text)
  | overrideReset (args : List Text)
  | webcam (args : List Text) (lines : List Dns.Selector.Line)
  | bluetooth (args : List Text) (lines : List Dns.Selector.Line)

/-- A call; the scripts are under `run0` as a whole. -/
def call (casefold : Text → Text) (c : Call × Fate) (h : Host) : Bool × Host :=
  match c.1 with
  | .overrideEnable args => if c.2.granted then overrideEnableModule args h else (false, h)
  | .overrideReset args => if c.2.granted then overrideResetModule args h else (false, h)
  | .webcam args lines => webcamToggle.main casefold args lines c.2 h
  | .bluetooth args lines => bluetoothToggle.main casefold args lines c.2 h

def blockedLine : Text := "install uvcvideo /bin/false"

/-- `audit_webcam_module`, where the file can be read. -/
def auditWebcamModule (content : Option Text) (loaded : Bool) : Auditor.Report :=
  let report (status : Auditor.Status) (notes : List Auditor.Note) (recs : List Auditor.Recommendation) :
      Auditor.Report := { description := "Checking whether webcam module is disabled", status, notes, recs }
  let enabled : List Auditor.Note := [⟨"Webcam module is enabled.", some .info⟩]
  match content with
  | none => report .info enabled
      [⟨"Webcam module is enabled.\nTo disable it, run:\n$ ujust set-webcam-modules off", none⟩]
  | some content =>
    if blockedLine ∈ (fileLines content).map strip then
      if loaded then report .info enabled
        [⟨"Webcam module is blacklisted in /etc/modprobe.d/99-disable-webcam.conf but is still enabled.\n" ++
          "To disable it, you must reboot.", none⟩]
      else report .pass [] []
    else report .unknown [] []

/-! ### What the calls write -/

/-- The name of the file of a toggle, and whether a call that comes to its worker leaves it there. -/
def Toggle.written (t : Toggle) (casefold : Text → Text) (args : List Text) (lines : List Dns.Selector.Line) :
    Option (Text × Bool) :=
  (toggleMode casefold args lines).bind fun mode =>
    if mode = "on" ∨ mode = "off" then some (t.name, decide (mode = "on") == t.fileEnables) else none

/-- The name under which a call leaves a file, or leaves none: a script that succeeds, and a toggle that
    succeeds or that fails behind its file. -/
def written (casefold : Text → Text) (c : Call × Fate) (ok : Bool) : Option (Text × Bool) :=
  match c.1 with
  | .overrideEnable args => if ok then some (args.headD [], true) else none
  | .overrideReset args => if ok then some (args.headD [], false) else none
  | .webcam args lines => if ok ∨ c.2.granted then webcamToggle.written casefold args lines else none
  | .bluetooth args lines => if ok ∨ c.2.granted then bluetoothToggle.written casefold args lines else none

/-- What a call writes under a name. -/
def writesFile (casefold : Text → Text) (name : Text) (c : Call × Fate) (ok : Bool) : Option Bool :=
  (written casefold c ok).bind fun w => if w.1 = name then some w.2 else none

/-- A call that does not use one of the scripts on the file of a toggle. -/
def Call.Plain : Call → Prop
  | overrideEnable args | overrideReset args =>
    args.headD [] ≠ webcamToggle.name ∧ args.headD [] ≠ bluetoothToggle.name
  | webcam _ _ | bluetooth _ _ => True

/-- What the tools write into the file under a name. -/
def ownText (name : Text) : Text :=
  if name = webcamToggle.name then webcamToggle.text
  else if name = bluetoothToggle.name then bluetoothToggle.text
  else overrideLine name

/-- The name of a file that modprobe reads after those of the tools. -/
def isLater (name : Text) : Bool := name.head?.any ('9' < ·)

/-- In `/etc` are the files of the tools, as they write them, and later ones; the vendor's are later. -/
structure Sound (vendor : List (Text × Text)) (h : Host) : Prop where
  files : ∀ e ∈ h.files.items, isLater e.1 ∨ ∃ name, isModName name ∧ e = (modFile name, ownText name)
  later : ∀ e ∈ vendor, isLater e.1
  nodup : (vendor.map Prod.fst).Nodup

/-- The service as the file says. -/
def serviceFor (present : Bool) : Service := ⟨!present, present⟩

/-- The service for Bluetooth follows its file. -/
def Follows (h : Host) : Prop := h.bluetoothService = serviceFor (h.hasFile bluetoothToggle.name)

/-- The files that are no tool's. -/
def others (files : Dict Text Text) (vendor : List (Text × Text)) : List (Text × Text) :=
  (config files vendor).filter (isLater ·.1)

def webcamModules : List Text :=
  ["ipu_bridge", "ipu3_imgu", "ipu3_cio2", "intel_ipu6", "intel_ipu6_isys", "intel_ipu7", "intel_ipu7_isys",
    "uvcvideo"]

/-- The modules that the file under a name lets modprobe load, if it is not the webcam's. -/
def overridden (name : Text) : List Text :=
  if name = bluetoothToggle.name then [bluetooth, "btusb"] else [underscored name]

/-- The command that lets modprobe load a module. -/
def ignoreInstall (name : Text) : List Text := ["/sbin/modprobe", "--ignore-install", name]

/-! ### Names and lines -/

/-- What every character of a module name is. -/
theorem isInner_of_isModName {name : Text} (h : isModName name) : name ≠ [] ∧ ∀ c ∈ name, isInner c := by
  have halnum : ∀ {c : Char}, c.isAlphanum → isInner c := fun hc => by simp [isInner, hc]
  cases name with
  | nil => cases h
  | cons c rest =>
    simp only [isModName, Bool.and_eq_true] at h
    obtain ⟨⟨⟨hc, hlast⟩, hinner⟩, -⟩ := h
    refine ⟨List.cons_ne_nil _ _, fun d hd => ?_⟩
    rcases List.mem_cons.mp hd with rfl | hd
    · exact halnum hc
    · cases hget : rest.getLast? with
      | none =>
        rw [List.getLast?_eq_none_iff.mp hget] at hd
        cases hd
      | some e =>
        rw [hget] at hlast
        rw [← List.dropLast_append_getLast? e hget] at hd
        rcases List.mem_append.mp hd with hd | hd
        · exact List.all_eq_true.mp hinner d hd
        · exact List.mem_singleton.mp hd ▸ halnum hlast

theorem toNat_of_isInner {c : Char} (h : isInner c) : 45 ≤ c.toNat ∧ c.toNat ≤ 122 ∧ c.toNat ≠ 92 := by
  simp only [isInner, Char.isAlphanum, Char.isAlpha, Char.isUpper, Char.isLower, Char.isDigit, Bool.or_eq_true,
    Bool.and_eq_true, decide_eq_true_eq, beq_iff_eq, UInt32.le_iff_toNat_le, ge_iff_le] at h
  change ((((65 ≤ c.toNat ∧ c.toNat ≤ 90) ∨ (97 ≤ c.toNat ∧ c.toNat ≤ 122)) ∨ (48 ≤ c.toNat ∧ c.toNat ≤ 57)) ∨
    c = '_') ∨ c = '-' at h
  rcases h with ((h | h) | rfl) | rfl
  · omega
  · omega
  · decide
  · decide

theorem isSpace_of_isInner {c : Char} (h : isInner c) : isSpace c = false := by
  have hn := toNat_of_isInner h
  simp only [isSpace]
  simp
  omega

def installWord : Text := "install"

def modprobeWords : Text := "/sbin/modprobe --ignore-install"

theorem overrideLine_eq (name : Text) :
    overrideLine name = installWord ++ ' ' :: (name ++ ' ' :: (modprobeWords ++ ' ' :: (name ++ ['\n']))) := by
  have hinstall : ("install " : Text) = installWord ++ [' '] := by decide
  have hmodprobe : (" /sbin/modprobe --ignore-install " : Text) = ' ' :: (modprobeWords ++ [' ']) := by decide
  have hnewline : ("\n" : Text) = ['\n'] := rfl
  unfold overrideLine
  rw [hinstall, hmodprobe, hnewline]
  simp only [List.append_assoc, List.cons_append, List.nil_append]

theorem words_overrideLine {name : Text} (h : isModName name) :
    words (overrideLine name) = installWord :: name :: ignoreInstall name := by
  obtain ⟨hne, hinner⟩ := isInner_of_isModName h
  have hname : words name = [name] := words_singleton (fun c hc => isSpace_of_isInner (hinner c hc)) hne
  have hinstall : words installWord = [installWord] := by decide
  have hmodprobe : words modprobeWords = [("/sbin/modprobe" : Text), ("--ignore-install" : Text)] := by decide
  have hspace : isSpace ' ' := by decide
  rw [overrideLine_eq, words_append_cons _ _ hspace, words_append_cons _ _ hspace, words_append_cons _ _ hspace,
    words_append_cons _ _ (by decide), words_nil, hname, hinstall, hmodprobe]
  rfl

/-- The line has no character but those of its words, spaces and the newline. -/
theorem not_mem_overrideLine {name : Text} (h : isModName name) {c : Char} (hinner : isInner c = false)
    (hspace : c ≠ ' ') (hnewline : c ≠ '\n') (hfixed : c ∉ installWord ++ modprobeWords) : c ∉ overrideLine name := by
  have hname : c ∉ name := fun hmem => by
    rw [(isInner_of_isModName h).2 c hmem] at hinner
    cases hinner
  simp only [List.mem_append, not_or] at hfixed
  simp [overrideLine_eq, hfixed, hspace, hnewline, hname]

theorem fileLines_overrideLine {name : Text} (h : isModName name) :
    fileLines (overrideLine name) = [overrideLine name] := by
  have hr : '\r' ∉ overrideLine name :=
    not_mem_overrideLine h (by decide) (by decide) (by decide) (by decide)
  have hname : '\n' ∉ name := fun hmem => absurd ((isInner_of_isModName h).2 _ hmem) (by decide)
  have hfixed : '\n' ∉ installWord ∧ '\n' ∉ modprobeWords := by decide
  have hline : overrideLine name =
      (installWord ++ ' ' :: (name ++ ' ' :: (modprobeWords ++ ' ' :: name))) ++ '\n' :: [] := by
    rw [overrideLine_eq]
    simp only [List.append_assoc, List.cons_append]
  rw [fileLines, universalNewlines_eq_self hr, hline]
  refine (keepLines_line ?_ []).trans rfl
  simp [hfixed, hname]

theorem installs_overrideLine {name : Text} (h : isModName name) :
    installs (overrideLine name) = [(underscored name, ignoreInstall name)] := by
  rw [installs, fileLines_overrideLine h, List.filterMap_cons, words_overrideLine h]
  rfl

theorem isInstalls_overrideLine {name : Text} (h : isModName name) : IsInstalls (overrideLine name) := by
  have hslash : '\\' ∉ overrideLine name :=
    not_mem_overrideLine h (by decide) (by decide) (by decide) (by decide)
  have hname : name.all isInner := List.all_eq_true.mpr (isInner_of_isModName h).2
  rw [IsInstalls, fileLines_overrideLine h, List.all_cons, words_overrideLine h]
  simp only [hslash, ignoreInstall, hname, not_false_eq_true, decide_true, Bool.true_and, List.all_nil, Bool.and_true]
  rfl

theorem installs_webcam : installs webcamToggle.text = webcamModules.map (·, binFalse) := by
  decide

theorem installs_bluetooth :
    installs bluetoothToggle.text = (overridden bluetoothToggle.name).map fun name => (name, ignoreInstall name) := by
  decide

theorem isInstalls_ownText {name : Text} (h : isModName name) : IsInstalls (ownText name) := by
  unfold ownText
  split_ifs
  · decide +kernel
  · decide
  · exact isInstalls_overrideLine h

/-! ### What the files say -/

theorem not_isLater_modFile (name : Text) : isLater (modFile name) = false := by
  have hdash : ("99-" : Text) = ['9', '9', '-'] := rfl
  rw [modFile, hdash]
  rfl

theorem modFile_inj {name name' : Text} (h : modFile name = modFile name') : name = name' := by
  simp only [modFile, List.append_assoc] at h
  exact List.append_cancel_right (List.append_cancel_left h)

/-- Later files come after those of the tools. -/
theorem modFile_lt_of_isLater {file : Text} (h : isLater file) (name : Text) : modFile name < file := by
  cases file with
  | nil => cases h
  | cons c file =>
    have hdash : ("99-" : Text) = ['9', '9', '-'] := rfl
    rw [modFile, hdash]
    exact List.cons_lt_cons_iff.mpr (.inl (of_decide_eq_true h))

theorem lookup_map (f : Text → List Text) (mod : Text) : ∀ mods : List Text,
    (mods.map fun m => (m, f m)).lookup mod = if mod ∈ mods then some (f mod) else none
  | [] => rfl
  | m :: mods => by
      rw [List.map_cons, List.lookup_cons, lookup_map f mod mods]
      rcases eq_or_ne mod m with rfl | hne
      · simp
      · simp [beq_false_of_ne hne, hne]

section
variable {command : Text → Text → Option (List Text)} {inForce : Text → List (Text × Text) → Option (List Text)}
  {vendor : List (Text × Text)} {h : Host}

theorem command_webcam (hm : IsModprobe command inForce) (mod : Text) :
    command mod (ownText webcamToggle.name) = if mod ∈ webcamModules then some binFalse else none := by
  rw [hm.reads mod _ (isInstalls_ownText (by decide)), ownText, if_pos rfl, installs_webcam]
  exact lookup_map (fun _ => binFalse) mod webcamModules

/-- The other files of the tools let modprobe load their modules. -/
theorem command_ownText (hm : IsModprobe command inForce) {name : Text} (hname : isModName name)
    (hne : name ≠ webcamToggle.name) (mod : Text) :
    ∃ x, command mod (ownText name) = if mod ∈ overridden name then some (ignoreInstall x) else none := by
  rw [hm.reads mod _ (isInstalls_ownText hname), ownText, if_neg hne]
  by_cases hbluetooth : name = bluetoothToggle.name
  · rw [if_pos hbluetooth, installs_bluetooth, hbluetooth]
    exact ⟨mod, lookup_map ignoreInstall mod _⟩
  · rw [if_neg hbluetooth, installs_overrideLine hname, overridden, if_neg hbluetooth]
    exact ⟨name, lookup_map (fun _ => ignoreInstall name) mod [underscored name]⟩

theorem ignoreInstall_ne (x : Text) : ignoreInstall x ≠ binFalse := fun h => by
  simpa [ignoreInstall, binFalse] using congrArg List.length h

/-! ### Which modules are blocked -/

theorem nodup_config (hs : Sound vendor h) : ((config h.files vendor).map Prod.fst).Nodup := by
  rw [config, List.map_append, List.nodup_append]
  refine ⟨h.files.nodup, hs.nodup.sublist (List.filter_sublist.map _), ?_⟩
  rintro _ hfile file hvendor rfl
  obtain ⟨e, he, rfl⟩ := List.mem_map.mp hvendor
  exact of_decide_eq_true (List.mem_filter.mp he).2 hfile

/-- A file is a later one, or that of a tool. -/
theorem mem_config (hs : Sound vendor h) {e : Text × Text} (he : e ∈ config h.files vendor) :
    isLater e.1 ∨ ∃ name, isModName name ∧ e = (modFile name, ownText name) ∧ h.hasFile name := by
  rcases List.mem_append.mp he with he | he
  · refine (hs.files e he).imp_right ?_
    rintro ⟨name, hname, rfl⟩
    exact ⟨name, hname, rfl, by rw [Host.hasFile, Dict.get_of_mem_items he]; rfl⟩
  · exact .inl (hs.later e (List.mem_filter.mp he).1)

theorem eq_ownText (hs : Sound vendor h) {name content : Text} (hget : h.files.get (modFile name) = some content) :
    content = ownText name := by
  rcases hs.files _ (Dict.mem_items_of_get hget) with hlater | ⟨name', -, heq⟩
  · rw [not_isLater_modFile] at hlater
    cases hlater
  · obtain ⟨hfile, rfl⟩ := Prod.mk.inj heq
    rw [modFile_inj hfile]

theorem ownText_mem_config (hs : Sound vendor h) {name : Text} (hfile : h.hasFile name) :
    (modFile name, ownText name) ∈ config h.files vendor := by
  obtain ⟨content, hget⟩ := Option.isSome_iff_exists.mp hfile
  rw [← eq_ownText hs hget]
  exact List.mem_append_left _ (Dict.mem_items_of_get hget)

/-- The file that blocks the webcam comes before the overrides of its modules. -/
theorem webcam_first {name : Text} (hname : isModName name) (hmod : underscored name ∈ webcamModules) :
    modFile webcamToggle.name < modFile name := by
  have hheads : ∀ mod ∈ webcamModules, mod.head? = some 'i' ∨ mod.head? = some 'u' := by decide
  cases name with
  | nil => cases hname
  | cons c rest =>
    simp only [isModName, Bool.and_eq_true] at hname
    have hc : c ≠ '-' := by
      rintro rfl
      exact absurd hname.1.1.1 (by decide)
    have hhead : (underscored (c :: rest)).head? = some c := by
      rw [underscored, replace_char, List.flatMap_cons, if_neg hc]
      rfl
    have hd : 'd' < c := by
      rcases hheads _ hmod with h | h
      · rw [hhead] at h
        obtain rfl := Option.some.inj h
        decide
      · rw [hhead] at h
        obtain rfl := Option.some.inj h
        decide
    have hdash : ("99-" : Text) = ['9', '9', '-'] := rfl
    have hwebcam : webcamToggle.name = 'd' :: ("isable-webcam" : Text) := by decide
    rw [modFile, modFile, hdash, hwebcam]
    simpa using List.cons_lt_cons_iff.mpr (.inl hd)

theorem bluetooth_not_webcam : ∀ mod ∈ overridden bluetoothToggle.name, mod ∉ webcamModules := by decide

/-- The modules of which the file of a tool says anything. -/
theorem mod_mem_of_isSome (hm : IsModprobe command inForce) {name mod : Text} (hname : isModName name)
    (hsome : (command mod (ownText name)).isSome) :
    (name = webcamToggle.name ∧ mod ∈ webcamModules) ∨ (name ≠ webcamToggle.name ∧ mod ∈ overridden name) := by
  by_cases hne : name = webcamToggle.name
  · refine .inl ⟨hne, ?_⟩
    by_contra hmod
    rw [hne, command_webcam hm, if_neg hmod] at hsome
    cases hsome
  · refine .inr ⟨hne, ?_⟩
    by_contra hmod
    obtain ⟨x, hcommand⟩ := command_ownText hm hname hne mod
    rw [hcommand, if_neg hmod] at hsome
    cases hsome

/-- CORRECT: a module is blocked just if the webcam is blocked and it is one of its modules, or if no tool
    lets it be loaded and the other files block it. -/
theorem blocked_iff (hm : IsModprobe command inForce) (hs : Sound vendor h) (mod : Text) :
    inForce mod (config h.files vendor) = some binFalse ↔
      (h.hasFile webcamToggle.name ∧ mod ∈ webcamModules) ∨
      ((∀ name, isModName name → name ≠ webcamToggle.name → mod ∈ overridden name → ¬ h.hasFile name) ∧
        Precedence.first (command mod) (others h.files vendor) = some binFalse) := by
  have hnodup := nodup_config hs
  rw [hm.first mod _ hnodup]
  by_cases hwebcam : h.hasFile webcamToggle.name ∧ mod ∈ webcamModules
  · refine iff_of_true ?_ (.inl hwebcam)
    refine Precedence.first_of_least hnodup (ownText_mem_config hs hwebcam.1)
      ((command_webcam hm mod).trans (if_pos hwebcam.2)) fun e he hsome => ?_
    rcases mem_config hs he with hlater | ⟨name, hname, rfl, -⟩
    · exact (modFile_lt_of_isLater hlater _).le
    · rcases mod_mem_of_isSome hm hname hsome with ⟨rfl, -⟩ | ⟨-, hmod⟩
      · exact le_rfl
      · by_cases hbluetooth : name = bluetoothToggle.name
        · exact absurd hwebcam.2 (bluetooth_not_webcam mod (hbluetooth ▸ hmod))
        · rw [overridden, if_neg hbluetooth, List.mem_singleton] at hmod
          exact (webcam_first hname (hmod ▸ hwebcam.2)).le
  · rw [or_iff_right hwebcam]
    by_cases hover : ∀ name, isModName name → name ≠ webcamToggle.name → mod ∈ overridden name → ¬ h.hasFile name
    · rw [and_iff_right hover, others, Precedence.first_filter hnodup]
      intro e he hsome
      rcases mem_config hs he with hlater | ⟨name, hname, rfl, hfile⟩
      · exact hlater
      · rcases mod_mem_of_isSome hm hname hsome with ⟨rfl, hmod⟩ | ⟨hne, hmod⟩
        · exact absurd ⟨hfile, hmod⟩ hwebcam
        · exact absurd hfile (hover name hname hne hmod)
    · refine iff_of_false (fun hfirst => ?_) fun h => hover h.1
      push Not at hover
      obtain ⟨name, hname, hne, hmod, hfile⟩ := hover
      obtain ⟨e, he, hcommand, hbefore⟩ := (Precedence.first_eq_some hnodup).mp hfirst
      obtain ⟨x, hx⟩ := command_ownText hm hname hne mod
      rw [if_pos hmod] at hx
      rcases mem_config hs he with hlater | ⟨name', hname', rfl, hfile'⟩
      · rw [hbefore _ (ownText_mem_config hs hfile) (modFile_lt_of_isLater hlater name)] at hx
        cases hx
      · rcases mod_mem_of_isSome hm hname' (Option.isSome_of_eq_some hcommand) with ⟨rfl, hmod'⟩ | ⟨hne', hmod'⟩
        · exact hwebcam ⟨hfile', hmod'⟩
        · obtain ⟨y, hy⟩ := command_ownText hm hname' hne' mod
          rw [if_pos hmod', hcommand] at hy
          exact ignoreInstall_ne y (Option.some.inj hy).symm

/-! ### One call -/

/-- The directory with a file of the tools, or without it. -/
def update (files : Dict Text Text) (name : Text) (present : Bool) : Dict Text Text :=
  if present then files.set (modFile name) (ownText name) else files.erase (modFile name)

theorem hasFile_update (name name' : Text) (present : Bool) :
    ({ h with files := update h.files name' present } : Host).hasFile name =
      if name' = name then present else h.hasFile name := by
  by_cases hname : name' = name
  · cases present <;> simp [Host.hasFile, update, Dict.get_erase, hname]
  · have hfile : modFile name ≠ modFile name' := fun hfile => hname (modFile_inj hfile).symm
    cases present <;> simp [Host.hasFile, update, Dict.get_erase, hname, hfile]

/-- A toggle leaves everything as it is, or starts its worker. -/
theorem Toggle.main_cases (t : Toggle) (casefold : Text → Text) (args : List Text) (lines : List Dns.Selector.Line)
    (fate : Fate) (h : Host) :
    let after := t.main casefold args lines fate h
    (after.2 = h ∧ ∀ w, after.1 ∨ fate.granted → t.written casefold args lines = some w → h.hasFile w.1 = w.2) ∨
    (fate.granted ∧ ∃ enable, after = t.work enable fate.fails h ∧
      t.written casefold args lines = some (t.name, enable == t.fileEnables)) := by
  intro after
  unfold after Toggle.main Toggle.written
  cases toggleMode casefold args lines with
  | none => exact .inl ⟨rfl, fun w _ hw => nomatch hw⟩
  | some mode =>
    by_cases hmode : mode = "on" ∨ mode = "off"
    · simp only [if_pos hmode, Option.bind_some]
      by_cases hset : decide (mode = "on") = (h.hasFile t.name == t.fileEnables)
      · rw [if_pos hset]
        refine .inl ⟨rfl, ?_⟩
        rintro w - hw
        obtain rfl := Option.some.inj hw
        rw [hset]
        cases h.hasFile t.name <;> cases t.fileEnables <;> rfl
      · rw [if_neg hset]
        cases hgranted : fate.granted with
        | true => exact .inr ⟨rfl, decide (mode = "on"), if_pos rfl, rfl⟩
        | false => exact .inl ⟨rfl, fun w hok => by simp at hok⟩
    · simp only [if_neg hmode, Option.bind_some]
      exact .inl ⟨trivial, fun w _ hw => nomatch hw⟩

theorem ownText_of_ne {name : Text} (hwebcam : name ≠ webcamToggle.name) (hbluetooth : name ≠ bluetoothToggle.name) :
    ownText name = overrideLine name := by
  rw [ownText, if_neg hwebcam, if_neg hbluetooth]

/-- What a script does about the file of its module: nothing, or what it is for. -/
def Rewrites (r : Bool × Host) (h : Host) (name : Text) (present : Bool) : Prop :=
  r = (false, h) ∨ (r = (true, h) ∧ h.hasFile name = present) ∨
    (isModName name ∧ r = (true, ⟨update h.files name present, h.bluetoothService⟩))

theorem rewrites_overrideEnableModule {args : List Text}
    (htext : ownText (args.headD []) = overrideLine (args.headD [])) (h : Host) :
    Rewrites (overrideEnableModule args h) h (args.headD []) true := by
  unfold overrideEnableModule
  by_cases hname : isModName (args.headD [])
  · rw [if_neg (by rw [hname]; decide)]
    by_cases hfile : h.hasFile (args.headD [])
    · exact .inr (.inl ⟨if_pos hfile, hfile⟩)
    · exact .inr (.inr ⟨hname, by rw [update, htext]; exact if_neg hfile⟩)
  · exact .inl (if_pos (by simpa using hname))

theorem rewrites_overrideResetModule (args : List Text) (h : Host) :
    Rewrites (overrideResetModule args h) h (args.headD []) false := by
  unfold overrideResetModule
  by_cases hname : isModName (args.headD [])
  · rw [if_neg (by rw [hname]; decide)]
    by_cases hfile : h.hasFile (args.headD [])
    · exact .inr (.inr ⟨hname, if_pos hfile⟩)
    · exact .inr (.inl ⟨if_neg hfile, by simpa using hfile⟩)
  · exact .inl (if_pos (by simpa using hname))

theorem Rewrites.cases {r : Bool × Host} {name : Text} {present : Bool} (hr : Rewrites r h name present)
    (hne : name ≠ bluetoothToggle.name) (fails : Option ℕ) :
    let w := if r.1 then some (name, present) else none
    (r.2 = h ∧ ∀ e, w = some e → h.hasFile e.1 = e.2) ∨
    ∃ name present service, isModName name ∧ w = some (name, present) ∧
      r.2 = ⟨update h.files name present, service⟩ ∧
      (name ≠ bluetoothToggle.name → service = h.bluetoothService) ∧
      (name = bluetoothToggle.name → fails = none → service = serviceFor present) := by
  rcases hr with rfl | ⟨rfl, hfile⟩ | ⟨hname, rfl⟩
  · exact .inl ⟨rfl, nofun⟩
  · refine .inl ⟨rfl, fun e he => ?_⟩
    obtain rfl := Option.some.inj he
    exact hfile
  · exact .inr ⟨name, present, _, hname, rfl, rfl, fun _ => rfl, fun h => absurd h hne⟩

theorem ownText_webcam : ownText webcamToggle.name = webcamToggle.text := by rw [ownText, if_pos rfl]

theorem ownText_bluetooth : ownText bluetoothToggle.name = bluetoothToggle.text := by
  have hne : bluetoothToggle.name ≠ webcamToggle.name := by decide
  rw [ownText, if_neg hne, if_pos rfl]

theorem Toggle.work_eq {t : Toggle} (htext : ownText t.name = t.text) (enable : Bool) (fails : Option ℕ) (h : Host) :
    (t.work enable fails h).2 = ⟨update h.files t.name (enable == t.fileEnables),
      (systemctl (t.actions enable) fails h.bluetoothService).2⟩ := by
  rw [Toggle.work, update, htext]

/-- A toggle that comes to its worker, and what it leaves of the service. -/
theorem Toggle.call_cases {t : Toggle} (htext : ownText t.name = t.text) (casefold : Text → Text) (args : List Text)
    (lines : List Dns.Selector.Line) (fate : Fate) (h : Host) :
    let after := t.main casefold args lines fate h
    let w := if after.1 ∨ fate.granted then t.written casefold args lines else none
    (after.2 = h ∧ ∀ e, w = some e → h.hasFile e.1 = e.2) ∨
    ∃ enable, w = some (t.name, enable == t.fileEnables) ∧
      after.2 = ⟨update h.files t.name (enable == t.fileEnables),
        (systemctl (t.actions enable) fate.fails h.bluetoothService).2⟩ := by
  intro after w
  rcases t.main_cases casefold args lines fate h with ⟨hsame, hwritten⟩ | ⟨hgranted, enable, heq, hwritten⟩
  · refine .inl ⟨hsame, fun e he => ?_⟩
    by_cases hdone : after.1 ∨ fate.granted
    · exact hwritten e hdone (by rwa [show w = _ from if_pos hdone] at he)
    · rw [show w = none from if_neg hdone] at he
      cases he
  · refine .inr ⟨enable, (if_pos (.inr hgranted)).trans hwritten, ?_⟩
    exact (congrArg Prod.snd heq).trans (Toggle.work_eq htext enable fate.fails h)

/-- A call leaves everything as it is, where it writes nothing new, or it makes or deletes the file that it
    writes; the service for Bluetooth follows its file where no action fails. -/
theorem call_cases {casefold : Text → Text} {c : Call × Fate} (hc : c.1.Plain) (h : Host) :
    let after := call casefold c h
    (after.2 = h ∧ ∀ w, written casefold c after.1 = some w → h.hasFile w.1 = w.2) ∨
    ∃ name present service, isModName name ∧ written casefold c after.1 = some (name, present) ∧
      after.2 = ⟨update h.files name present, service⟩ ∧
      (name ≠ bluetoothToggle.name → service = h.bluetoothService) ∧
      (name = bluetoothToggle.name → c.2.fails = none → service = serviceFor present) := by
  obtain ⟨c, granted, fails⟩ := c
  intro after
  cases c with
  | overrideEnable args =>
    have hrewrites : Rewrites after h (args.headD []) true := by
      cases granted with
      | false => exact .inl rfl
      | true => exact rewrites_overrideEnableModule (ownText_of_ne hc.1 hc.2) h
    exact hrewrites.cases hc.2 fails
  | overrideReset args =>
    have hrewrites : Rewrites after h (args.headD []) false := by
      cases granted with
      | false => exact .inl rfl
      | true => exact rewrites_overrideResetModule args h
    exact hrewrites.cases hc.2 fails
  | webcam args lines =>
    rcases Toggle.call_cases ownText_webcam casefold args lines ⟨granted, fails⟩ h with
      hsame | ⟨enable, hwritten, heq⟩
    · exact .inl hsame
    · have hne : webcamToggle.name ≠ bluetoothToggle.name := by decide
      exact .inr ⟨webcamToggle.name, _, _, by decide, hwritten, heq, fun _ => rfl, fun h => absurd h hne⟩
  | bluetooth args lines =>
    rcases Toggle.call_cases ownText_bluetooth casefold args lines ⟨granted, fails⟩ h with
      hsame | ⟨enable, hwritten, heq⟩
    · exact .inl hsame
    · refine .inr ⟨bluetoothToggle.name, _, _, by decide, hwritten, heq, fun h => absurd rfl h, fun _ hfails => ?_⟩
      obtain rfl : fails = none := hfails
      cases enable <;> rfl

theorem sound_update (hs : Sound vendor h) {name : Text} (hname : isModName name) (present : Bool)
    (service : Service) : Sound vendor ⟨update h.files name present, service⟩ where
  later := hs.later
  nodup := hs.nodup
  files e he := by
    cases present with
    | true =>
      have hget := Dict.get_of_mem_items he
      simp only [update, if_pos, Dict.get_set] at hget
      split_ifs at hget with hfile
      · exact .inr ⟨name, hname, Prod.ext hfile (Option.some.inj hget).symm⟩
      · exact hs.files e (Dict.mem_items_of_get hget)
    | false => exact hs.files e (List.mem_filter.mp he).1

/-- A file of a tool is none of the others. -/
theorem others_update (files : Dict Text Text) (name : Text) (present : Bool) :
    others (update files name present) vendor = others files vendor := by
  have hfile := not_isLater_modFile name
  have hassign : ∀ items : List (Text × Text),
      (Dict.assign (modFile name) (ownText name) items).filter (isLater ·.1) = items.filter (isLater ·.1) := by
    intro items
    induction items with
    | nil => simp [Dict.assign, hfile]
    | cons e items ih =>
      rw [Dict.assign]
      split_ifs with he
      · simp [hfile, he]
      · rw [List.filter_cons, List.filter_cons, ih]
  have hkeys : ∀ e : Text × Text, isLater e.1 → (e.1 ∈ (update files name present).keys ↔ e.1 ∈ files.keys) := by
    intro e he
    have hne : e.1 ≠ modFile name := fun heq => by
      rw [heq, hfile] at he
      cases he
    cases present <;> simp [update, Dict.mem_keys, Dict.get_erase, hne]
  rw [others, others, config, config, List.filter_append, List.filter_append]
  congr 1
  · cases present with
    | true => exact hassign files.items
    | false =>
      simp only [update, Bool.false_eq_true, if_false, Dict.erase, List.filter_filter]
      refine List.filter_congr fun e _ => ?_
      by_cases he : e.1 = modFile name
      · simp [he, hfile]
      · simp [he]
  · rw [List.filter_filter, List.filter_filter]
    refine List.filter_congr fun e _ => ?_
    cases he : isLater e.1 with
    | true => simp [hkeys e he]
    | false => rfl

/-! ### Runs -/

variable {casefold : Text → Text}

/-- The step for calls that leave the files of the toggles to them. -/
def plainCall (casefold : Text → Text) (c : {c : Call × Fate // c.1.Plain}) (h : Host) : Bool × Host :=
  call casefold c.1 h

theorem sound_call (c : {c : Call × Fate // c.1.Plain}) (hs : Sound vendor h) :
    Sound vendor (plainCall casefold c h).2 := by
  rcases @call_cases casefold c.1 c.2 h with ⟨hsame, -⟩ | ⟨name, present, service, hname, -, hafter, -⟩
  · rw [plainCall, hsame]
    exact hs
  · rw [plainCall, hafter]
    exact sound_update hs hname present service

theorem isRegister_file (name : Text) : Register.IsRegister (plainCall casefold) (Sound vendor) (·.hasFile name)
    fun c ok => writesFile casefold name c.1 ok where
  keeps c _ hs := sound_call c hs
  view_step c h _ := by
    unfold writesFile
    rcases @call_cases casefold c.1 c.2 h with ⟨hsame, hwritten⟩ | ⟨name', present, service, -, hwritten, hafter, -⟩
    · rw [plainCall, hsame]
      cases hw : written casefold c.1 (call casefold c.1 h).1 with
      | none => rfl
      | some w =>
        rw [Option.bind_some]
        split_ifs with hname
        · rw [← hwritten w hw, hname]
          rfl
        · rfl
    · rw [plainCall, hafter, hwritten, Option.bind_some]
      refine (hasFile_update name name' present).trans ?_
      split_ifs <;> rfl

theorem isRegister_others : Register.IsRegister (plainCall casefold) (Sound vendor) (fun h => others h.files vendor)
    fun _ _ => none where
  keeps c _ hs := sound_call c hs
  view_step c h _ := by
    rcases @call_cases casefold c.1 c.2 h with ⟨hsame, -⟩ | ⟨name, present, service, -, -, hafter, -⟩
    · rw [plainCall, hsame]
      rfl
    · rw [plainCall, hafter]
      exact others_update h.files name present

theorem follows_call (c : {c : Call × Fate // c.1.Plain}) (h : Host) (hfails : c.1.2.fails = none)
    (hfollows : Follows h) : Follows (plainCall casefold c h).2 := by
  rcases @call_cases casefold c.1 c.2 h with ⟨hsame, -⟩ | ⟨name, present, service, -, -, hafter, hother, hservice⟩
  · rw [plainCall, hsame]
    exact hfollows
  · rw [plainCall, hafter]
    refine Eq.trans ?_ (congrArg serviceFor (hasFile_update bluetoothToggle.name name present).symm)
    split_ifs with hname
    · exact hservice hname hfails
    · exact (hother hname).trans hfollows

/-- A call for Bluetooth that asks for what the file says does nothing, whatever the service does. -/
theorem bluetooth_call_set {args : List Text} {lines : List Dns.Selector.Line} {w : Text × Bool}
    (hw : bluetoothToggle.written casefold args lines = some w) (hset : h.hasFile bluetoothToggle.name = w.2)
    (fate : Fate) : call casefold (.bluetooth args lines, fate) h = (true, h) := by
  unfold Toggle.written at hw
  obtain ⟨mode, hmode, hw⟩ := Option.bind_eq_some_iff.mp hw
  split_ifs at hw with honoff
  obtain rfl := Option.some.inj hw
  have hfile : decide (mode = "on") = (h.hasFile bluetoothToggle.name == bluetoothToggle.fileEnables) := by
    rw [hset]
    cases decide (mode = "on") <;> rfl
  have hmain : call casefold (.bluetooth args lines, fate) h = bluetoothToggle.main casefold args lines fate h := rfl
  rw [hmain, Toggle.main, hmode]
  dsimp only
  rw [if_pos honoff, if_pos hfile]

theorem status_audit {content : Text} (hline : blockedLine ∈ (fileLines content).map strip) (loaded : Bool) :
    (auditWebcamModule (some content) loaded).status = if loaded then .info else .pass := by
  unfold auditWebcamModule
  dsimp only
  rw [if_pos hline]
  cases loaded <;> rfl

theorem audit_webcam (hs : Sound vendor h) (loaded : Bool) :
    (auditWebcamModule (h.files.get (modFile webcamToggle.name)) loaded).status = .pass ↔
      h.hasFile webcamToggle.name ∧ loaded = false := by
  have hline : blockedLine ∈ (fileLines webcamToggle.text).map strip := List.mem_of_getLast? (by decide)
  unfold Host.hasFile
  cases hget : h.files.get (modFile webcamToggle.name) with
  | none =>
    have hstatus : (auditWebcamModule none loaded).status = .info := rfl
    simp [hstatus]
  | some content =>
    have hcontent : content = webcamToggle.text := (eq_ownText hs hget).trans ownText_webcam
    rw [hcontent, status_audit hline]
    cases loaded <;> simp

/-- CORRECT: whatever the tools are called with and whichever calls fail, a module is blocked in the end
    just if the webcam was turned off last and it is one of its modules, or if no override for it was made
    last and the files of others block it; these are the same, and the audit of the webcam agrees with the
    files. The service for Bluetooth follows its file as long as no action of a worker fails; if one does,
    calling the tool again does not help, because the file is there. -/
theorem modprobe_runs (hm : IsModprobe command inForce) (hs : Sound vendor h)
    (calls : List {c : Call × Fate // c.1.Plain}) :
    let after := Register.run (plainCall casefold) calls h
    let present (name : Text) : Bool :=
      (Register.last (fun c ok => writesFile casefold name c.1 ok) after.1).getD (h.hasFile name)
    (∀ mod, inForce mod (config after.2.files vendor) = some binFalse ↔
      (present webcamToggle.name ∧ mod ∈ webcamModules) ∨
      ((∀ name, isModName name → name ≠ webcamToggle.name → mod ∈ overridden name → ¬ present name) ∧
        Precedence.first (command mod) (others h.files vendor) = some binFalse)) ∧
    others after.2.files vendor = others h.files vendor ∧
    (Follows h → (∀ c ∈ calls, c.1.2.fails = none) →
      after.2.bluetoothService = serviceFor (present bluetoothToggle.name)) ∧
    (∀ args lines fate w, bluetoothToggle.written casefold args lines = some w →
      present bluetoothToggle.name = w.2 → call casefold (.bluetooth args lines, fate) after.2 = (true, after.2)) ∧
    ∀ loaded, (auditWebcamModule (after.2.files.get (modFile webcamToggle.name)) loaded).status = .pass ↔
      present webcamToggle.name ∧ loaded = false := by
  intro after present
  have hsound : Sound vendor after.2 := Register.run_invariant (fun c _ => sound_call c) calls hs
  have hpresent : ∀ name, after.2.hasFile name = present name := fun name => (isRegister_file name).value calls hs
  have hothers := (@isRegister_others vendor casefold).unwritten calls hs
  refine ⟨fun mod => ?_, hothers, fun hfollows hfails => ?_, fun args lines fate w hw hset => ?_, fun loaded => ?_⟩
  · have hblocked := blocked_iff hm hsound mod
    rw [hothers] at hblocked
    simpa only [hpresent] using hblocked
  · have hafter : Follows after.2 := Register.run_invariant_of (fun c h => follows_call c h) calls hfails hfollows
    rwa [Follows, hpresent] at hafter
  · exact bluetooth_call_set hw ((hpresent _).trans hset) fate
  · rw [← hpresent]
    exact audit_webcam hsound loaded

end

/-! ### An override that does not help -/

def uvcvideo : Text := "uvcvideo"

def vendorFiles : List (Text × Text) := [(("secureblue.conf" : Text), ("install uvcvideo /bin/false\n" : Text))]

/-- The webcam is turned off in spite of an override, and Bluetooth is turned on twice, where the service can
    be unmasked and not enabled at first. -/
def toolCalls : List {c : Call × Fate // c.1.Plain} :=
  [⟨(.overrideEnable [uvcvideo], ⟨true, none⟩), by decide, by decide⟩,
    ⟨(.webcam [("off" : Text)] [], ⟨true, none⟩), trivial⟩,
    ⟨(.bluetooth [("on" : Text)] [], ⟨true, some 1⟩), trivial⟩,
    ⟨(.bluetooth [("on" : Text)] [], ⟨true, none⟩), trivial⟩]

theorem isModprobe_installs : IsModprobe (fun mod content => (installs content).lookup mod)
    fun mod parts => Precedence.first (fun content => (installs content).lookup mod) parts where
  reads _ _ _ := rfl
  first _ _ _ := rfl

theorem sound_vendorFiles : Sound vendorFiles ⟨∅, serviceFor false⟩ where
  files e he := nomatch he
  later := by decide
  nodup := by decide

theorem modprobe_runs_toolCalls :
    let after := Register.run (plainCall id) toolCalls ⟨∅, serviceFor false⟩
    Precedence.first (fun content => (installs content).lookup uvcvideo) (config after.2.files vendorFiles) =
        some binFalse ∧
      call id (.bluetooth [("on" : Text)] [], ⟨true, none⟩) after.2 = (true, after.2) ∧
      after.2.hasFile bluetoothToggle.name ∧ after.2.bluetoothService = ⟨false, false⟩ := by
  intro after
  obtain ⟨hblocked, -, -, hset, -⟩ := @modprobe_runs _ _ _ _ id isModprobe_installs sound_vendorFiles toolCalls
  exact ⟨(hblocked uvcvideo).mpr (.inl ⟨by decide, by decide⟩), hset _ _ _ (bluetooth, true) (by decide) (by decide),
    by decide, by decide⟩

end Modprobe.Overrides
