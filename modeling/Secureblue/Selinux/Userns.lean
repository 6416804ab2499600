import Secureblue.Selinux.Ptrace
import Secureblue.Toggle

/-! Creation of user namespaces: the tools for the container domains and for the unconfined ones
    (`set_container_userns.py`, `set_unconfined_userns.py`), the worker that switches an SELinux module
    (`inner/set_selinux_module.py`), the audits that read the status of the tools, and the script that
    enables Dangerzone (`enable_dangerzone.py`).

    A module denies what its tool permits. Each tool is a switch of its own: what its calls ask for and
    get is what the status and the audit show afterwards (`isRegister_container`,
    `isRegister_unconfined`). -/

namespace Selinux
open Py Auditor Toggle Dns.Selector

/-! ### The worker -/

/-- 'enable' or 'disable' -/
inductive ModuleMode where | enable | disable
  deriving DecidableEq

def ModuleMode.ofText (mode : Text) : Option ModuleMode :=
  if mode = "enable" then some enable else if mode = "disable" then some disable else none

/-- `{mode}` -/
def ModuleMode.text : ModuleMode → Text
  | enable => "enable"
  | disable => "disable"

/-- `f"--{mode}={module_name}"` -/
def ModuleMode.argument (mode : ModuleMode) (name : Text) : Text := ("--" : Text) ++ mode.text ++ "=" ++ name

section
variable (commands : Commands)

/-- `set_module`, where `semodule` is what the command returns: nothing is changed unless it is zero. -/
def setModule (semodule : ℕ) (mode : ModuleMode) (name : Text) (h : Host) : List Text × ℕ × Host :=
  if semodule = 0 then
    ([("SELinux module '" : Text) ++ name ++ ("' " : Text) ++ mode.text ++ ("d." : Text)], 0,
      { h with modules := commands.semodule h.modules (mode.argument name) })
  else ([], semodule, h)

/-- `main` of the worker, on `sys.argv[1:]`. -/
def setSelinuxModule (semodule : ℕ) (args : List Text) (h : Host) : List Text × ℕ × Host :=
  match args with
  | [mode, name] =>
    match ModuleMode.ofText mode with
    | some mode => setModule commands semodule mode name h
    | none => (["Invalid argument: first argument must be 'enable' or 'disable'."], 2, h)
  | _ => (["set_selinux_module.py must have exactly two arguments."], 2, h)

end

/-! ### The tools -/

/-- A call of one of the tools, with what happens around it. -/
structure UsernsCall where
  /-- `sys.argv[1:]` -/
  args : List Text
  /-- what the user enters -/
  lines : List Line
  /-- whether `semodule -l` succeeds, as it does for root -/
  privileged : Bool
  /-- whether `podman stop --all` succeeds -/
  podmanStop : Bool
  /-- whether a `catatonit` of another user is found when podman is shut down -/
  catatonit : Bool
  /-- with `some n`, `run0` fails with code `n + 1` and the worker is not started -/
  run0 : Option ℕ
  /-- what `semodule` returns -/
  semodule : ℕ

/-- `sandbox.run(semodule_function, ...)` -/
def runWorker (commands : Commands) (c : UsernsCall) (args : List Text) (h : Host) : List Text × ℕ × Host :=
  match c.run0 with
  | some n => ([], n + 1, h)
  | none => setSelinuxModule commands c.semodule args h

/-- What the two tools do not share. -/
structure Tool where
  /-- `CONTAINER_USERNS_MODULE` or `UNCONFINED_USERNS_MODULE` -/
  moduleName : Text
  title : Text
  programs : Text
  /-- `HELP_MESSAGE` -/
  helpMessage : Text

/-- Whether the module does not deny creation of user namespaces. -/
def Tool.permits (t : Tool) (h : Host) : Bool := decide (t.moduleName ∉ h.modules)

/-- `container_userns_enabled` and `unconfined_userns_enabled`: the module is looked up, or a command
    that needs a user namespace is tried. -/
def usernsEnabled (t : Tool) (unshare : Host → Bool) (c : UsernsCall) (h : Host) : Bool :=
  if c.privileged then decide (t.moduleName ∉ splitlines (unlines h.modules)) else unshare h

/-- What is printed before the module is switched, as it is before it is wrapped. -/
def Tool.switching (t : Tool) : ModuleMode → Text
  | .disable => t.title ++ (" user namespace creation (e.g. for " : Text) ++ t.programs ++
      (") is currently disabled. Enabling it now by disabling SELinux module '" : Text) ++ t.moduleName ++ "'."
  | .enable => t.title ++ (" user namespace creation (e.g. for " : Text) ++ t.programs ++
      (") is currently enabled. Disabling it now by enabling SELinux module '" : Text) ++ t.moduleName ++ "'."

def Tool.switched (t : Tool) : ModuleMode → Text
  | .disable => t.title ++ (" user namespace creation enabled." : Text)
  | .enable => t.title ++ (" user namespace creation disabled." : Text)

def Tool.already (t : Tool) : ModuleMode → Text
  | .disable => t.title ++ (" user namespace creation is already enabled." : Text)
  | .enable => t.title ++ (" user namespace creation is already disabled." : Text)

section
variable (commands : Commands)

/-- The last lines of the functions that enable and disable: the worker, after what is `printed`. -/
def switchModule (t : Tool) (mode : ModuleMode) (printed : List Text) (c : UsernsCall) (h : Host) :
    Outcome × Host :=
  let (lines, code, h') := runWorker commands c [mode.text, t.moduleName] h
  let done : List Text := if code = 0 then [t.switched mode] else []
  (⟨printed ++ lines ++ done, .ok code⟩, h')

/-- `enable_container_userns` and `enable_unconfined_userns` -/
def enableUserns (t : Tool) (currentlyEnabled : Bool) (c : UsernsCall) (h : Host) : Outcome × Host :=
  if currentlyEnabled then (⟨[t.already .disable], .ok 0⟩, h)
  else switchModule commands t .disable [t.switching .disable] c h

/-- `disable_unconfined_userns` -/
def disableUnconfinedUserns (t : Tool) (currentlyEnabled : Bool) (c : UsernsCall) (h : Host) :
    Outcome × Host :=
  if !currentlyEnabled then (⟨[t.already .enable], .ok 0⟩, h)
  else switchModule commands t .enable [t.switching .enable] c h

def aborting : Text := "Aborting..."

def stoppingContainers : Text := "Stopping all containers and shutting down podman..."

def failedToStop : Text := "Failed to stop containers. Aborting..."

def stoppingWarning : Text := "Warning: This will stop ALL containers and shut down podman."

/-- The warning of `stop_containers`, before it is wrapped. -/
def catatonitWarning : Text :=
  ("Warning: Catatonit running as another user detected. " : Text) ++ "Reboot your machine to reset podman state."

/-- `disable_container_userns` with its prompt, and `stop_containers`: the user's containers are stopped
    before the module is enabled; for those of other users there is only a warning. -/
def disableContainerUserns (casefold : Text → Text) (t : Tool) (currentlyEnabled : Bool) (lines : List Line)
    (c : UsernsCall) (h : Host) : Outcome × Host :=
  if !currentlyEnabled then (⟨[t.already .enable], .ok 0⟩, h)
  else
    let warning : List Text := [t.switching .enable, stoppingWarning]
    match askYesNo casefold lines with
    | none => (⟨warning, .ok 130⟩, h)
    | some (false, _) => (⟨warning ++ [aborting], .ok 0⟩, h)
    | some (true, _) =>
      let stopping := warning ++ [stoppingContainers]
      if c.podmanStop then
        let left : List Text := if c.catatonit then [catatonitWarning] else []
        switchModule commands t .enable (stopping ++ left) c { h with containers := false }
      else (⟨stopping ++ [failedToStop], .ok 1⟩, h)

/-- `run` and `main` of a tool, from its parts; the question for the mode is asked first. -/
def runTool (casefold : Text → Text) (t : Tool) (unshare : Host → Bool)
    (disable : Bool → List Line → UsernsCall → Host → Outcome × Host) (c : UsernsCall) (h : Host) :
    Outcome × Host :=
  match parseBasicToggleArgs casefold true c.args c.lines with
  | .interrupted => (⟨[], .ok 130⟩, h)
  | .usage msg => (⟨[usageError msg], .ok 2⟩, h)
  | .mode .help _ => (⟨[t.helpMessage], .ok 0⟩, h)
  | .mode .status _ => (⟨[if usernsEnabled t unshare c h then "enabled" else "disabled"], .ok 0⟩, h)
  | .mode .on _ => enableUserns commands t (usernsEnabled t unshare c h) c h
  | .mode .off left => disable (usernsEnabled t unshare c h) left c h

end

def containerHelp : Text :=
  ("Toggles if container-domain user namespace creation is allowed.\n\n" : Text) ++
    ("usage:\nujust set-container-userns\n" : Text) ++
    ("    Enables or disables interactively based on the user's preference.\n\n" : Text) ++
    ("ujust set-container-userns on\n" : Text) ++
    ("    Enables container-domain userns creation; does nothing if already on.\n\n" : Text) ++
    ("ujust set-container-userns off\n" : Text) ++
    ("    Disables container-domain userns creation; does nothing if already off.\n\n" : Text) ++
    ("ujust set-container-userns status\n" : Text) ++
    ("    Reports if container-domain userns creation is enabled or disabled.\n\n" : Text) ++
    ("ujust set-container-userns --help\n    Prints this message.\n" : Text)

def unconfinedHelp : Text :=
  ("Toggles if unconfined-domain user namespace creation is allowed.\n\n" : Text) ++
    ("usage:\nujust set-unconfined-userns\n" : Text) ++
    ("    Enables or disables interactively based on the user's preference.\n\n" : Text) ++
    ("ujust set-unconfined-userns on\n" : Text) ++
    ("    Enables unconfined-domain userns creation; does nothing if already on.\n\n" : Text) ++
    ("ujust set-unconfined-userns off\n" : Text) ++
    ("    Disables unconfined-domain userns creation; does nothing if already off.\n\n" : Text) ++
    ("ujust set-unconfined-userns status\n" : Text) ++
    ("    Reports if unconfined-domain userns creation is enabled or disabled.\n\n" : Text) ++
    ("ujust set-unconfined-userns --help\n    Prints this message.\n" : Text)

def containerTool : Tool :=
  ⟨"harden_container_userns", "Container-domain", "podman or distrobox", containerHelp⟩

def unconfinedTool : Tool := ⟨"harden_userns", "Unconfined-domain", "bubblejail", unconfinedHelp⟩

/-- `set_container_userns.py`, where `podmanUnshare` says whether `podman unshare true` succeeds. -/
def setContainerUserns (commands : Commands) (casefold : Text → Text) (podmanUnshare : Host → Bool) :
    UsernsCall → Host → Outcome × Host :=
  runTool commands casefold containerTool podmanUnshare (disableContainerUserns commands casefold containerTool)

/-- `set_unconfined_userns.py`, where `unshare` says whether `unshare -U true` succeeds. -/
def setUnconfinedUserns (commands : Commands) (casefold : Text → Text) (unshare : Host → Bool) :
    UsernsCall → Host → Outcome × Host :=
  runTool commands casefold unconfinedTool unshare fun currentlyEnabled _ =>
    disableUnconfinedUserns commands unconfinedTool currentlyEnabled

/-! ### The audits -/

/-- `command_stdout`: what a program prints, stripped. -/
def commandStdout (o : Outcome) : Text := strip (unlines o.printed)

/-- `audit_container_userns`: the report and `state["container_userns_enabled"]`, from what the status
    command prints. -/
def auditContainerUserns (stdout : Text) : Report × Bool :=
  let containerUserns := decide (stdout ≠ "disabled")
  ({ description := "Ensuring container user namespace creation disallowed"
     status := if containerUserns then .warn else .pass
     notes := []
     recs := if containerUserns then [⟨("Container domain user namespace creation is permitted.\n" : Text) ++
       "To disallow it, run:\n$ ujust set-container-userns off", none⟩] else [] },
    containerUserns)

/-- `audit_unconfined_userns` -/
def auditUnconfinedUserns (stdout : Text) : Report :=
  let disabled := decide (stdout = "disabled")
  { description := "Ensuring unconfined user namespace creation disallowed"
    status := if disabled then .pass else .fail
    notes := []
    recs := if disabled then [] else [⟨("Unconfined domain user namespace creation is permitted.\n" : Text) ++
      "To disallow it, run:\n$ ujust set-unconfined-userns off", none⟩] }

/-! ### Calls of a tool -/

/-- What a call does to the host: creation of user namespaces is permitted or denied as it says, and
    nothing else changes, except that no container of the user runs after a call that stops containers has
    denied. -/
structure Switches (t : Tool) (stops : Bool) (value : Option Bool) (h h' : Host) : Prop where
  permits : t.permits h' = value.getD (t.permits h)
  others : h'.modules.filter (· ≠ t.moduleName) = h.modules.filter (· ≠ t.moduleName)
  booleans : h'.booleans = h.booleans
  ptraceScope : h'.ptraceScope = h.ptraceScope
  othersContainers : h'.othersContainers = h.othersContainers
  containers : h'.containers → h.containers
  stopped : stops → value = some false → t.permits h → h'.containers = false
  running : stops = false → h'.containers = h.containers

section
variable {t : Tool} {stops : Bool} {h : Host} {c : UsernsCall}

/-- A call that leaves the host as it is, where what it says holds already. -/
theorem Switches.same {value : Option Bool} (hvalue : ∀ b, value = some b → t.permits h = b) :
    Switches t stops value h h where
  permits := by
    cases value with
    | none => rfl
    | some b => exact hvalue b rfl
  others := rfl
  booleans := rfl
  ptraceScope := rfl
  othersContainers := rfl
  containers := id
  stopped _ hv hp := absurd ((hvalue false hv).symm.trans hp) (by decide)
  running _ := rfl

theorem ModuleMode.ofText_text (mode : ModuleMode) : ModuleMode.ofText mode.text = some mode := by
  cases mode <;> decide

theorem ModuleMode.argument_eq (name : Text) :
    enable.argument name = ("--enable=" : Text) ++ name ∧ disable.argument name = ("--disable=" : Text) ++ name :=
  ⟨rfl, rfl⟩

section
variable {commands : Commands} (hcommands : commands.Documented)
include hcommands

/-- The mode of the module that denies, or not. -/
theorem permits_semodule (t : Tool) (mode : ModuleMode) (h : Host) :
    t.permits { h with modules := commands.semodule h.modules (mode.argument t.moduleName) } =
      decide (mode = .disable) := by
  obtain ⟨henable, hdisable⟩ := ModuleMode.argument_eq t.moduleName
  cases mode with
  | enable =>
    have hmem := hcommands.enable h.modules t.moduleName
    rw [henable]
    exact decide_eq_false (not_not.mpr hmem)
  | disable =>
    have hnot := hcommands.disable h.modules t.moduleName
    rw [hdisable]
    exact decide_eq_true hnot

theorem filter_semodule (mode : ModuleMode) (name : Text) (modules : List Text) :
    (commands.semodule modules (mode.argument name)).filter (· ≠ name) = modules.filter (· ≠ name) := by
  obtain ⟨henable, hdisable⟩ := ModuleMode.argument_eq name
  cases mode with
  | enable =>
    rw [henable]
    exact hcommands.others modules name "--enable=" List.mem_cons_self
  | disable =>
    rw [hdisable]
    exact hcommands.others modules name "--disable=" (List.mem_cons_of_mem _ List.mem_cons_self)

end

/-- The worker switches the module, or fails and changes nothing. -/
theorem runWorker_cases (commands : Commands) (mode : ModuleMode) (name : Text) (c : UsernsCall) (h : Host) :
    ((runWorker commands c [mode.text, name] h).2.1 = 0 ∧ (runWorker commands c [mode.text, name] h).2.2 =
      { h with modules := commands.semodule h.modules (mode.argument name) }) ∨
    ((runWorker commands c [mode.text, name] h).2.1 ≠ 0 ∧ (runWorker commands c [mode.text, name] h).2.2 = h) := by
  unfold runWorker
  cases c.run0 with
  | some n => exact .inr ⟨Nat.succ_ne_zero n, rfl⟩
  | none =>
    dsimp only
    rw [setSelinuxModule, ModuleMode.ofText_text]
    dsimp only
    unfold setModule
    split_ifs with hcode
    · exact .inl ⟨rfl, rfl⟩
    · exact .inr ⟨hcode, rfl⟩

/-- The user did not answer the second question with no. -/
def confirmed (casefold : Text → Text) (lines : List Line) : Bool :=
  match askYesNo casefold lines with
  | some (false, _) => false
  | _ => true

section
variable {commands : Commands} (hcommands : commands.Documented)
include hcommands

/-- The module is switched, after the containers may have been stopped. -/
theorem switches_switchModule (mode : ModuleMode) (printed : List Text) {running : Bool}
    (hrunning : running = if stops ∧ mode = .enable then false else h.containers) :
    let r := switchModule commands t mode printed c { h with containers := running }
    Switches t stops (if r.1.ended = .ok 0 then some (decide (mode = .disable)) else none) h r.2 := by
  intro r
  have hcontainers : running → h.containers := by
    rw [hrunning]
    split_ifs <;> simp
  have hkept : stops = false → running = h.containers := by
    intro hstops
    simp [hrunning, hstops]
  rcases runWorker_cases commands mode t.moduleName c { h with containers := running } with
    ⟨hcode, hh⟩ | ⟨hcode, hh⟩
  · have hended : r.1.ended = .ok 0 := congrArg Except.ok hcode
    rw [if_pos hended, show r.2 = _ from hh]
    refine ⟨permits_semodule hcommands t mode _, filter_semodule hcommands mode _ _, rfl, rfl, rfl, hcontainers,
      fun hstops hvalue _ => ?_, hkept⟩
    have hmode : mode = .enable := by
      cases mode with
      | enable => rfl
      | disable => exact absurd hvalue (by decide)
    exact hrunning.trans (if_pos ⟨hstops, hmode⟩)
  · have hended : r.1.ended ≠ .ok 0 := fun he => hcode (Except.ok.inj he)
    rw [if_neg hended, show r.2 = _ from hh]
    exact ⟨rfl, rfl, rfl, rfl, rfl, hcontainers, fun _ => nofun, hkept⟩

theorem switches_enableUserns : let r := enableUserns commands t (t.permits h) c h
    Switches t stops (if r.1.ended = .ok 0 then some true else none) h r.2 := by
  intro r
  cases hp : t.permits h with
  | true =>
    have hr : r = (⟨[t.already .disable], .ok 0⟩, h) := by
      rw [show r = enableUserns commands t (t.permits h) c h from rfl, hp]
      rfl
    rw [hr]
    exact Switches.same fun b hb => by rw [hp, Option.some.inj hb]
  | false =>
    have hr : r = switchModule commands t .disable [t.switching .disable] c h := by
      rw [show r = enableUserns commands t (t.permits h) c h from rfl, hp]
      rfl
    rw [hr]
    exact switches_switchModule hcommands .disable _ (by simp)

theorem switches_disableUnconfinedUserns : let r := disableUnconfinedUserns commands t (t.permits h) c h
    Switches t false (if r.1.ended = .ok 0 then some false else none) h r.2 := by
  intro r
  cases hp : t.permits h with
  | true =>
    have hr : r = switchModule commands t .enable [t.switching .enable] c h := by
      rw [show r = disableUnconfinedUserns commands t (t.permits h) c h from rfl, hp]
      rfl
    rw [hr]
    exact switches_switchModule hcommands .enable _ (by simp)
  | false =>
    have hr : r = (⟨[t.already .enable], .ok 0⟩, h) := by
      rw [show r = disableUnconfinedUserns commands t (t.permits h) c h from rfl, hp]
      rfl
    rw [hr]
    exact Switches.same fun b hb => by rw [hp, Option.some.inj hb]

theorem switches_disableContainerUserns (casefold : Text → Text) (lines : List Line) :
    let r := disableContainerUserns commands casefold t (t.permits h) lines c h
    Switches t true (if r.1.ended = .ok 0 ∧ confirmed casefold lines then some false else none) h r.2 := by
  intro r
  have hr : r = disableContainerUserns commands casefold t (t.permits h) lines c h := rfl
  clear_value r
  subst hr
  unfold disableContainerUserns confirmed
  cases hp : t.permits h with
  | false =>
    rw [if_pos (show (!false) = true from rfl)]
    refine Switches.same fun b hb => ?_
    rw [hp]
    simp only [true_and, Option.ite_none_right_eq_some] at hb
    exact Option.some.inj hb.2
  | true =>
    rw [if_neg (show ¬(!true) = true by decide)]
    rcases askYesNo casefold lines with _ | ⟨_ | _, left⟩
    · exact Switches.same fun b hb => by simp at hb
    · exact Switches.same fun b hb => by simp at hb
    · dsimp only
      cases c.podmanStop with
      | false => exact Switches.same fun b hb => by simp at hb
      | true =>
        simp only [and_true, if_true]
        exact switches_switchModule hcommands .enable _ (by simp)

end

end

/-- What a call of a tool says, by its mode and its result. -/
def UsernsCall.switch (casefold : Text → Text) (proceeds : List Line → Bool) (c : UsernsCall) (o : Outcome) :
    Option Bool :=
  match parseBasicToggleArgs casefold true c.args c.lines with
  | .mode .on _ => if o.ended = .ok 0 then some true else none
  | .mode .off left => if o.ended = .ok 0 ∧ proceeds left then some false else none
  | _ => none

/-- The names of the modules are lines of `semodule -l`. -/
def ModuleLines (h : Host) : Prop := ∀ m ∈ h.modules, ∀ c ∈ m, isLineBreak c = false

section
variable {casefold : Text → Text} {t : Tool} {stops : Bool} {unshare : Host → Bool} {h : Host} {c : UsernsCall}

theorem usernsEnabled_eq (hunshare : unshare h = t.permits h) (hlines : ModuleLines h) :
    usernsEnabled t unshare c h = t.permits h := by
  unfold usernsEnabled
  rw [splitlines_unlines hlines]
  split_ifs
  · rfl
  · exact hunshare

section
variable {commands : Commands} (hcommands : commands.Documented)
include hcommands

/-- A call of a tool does what it says, if its function for the mode `off` does. -/
theorem switches_runTool {disable : Bool → List Line → UsernsCall → Host → Outcome × Host}
    {proceeds : List Line → Bool} (hunshare : unshare h = t.permits h) (hlines : ModuleLines h)
    (hdisable : ∀ left, let r := disable (t.permits h) left c h
      Switches t stops (if r.1.ended = .ok 0 ∧ proceeds left then some false else none) h r.2) :
    let r := runTool commands casefold t unshare disable c h
    Switches t stops (c.switch casefold proceeds r.1) h r.2 := by
  intro r
  have hr : r = runTool commands casefold t unshare disable c h := rfl
  clear_value r
  subst hr
  unfold runTool UsernsCall.switch
  rw [usernsEnabled_eq hunshare hlines]
  rcases parseBasicToggleArgs casefold true c.args c.lines with ⟨_ | _ | _ | _, left⟩ | msg | _
  · exact switches_enableUserns hcommands
  · exact hdisable left
  · exact Switches.same nofun
  · exact Switches.same nofun
  · exact Switches.same nofun
  · exact Switches.same nofun

theorem switches_setContainerUserns (hunshare : unshare h = containerTool.permits h) (hlines : ModuleLines h) :
    let r := setContainerUserns commands casefold unshare c h
    Switches containerTool true (c.switch casefold (confirmed casefold) r.1) h r.2 :=
  switches_runTool hcommands hunshare hlines fun left => switches_disableContainerUserns hcommands casefold left

theorem switches_setUnconfinedUserns (hunshare : unshare h = unconfinedTool.permits h) (hlines : ModuleLines h) :
    let r := setUnconfinedUserns commands casefold unshare c h
    Switches unconfinedTool false (c.switch casefold (fun _ => true) r.1) h r.2 :=
  switches_runTool hcommands hunshare hlines fun left => by
    simpa only [and_true] using switches_disableUnconfinedUserns hcommands

end

/-- The status is shown, and nothing changed. -/
theorem runTool_status {commands : Commands} {disable : Bool → List Line → UsernsCall → Host → Outcome × Host}
    (hunshare : unshare h = t.permits h) (hlines : ModuleLines h)
    (hmode : (parseBasicToggleArgs casefold true c.args c.lines).asked = some .status) :
    runTool commands casefold t unshare disable c h =
      (⟨[if t.permits h then "enabled" else "disabled"], .ok 0⟩, h) := by
  unfold runTool
  rw [usernsEnabled_eq hunshare hlines]
  generalize parseBasicToggleArgs casefold true c.args c.lines = parsed at hmode
  rcases parsed with ⟨m, left⟩ | msg | _
  · obtain rfl : m = .status := Option.some.inj hmode
    rfl
  · exact nomatch hmode
  · exact nomatch hmode

/-- The module that denies the other tool's domain is left as it is. -/
theorem Switches.mem_iff {value : Option Bool} {h h' : Host} (hs : Switches t stops value h h') {m : Text}
    (hm : m ≠ t.moduleName) : m ∈ h'.modules ↔ m ∈ h.modules := by
  have hiff : m ∈ h'.modules.filter (· ≠ t.moduleName) ↔ m ∈ h.modules.filter (· ≠ t.moduleName) := by
    rw [hs.others]
  simpa [hm] using hiff

theorem Switches.moduleLines {value : Option Bool} {h h' : Host} (hs : Switches t stops value h h')
    (hname : ∀ c ∈ t.moduleName, isLineBreak c = false) (hlines : ModuleLines h) : ModuleLines h' := by
  intro m hm
  by_cases hne : m = t.moduleName
  · exact hne ▸ hname
  · exact hlines m ((hs.mem_iff hne).mp hm)

end

end Selinux
