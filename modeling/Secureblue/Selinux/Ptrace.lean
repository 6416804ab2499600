import Secureblue.Auditor.Report
import Secureblue.Py.Int
import Secureblue.Register
import Secureblue.Selinux.Booleans

/-! Access to ptrace: the tool that sets it (`set_ptrace.py`), the status that it and the audit read
    (`shared/ptrace.py`), and the audit (`audit_ptrace`).

    The tool keeps a choice of three in two SELinux booleans, of which one combination is spelled twice.
    The choice is a register that the successful calls write (`isRegister_access`); what is in effect is
    the choice under the restriction of `ptrace_scope`, which the tool never touches. -/

namespace Selinux
open Py Auditor

/-! ### The code -/

def seboolDenyPtrace : Text := "deny_ptrace"

def seboolContainerAllowPtrace : Text := "container_allow_ptrace"

def yamaDocUrl : Text := "https://www.kernel.org/doc/html/latest/admin-guide/LSM/Yama.html"

/-- Representation of status of ptrace access on system -/
inductive PtraceStatus where | disabled | adminOnly | containerOnly | restricted | unrestricted
  deriving DecidableEq

def ptraceHelp : Text :=
  ("Configure ptrace support (for anticheat, debugging tools, etc.)\n\n" : Text) ++
    ("usage:\nujust set-ptrace\n    Configure ptrace support interactively.\n\n" : Text) ++
    ("ujust set-ptrace on\n    Enable restricted ptrace: " : Text) ++
    ("all processes can ptrace their child processes.\n\n" : Text) ++
    ("ujust set-ptrace container\n    Enable restricted ptrace inside the container domain only.\n\n" : Text) ++
    ("ujust set-ptrace off\n    Disable ptrace.\n\n" : Text) ++
    ("ujust set-ptrace --help\n    Prints this message.\n" : Text)

/-- The exception for an unexpected `ptrace_scope`. -/
def invalidScope (scope : ℤ) : Failure :=
  .valueError ("invalid value '" ++ (toString scope).toList ++ "' for ptrace_scope")

section
variable (commands : Commands) (decimal : Char → Option ℕ)

/-- `int(f.read())` -/
def readScope (h : Host) : Except Failure ℤ :=
  match int decimal h.ptraceScope with
  | some scope => .ok scope
  | none => .error (.valueError "invalid literal for int() with base 10")

/-- Get current ptrace status on system. -/
def getPtraceStatus (succeeds : Bool) (h : Host) : Except Failure PtraceStatus := do
  let scope ← readScope decimal h
  let sebools ← getSelinuxBooleans commands succeeds h [seboolDenyPtrace, seboolContainerAllowPtrace]
  let denied := decide (seboolDenyPtrace ∈ sebools)
  let containerAllowed := decide (seboolContainerAllowPtrace ∈ sebools)
  if scope = 0 then return .unrestricted
  else if (denied ∧ !containerAllowed) ∨ scope = 3 then return .disabled
  else if scope = 2 ∧ !denied then return .adminOnly
  else if scope = 1 ∧ !denied then return .restricted
  else if denied ∧ containerAllowed then return .containerOnly
  else if scope ∉ ([0, 1, 2, 3] : List ℤ) then throw (invalidScope scope)
  else throw (.runtimeError "unreachable")

/-- The line of `show_status`. -/
def PtraceStatus.line : PtraceStatus → Text
  | disabled => "ptrace is disabled"
  | adminOnly => "ptrace is available only to administrative users"
  | containerOnly => "Restricted ptrace is enabled inside containers only"
  | restricted => "Restricted ptrace is enabled"
  | unrestricted => "WARNING: Unrestricted ptrace is enabled!"

/-- Check for unexpected ptrace_scope values. -/
def checkPtraceScope (h : Host) : Except Failure (List Text) := do
  let scope ← readScope decimal h
  if scope = 0 then return ["WARNING: ptrace is unrestricted (kernel.yama.ptrace_scope = 0)", yamaDocUrl]
  else if scope = 1 then return []
  else if scope = 2 then return [
    "Additional ptrace restrictions are configured (possibly in /etc/sysctl.d):",
    "kernel.yama.ptrace_scope is set to 2.",
    "NOTE: This restricts the use of ptrace to administrative users only.", yamaDocUrl]
  else if scope = 3 then return [
    "Additional ptrace restrictions are configured (possibly in /etc/sysctl.d):",
    "kernel.yama.ptrace_scope is set to 3.",
    "NOTE: This completely forbids the use of ptrace system-wide.", yamaDocUrl]
  else throw (invalidScope scope)

/-- A call of the tool, with what happens around it. -/
structure PtraceCall where
  /-- `sys.argv[1:]` -/
  args : List Text
  /-- what is selected in the list, unless the user cancels -/
  choice : Option Text
  /-- whether `getsebool` succeeds -/
  getsebool : Bool
  /-- what `run0 -i setsebool` returns -/
  setsebool : ℕ

/-- The three setters: after the check, the booleans are set unless they have the values already. -/
def setAccess (names : List Text) (already : List Text → Bool) (message : Text) (sebools : List (Text × Bool))
    (c : PtraceCall) (h : Host) : Outcome × Host :=
  match checkPtraceScope decimal h with
  | .error e => (⟨[], .error e⟩, h)
  | .ok printed =>
    match getSelinuxBooleans commands c.getsebool h names with
    | .error e => (⟨printed, .error e⟩, h)
    | .ok read =>
      if already read then (⟨printed ++ [message], .ok 0⟩, h)
      else
        let (code, h') := setSelinuxBooleans commands c.setsebool sebools h
        (⟨printed, .ok code⟩, h')

/-- Enable (restricted) ptrace access. -/
def enablePtrace : PtraceCall → Host → Outcome × Host :=
  setAccess commands decimal [seboolDenyPtrace] (fun sebools => seboolDenyPtrace ∉ sebools)
    "ptrace is already allowed by SELinux." [(seboolDenyPtrace, false)]

/-- Enable (restricted) ptrace access in containers only. -/
def setContainerPtrace : PtraceCall → Host → Outcome × Host :=
  setAccess commands decimal [seboolDenyPtrace, seboolContainerAllowPtrace]
    (fun sebools => seboolDenyPtrace ∈ sebools ∧ seboolContainerAllowPtrace ∈ sebools)
    "Container-only ptrace is already set." [(seboolDenyPtrace, true), (seboolContainerAllowPtrace, true)]

/-- Disable ptrace access. -/
def disablePtrace : PtraceCall → Host → Outcome × Host :=
  setAccess commands decimal [seboolDenyPtrace, seboolContainerAllowPtrace]
    (fun sebools => seboolDenyPtrace ∈ sebools ∧ seboolContainerAllowPtrace ∉ sebools)
    "ptrace is already disabled." [(seboolDenyPtrace, true), (seboolContainerAllowPtrace, false)]

/-- `get_selection`: the mode that was selected, or none if the user cancels. -/
def getSelection : Option Text → Except Failure (Option Text)
  | none => .ok none
  | some choice =>
    if choice = "enabled" then .ok (some "on")
    else if choice = "container-only" then .ok (some "container")
    else if choice = "disabled" then .ok (some "off")
    else .error (.valueError "invalid selection")

/-- Exit code 1 for a command that failed. -/
def catchCalledProcessError (o : Outcome) : Outcome :=
  match o.ended with
  | .error .calledProcessError => { o with ended := .ok 1 }
  | _ => o

/-- The `match mode` of `main`. -/
def runMode (mode : Option Text) (c : PtraceCall) (h : Host) : Outcome × Host :=
  match mode with
  | none => (⟨[], .ok 130⟩, h)
  | some mode =>
    if mode = "help" ∨ mode = "-h" ∨ mode = "--help" then (⟨[ptraceHelp], .ok 0⟩, h)
    else if mode = "status" then
      match getPtraceStatus commands decimal c.getsebool h with
      | .ok status => (⟨[status.line], .ok 0⟩, h)
      | .error e => (⟨[], .error e⟩, h)
    else if mode = "on" then enablePtrace commands decimal c h
    else if mode = "container" then setContainerPtrace commands decimal c h
    else if mode = "off" then disablePtrace commands decimal c h
    else (⟨["Invalid argument. See usage with --help."], .ok 2⟩, h)

/-- Handle the arguments and run the script. -/
def setPtrace (casefold : Text → Text) (c : PtraceCall) (h : Host) : Outcome × Host :=
  match c.args with
  | arg :: _ =>
    let (o, h') := runMode commands decimal (some (casefold arg)) c h
    (catchCalledProcessError o, h')
  | [] =>
    match getSelection c.choice with
    | .error e => (⟨[], .error e⟩, h)
    | .ok mode =>
      let (o, h') := runMode commands decimal mode c h
      (catchCalledProcessError o, h')

end

/-- The lines about what is allowed, shared by the recommendations of `audit_ptrace`. -/
def ptraceRecs (noteText : Text) (lines : List Text) : List Recommendation :=
  [⟨['\n'].intercalate (noteText :: lines), none⟩]

def checkSysctl : Text := "Check the configuration in /etc/sysctl.d to fix this."

def toForbid : List Text := ["To forbid ptrace, run:", "$ ujust set-ptrace off"]

/-- The report of `audit_ptrace`, from the status and `state["container_userns_enabled"]`. -/
def auditPtrace (ptraceStatus : PtraceStatus) (containerUserns : Bool) : Report :=
  let moreInfo : List Text := ["For more info on what this means, see:", yamaDocUrl]
  let report (status : Status) (noteText : Text) (lines : List Text) : Report :=
    { description := "Ensuring ptrace is forbidden", status, notes := [⟨noteText, some status⟩]
      recs := ptraceRecs noteText lines }
  match ptraceStatus with
  | .disabled => { description := "Ensuring ptrace is forbidden", status := .pass, notes := [], recs := [] }
  | .unrestricted => report .fail "ptrace is allowed and **unrestricted** (ptrace_scope = 0)!"
      (moreInfo ++ [checkSysctl])
  | .restricted => report .warn "ptrace is allowed, but restricted to child processes (ptrace_scope = 1)."
      (moreInfo ++ toForbid)
  | .adminOnly => report .info "ptrace access is restricted to administrative users (ptrace_scope = 2)."
      (moreInfo ++ toForbid)
  | .containerOnly => report (if containerUserns then .warn else .info)
      "ptrace on child processes (ptrace_scope = 1) is allowed inside containers." toForbid

/-- `state["ptrace_allowed"]` -/
def ptraceAllowed (report : Report) : Bool := decide (report.status ≠ .pass)

/-! ### What the booleans choose -/

/-- Where processes may use ptrace. -/
inductive Access where | off | container | on
  deriving DecidableEq

/-- The choice that the booleans stand for. -/
def Host.access (h : Host) : Access :=
  if h.booleans seboolDenyPtrace then
    if h.booleans seboolContainerAllowPtrace then .container else .off
  else .on

/-- A choice under the restriction of `ptrace_scope`. -/
def statusOf (scope : ℤ) (access : Access) : PtraceStatus :=
  if scope = 0 then .unrestricted
  else if scope = 3 then .disabled
  else match access with
    | .off => .disabled
    | .container => .containerOnly
    | .on => if scope = 2 then .adminOnly else .restricted

theorem isName_deny : IsName seboolDenyPtrace := ⟨by decide, by decide, by decide, by decide⟩

theorem isName_containerAllow : IsName seboolContainerAllowPtrace :=
  ⟨by decide, by decide, by decide, by decide⟩

theorem deny_ne_containerAllow : seboolDenyPtrace ≠ seboolContainerAllowPtrace := by decide

theorem isName_both : ∀ name ∈ [seboolDenyPtrace, seboolContainerAllowPtrace], IsName name := by
  intro name hname
  rcases List.mem_cons.mp hname with rfl | hname
  · exact isName_deny
  · exact List.mem_singleton.mp hname ▸ isName_containerAllow

section
variable {commands : Commands} (hcommands : commands.Documented) {decimal : Char → Option ℕ} {h : Host} {scope : ℤ}
include hcommands

/-- The status is the choice under the restriction. -/
theorem getPtraceStatus_eq (hscope : readScope decimal h = .ok scope) (hrange : 0 ≤ scope ∧ scope ≤ 3) :
    getPtraceStatus commands decimal true h = .ok (statusOf scope h.access) := by
  have hvalid : scope = 0 ∨ scope = 1 ∨ scope = 2 ∨ scope = 3 := by omega
  have hread := getSelinuxBooleans_eq hcommands h (List.cons_ne_nil _ _) isName_both
  have hne := deny_ne_containerAllow
  unfold getPtraceStatus
  rw [hscope, hread]
  rcases hvalid with rfl | rfl | rfl | rfl <;> cases hdeny : h.booleans seboolDenyPtrace <;>
    cases hcontainer : h.booleans seboolContainerAllowPtrace <;>
    simp [statusOf, Host.access, hdeny, hcontainer, bind, Except.bind, pure, Except.pure, hne, hne.symm]

end

/-! ### What a call does -/

/-- What a host has besides the choice. -/
structure Rest where
  booleans : {name : Text // name ≠ seboolDenyPtrace ∧ name ≠ seboolContainerAllowPtrace} → Bool
  modules : List Text
  ptraceScope : Text
  containers : Bool
  othersContainers : Bool

def Host.rest (h : Host) : Rest :=
  ⟨fun name => h.booleans name, h.modules, h.ptraceScope, h.containers, h.othersContainers⟩

/-- A call that asks for `access`: it gets it when it ends with exit code 0, and changes nothing
    otherwise. -/
structure Acts (access : Option Access) (h : Host) (r : Outcome × Host) : Prop where
  done : r.1.ended = .ok 0 → r.2.access = access.getD h.access
  failed : r.1.ended ≠ .ok 0 → r.2 = h
  rest : r.2.rest = h.rest

/-- A call that changes nothing, and asks for what is there if it succeeds. -/
theorem Acts.same {access : Option Access} {h : Host} {o : Outcome}
    (hdone : o.ended = .ok 0 → access.getD h.access = h.access) : Acts access h (o, h) :=
  ⟨fun ho => (hdone ho).symm, fun _ => rfl, rfl⟩

theorem Acts.catchCalledProcessError {access : Option Access} {h h' : Host} {o : Outcome}
    (hacts : Acts access h (o, h')) : Acts access h (Selinux.catchCalledProcessError o, h') := by
  obtain ⟨printed, ended⟩ := o
  rcases ended with (msg | msg | _) | code
  · exact hacts
  · exact hacts
  · exact ⟨fun ho => by simp [Selinux.catchCalledProcessError] at ho, fun _ => hacts.failed (by simp), hacts.rest⟩
  · exact hacts

/-- Assignments to the two booleans leave the rest. -/
theorem rest_updated {sebools : List (Text × Bool)}
    (hsebools : ∀ e ∈ sebools, e.1 = seboolDenyPtrace ∨ e.1 = seboolContainerAllowPtrace) (booleans : Text → Bool) :
    ∀ name, name ≠ seboolDenyPtrace → name ≠ seboolContainerAllowPtrace →
      updated booleans sebools name = booleans name := by
  induction sebools generalizing booleans with
  | nil => exact fun _ _ _ => rfl
  | cons e sebools ih =>
    intro name hdeny hcontainer
    have hne : name ≠ e.1 := fun he => (hsebools e List.mem_cons_self).elim (fun h => hdeny (he.trans h))
      fun h => hcontainer (he.trans h)
    have hrest := ih (fun d hd => hsebools d (List.mem_cons_of_mem e hd)) (Function.update booleans e.1 e.2)
      name hdeny hcontainer
    exact hrest.trans (Function.update_of_ne hne _ _)

theorem rest_set {h : Host} {sebools : List (Text × Bool)}
    (hsebools : ∀ e ∈ sebools, e.1 = seboolDenyPtrace ∨ e.1 = seboolContainerAllowPtrace) :
    ({ h with booleans := updated h.booleans sebools } : Host).rest = h.rest := by
  have hbooleans := rest_updated hsebools h.booleans
  simp only [Host.rest, Rest.mk.injEq, and_true]
  funext name
  exact hbooleans name.1 name.2.1 name.2.2

section
variable {commands : Commands} (hcommands : commands.Documented) {decimal : Char → Option ℕ} {h : Host}
  {c : PtraceCall}
include hcommands

theorem getSelinuxBooleans_eq_ok {names read : List Text} (hne : names ≠ []) (hnames : ∀ name ∈ names, IsName name)
    {succeeds : Bool} (hread : getSelinuxBooleans commands succeeds h names = .ok read) :
    read = names.filter h.booleans := by
  cases succeeds with
  | false => exact nomatch hread
  | true =>
    rw [getSelinuxBooleans_eq hcommands h hne hnames] at hread
    exact (Except.ok.inj hread).symm

/-- A setter gets what it asks for, if the test is right about the values being there and the
    assignments make them. -/
theorem acts_setAccess {names : List Text} {already : List Text → Bool} {message : Text}
    {sebools : List (Text × Bool)} {access : Access} (hne : names ≠ []) (hnames : ∀ name ∈ names, IsName name)
    (hne' : sebools ≠ []) (hsebools : ∀ e ∈ sebools, IsName e.1)
    (halready : already (names.filter h.booleans) → h.access = access)
    (hset : ({ h with booleans := updated h.booleans sebools } : Host).access = access)
    (hrest : ({ h with booleans := updated h.booleans sebools } : Host).rest = h.rest) :
    Acts (some access) h (setAccess commands decimal names already message sebools c h) := by
  unfold setAccess
  cases hcheck : checkPtraceScope decimal h with
  | error e => exact Acts.same nofun
  | ok printed =>
    cases hread : getSelinuxBooleans commands c.getsebool h names with
    | error e => exact Acts.same nofun
    | ok read =>
      obtain rfl := getSelinuxBooleans_eq_ok hcommands hne hnames hread
      dsimp only
      by_cases hthere : already (names.filter h.booleans) = true
      · rw [if_pos hthere]
        exact Acts.same fun _ => (halready hthere).symm
      · rw [if_neg hthere, setSelinuxBooleans_eq hcommands hne' hsebools]
        by_cases hcode : c.setsebool = 0
        · rw [if_pos hcode]
          exact ⟨fun _ => hset, fun hne => absurd (congrArg Except.ok hcode) hne, hrest⟩
        · rw [if_neg hcode]
          exact Acts.same fun ho => absurd (Except.ok.inj ho) hcode

theorem acts_enablePtrace : Acts (some .on) h (enablePtrace commands decimal c h) := by
  refine acts_setAccess hcommands (List.cons_ne_nil _ _) (fun name hname => List.mem_singleton.mp hname ▸ isName_deny)
    (List.cons_ne_nil _ _) (fun e he => List.mem_singleton.mp he ▸ isName_deny) ?_ ?_
    (rest_set fun e he => .inl (List.mem_singleton.mp he ▸ rfl))
  · intro hread
    have hdeny : h.booleans seboolDenyPtrace = false := by simpa using hread
    simp [Host.access, hdeny]
  · simp [Host.access, updated]

/-- The setters of the other two choices. -/
theorem acts_setBoth {already : List Text → Bool} {message : Text} {containerAllowed : Bool} {access : Access}
    (haccess : access = if containerAllowed then .container else .off)
    (halready : already ([seboolDenyPtrace, seboolContainerAllowPtrace].filter h.booleans) →
      h.booleans seboolDenyPtrace = true ∧ h.booleans seboolContainerAllowPtrace = containerAllowed) :
    Acts (some access) h (setAccess commands decimal [seboolDenyPtrace, seboolContainerAllowPtrace] already message
      [(seboolDenyPtrace, true), (seboolContainerAllowPtrace, containerAllowed)] c h) := by
  have hset : ∀ e ∈ [(seboolDenyPtrace, true), (seboolContainerAllowPtrace, containerAllowed)],
      e.1 = seboolDenyPtrace ∨ e.1 = seboolContainerAllowPtrace := by
    intro e he
    rcases List.mem_cons.mp he with rfl | he
    · exact .inl rfl
    · exact .inr (List.mem_singleton.mp he ▸ rfl)
  refine acts_setAccess hcommands (List.cons_ne_nil _ _) isName_both (List.cons_ne_nil _ _)
    (fun e he => (hset e he).elim (fun h => h ▸ isName_deny)
    fun h => h ▸ isName_containerAllow) ?_ ?_ (rest_set hset)
  · intro hread
    obtain ⟨hdeny, hcontainer⟩ := halready hread
    simp [Host.access, hdeny, hcontainer, haccess]
  · simp [Host.access, updated, haccess, deny_ne_containerAllow]

theorem acts_setContainerPtrace : Acts (some .container) h (setContainerPtrace commands decimal c h) :=
  acts_setBoth hcommands rfl fun hread => by simpa using hread

theorem acts_disablePtrace : Acts (some .off) h (disablePtrace commands decimal c h) :=
  acts_setBoth hcommands rfl fun hread => by
    simp only [decide_eq_true_eq, List.mem_filter, List.mem_cons, true_or, or_true, true_and,
      Bool.not_eq_true] at hread
    simpa using hread

end

/-! ### Runs -/

/-- The choice that a mode asks for. -/
def accessOf (mode : Text) : Option Access :=
  if mode = "on" then some .on
  else if mode = "container" then some .container
  else if mode = "off" then some .off
  else none

/-- The choice that a call asks for, by its argument or by what is selected. -/
def PtraceCall.request (casefold : Text → Text) (c : PtraceCall) : Option Access :=
  match c.args with
  | arg :: _ => accessOf (casefold arg)
  | [] => (getSelection c.choice).toOption.join.bind accessOf

/-- A call that ends with exit code 0 makes the choice that it asks for. -/
def writesAccess (casefold : Text → Text) (c : PtraceCall) (o : Outcome) : Option Access :=
  match o.ended with
  | .ok 0 => c.request casefold
  | _ => none

/-- A mode that asks for no choice. -/
theorem acts_other {h : Host} {o : Outcome} {mode : Text} (hmode : accessOf mode = none) :
    Acts (accessOf mode) h (o, h) :=
  Acts.same fun _ => by rw [hmode]; rfl

section
variable {commands : Commands} (hcommands : commands.Documented) {decimal : Char → Option ℕ} {h : Host}
  {c : PtraceCall}
include hcommands

theorem acts_runMode (mode : Option Text) : Acts (mode.bind accessOf) h (runMode commands decimal mode c h) := by
  cases mode with
  | none => exact Acts.same fun ho => absurd (Except.ok.inj ho) (by decide)
  | some mode =>
    rw [runMode, Option.bind_some]
    split_ifs with hhelp hstatus hon hcontainer hoff
    · have hnone : accessOf mode = none := by rcases hhelp with rfl | rfl | rfl <;> decide
      exact acts_other hnone
    · have hnone : accessOf mode = none := by subst hstatus; decide
      split
      · exact acts_other hnone
      · exact acts_other hnone
    · subst hon
      exact acts_enablePtrace hcommands
    · subst hcontainer
      exact acts_setContainerPtrace hcommands
    · subst hoff
      exact acts_disablePtrace hcommands
    · have hnone : accessOf mode = none := by rw [accessOf, if_neg hon, if_neg hcontainer, if_neg hoff]
      exact acts_other hnone

theorem acts_setPtrace (casefold : Text → Text) :
    Acts (c.request casefold) h (setPtrace commands decimal casefold c h) := by
  unfold setPtrace PtraceCall.request
  cases c.args with
  | cons arg args => exact (acts_runMode hcommands (some (casefold arg))).catchCalledProcessError
  | nil =>
    cases hchoice : getSelection c.choice with
    | error e => exact Acts.same nofun
    | ok mode => exact (acts_runMode hcommands mode).catchCalledProcessError

/-- The choice is a register of the tool. -/
theorem isRegister_access (casefold : Text → Text) :
    Register.IsRegister (setPtrace commands decimal casefold) (fun _ => True) Host.access (writesAccess casefold) where
  keeps _ _ _ := trivial
  view_step c h _ := by
    have hacts := @acts_setPtrace commands hcommands decimal h c casefold
    unfold writesAccess
    split
    · next ho => exact hacts.done ho
    · next ho => rw [hacts.failed ho]; rfl

theorem isRegister_rest (casefold : Text → Text) :
    Register.IsRegister (setPtrace commands decimal casefold) (fun _ => True) Host.rest fun _ _ => none where
  keeps _ _ _ := trivial
  view_step _ _ _ := (acts_setPtrace hcommands casefold).rest

end

/-- The audit passes just when ptrace is disabled. -/
theorem status_auditPtrace_eq_pass {status : PtraceStatus} {containerUserns : Bool} :
    (auditPtrace status containerUserns).status = .pass ↔ status = .disabled := by
  cases status with
  | disabled => exact iff_of_true rfl rfl
  | adminOnly => exact iff_of_false (show Status.info ≠ .pass by decide) nofun
  | containerOnly =>
    cases containerUserns with
    | false => exact iff_of_false (show Status.info ≠ .pass by decide) nofun
    | true => exact iff_of_false (show Status.warn ≠ .pass by decide) nofun
  | restricted => exact iff_of_false (show Status.warn ≠ .pass by decide) nofun
  | unrestricted => exact iff_of_false (show Status.fail ≠ .pass by decide) nofun

theorem statusOf_eq_disabled {scope : ℤ} {access : Access} :
    statusOf scope access = .disabled ↔ scope ≠ 0 ∧ (scope = 3 ∨ access = .off) := by
  unfold statusOf
  rcases eq_or_ne scope 0 with rfl | hzero
  · simp
  rcases eq_or_ne scope 3 with rfl | hthree
  · simp
  rw [if_neg hzero, if_neg hthree]
  cases access with
  | on =>
    dsimp only
    split <;> simp [hthree]
  | container => simp [hthree]
  | off => simp [hzero]

/-- CORRECT: after every run of the tool, with any arguments, selections and failing commands, the status
    is the choice of the last call that succeeded, or else the first choice, under the restriction of
    `ptrace_scope`; the audit passes iff that scope is not 0 and ptrace is off or the scope is 3; and
    nothing but the two booleans has changed. -/
theorem ptrace_runs {commands : Commands} (hcommands : commands.Documented) (decimal : Char → Option ℕ)
    (casefold : Text → Text) (calls : List PtraceCall) {h : Host} {scope : ℤ}
    (hscope : readScope decimal h = .ok scope) (hrange : 0 ≤ scope ∧ scope ≤ 3) :
    let after := Register.run (setPtrace commands decimal casefold) calls h
    let access := (Register.last (writesAccess casefold) after.1).getD h.access
    ∃ status, getPtraceStatus commands decimal true after.2 = .ok status ∧ status = statusOf scope access ∧
      (∀ containerUserns, (auditPtrace status containerUserns).status = .pass ↔
        scope ≠ 0 ∧ (scope = 3 ∨ access = .off)) ∧
      after.2.rest = h.rest := by
  intro after access
  have hrest : after.2.rest = h.rest := (isRegister_rest hcommands casefold).unwritten calls trivial
  have haccess : after.2.access = access := (isRegister_access hcommands casefold).value calls trivial
  have hscope' : readScope decimal after.2 = .ok scope := by
    have hsame : after.2.ptraceScope = h.ptraceScope := congrArg Rest.ptraceScope hrest
    rw [readScope, hsame]
    exact hscope
  refine ⟨statusOf scope access, ?_, rfl, fun _ => status_auditPtrace_eq_pass.trans statusOf_eq_disabled, hrest⟩
  rw [getPtraceStatus_eq hcommands hscope' hrange, haccess]

/-- A host as it is installed. -/
def installedHost : Host where
  booleans name := decide (name = seboolDenyPtrace)
  modules := ["harden_container_userns", "harden_userns"]
  ptraceScope := "1\n"
  containers := false
  othersContainers := false

theorem ptrace_runs_installed :
    let calls : List PtraceCall :=
      [⟨["on"], none, true, 0⟩, ⟨["off"], none, true, 1⟩, ⟨[], some "container-only", true, 0⟩]
    let after := Register.run (setPtrace commandsOfArgs (fun _ => none) id) calls installedHost
    ∃ status, getPtraceStatus commandsOfArgs (fun _ => none) true after.2 = .ok status := by
  intro calls
  obtain ⟨status, hstatus, -⟩ := @ptrace_runs _ commandsOfArgs_documented (fun _ => none) id calls installedHost 1
    (by decide) (by decide)
  exact ⟨status, hstatus⟩

end Selinux
