import Secureblue.Selinux.Userns

/-! The tools for SELinux on one host: ptrace, the two tools for user namespaces and the script that enables
    Dangerzone by calling two of them (`enable_dangerzone.py`), in any order, while containers are started.

    Each tool writes its own switch and the script writes two; no switch is lost or written by another
    tool (`isRegister_container`, `isRegister_unconfined`, `isRegister_access`). The containers of the user
    are stopped before the switch is turned off; those of other users are left running. -/

namespace Selinux
open Py Auditor Toggle Dns.Selector

/-! ### The code -/

/-- A call of `enable_dangerzone.py`, with what happens around it and around the tools that it calls. -/
structure DangerzoneCall where
  /-- whether `rpm -q dangerzone` succeeds -/
  installed : Bool
  lines : List Line
  userns : UsernsCall
  ptrace : PtraceCall

/-- `ujust set-container-userns on` -/
def DangerzoneCall.usernsOn (d : DangerzoneCall) (left : List Line) : UsernsCall :=
  { d.userns with args := [on], lines := left }

def container : Text := "container"

/-- `ujust set-ptrace container` -/
def DangerzoneCall.ptraceContainer (d : DangerzoneCall) : PtraceCall := { d.ptrace with args := [container] }

def dangerzoneMissing : Text := "Dangerzone is not installed on this system. Unable to enable Dangerzone."

/-- `WARNING_MESSAGE`, before it is wrapped -/
def dangerzoneWarning : Text :=
  ("Warning: Dangerzone (https://dangerzone.rocks/) requires enabling both container-domain user " : Text) ++
    ("namespace creation and container-domain ptrace. This is a security tradeoff, as other programs " : Text) ++
    ("on your system will also be able to use container tools such as podman and to use ptrace to " : Text) ++
    ("inspect child processes in containers." : Text)

def canceling : Text := "Canceling."

def enablingUserns : Text := "Enabling container-domain user namespace creation..."

def ensuringPtrace : Text := "Ensuring ptrace is allowed in containers..."

section
variable (commands : Commands) (decimal : Char → Option ℕ) (casefold : Text → Text)
  (podmanUnshare unshare : Host → Bool)

/-- `enable_dangerzone.py` -/
def enableDangerzone (d : DangerzoneCall) (h : Host) : Outcome × Host :=
  if d.installed then
    match askYesNo casefold d.lines with
    | none => (⟨[dangerzoneWarning], .ok 130⟩, h)
    | some (false, _) => (⟨[dangerzoneWarning, canceling], .ok 0⟩, h)
    | some (true, left) =>
      let (userns, h₁) := setContainerUserns commands casefold podmanUnshare (d.usernsOn left) h
      let printed := [dangerzoneWarning, enablingUserns] ++ userns.printed
      if userns.ended = .ok 0 then
        let (ptrace, h₂) := setPtrace commands decimal casefold d.ptraceContainer h₁
        (⟨printed ++ ensuringPtrace :: ptrace.printed, .ok (if ptrace.ended = .ok 0 then 0 else 1)⟩, h₂)
      else (⟨printed, .ok 1⟩, h₁)
  else (⟨[dangerzoneMissing], .ok 1⟩, h)

/-- What happens on the host: a call of one of the tools, or an attempt of the user, or of another one, to
    run a container. -/
inductive Event where
  | ptrace (c : PtraceCall)
  | containerUserns (c : UsernsCall)
  | unconfinedUserns (c : UsernsCall)
  | dangerzone (d : DangerzoneCall)
  | podmanRun (byOther : Bool)

/-- A container is started only where creation of user namespaces is permitted to it. -/
def podmanRun (byOther : Bool) (h : Host) : Host :=
  if byOther then { h with othersContainers := h.othersContainers || containerTool.permits h }
  else { h with containers := h.containers || containerTool.permits h }

def happen : Event → Host → Outcome × Host
  | .ptrace c, h => setPtrace commands decimal casefold c h
  | .containerUserns c, h => setContainerUserns commands casefold podmanUnshare c h
  | .unconfinedUserns c, h => setUnconfinedUserns commands casefold unshare c h
  | .dangerzone d, h => enableDangerzone commands decimal casefold podmanUnshare d h
  | .podmanRun byOther, h => (⟨[], .ok 0⟩, podmanRun byOther h)

end


/-! ### Steps -/

/-- The modules are lines of `semodule -l`, and containers of the user run only where they may. -/
structure Sound (h : Host) : Prop where
  lines : ModuleLines h
  containers : h.containers → containerTool.permits h

/-- What the tools do not touch. -/
def Host.foreign (h : Host) : List Text × (Text → Bool) × Text :=
  (h.modules.filter fun m => m ≠ containerTool.moduleName ∧ m ≠ unconfinedTool.moduleName,
    fun name => if name = seboolDenyPtrace ∨ name = seboolContainerAllowPtrace then false else h.booleans name,
    h.ptraceScope)

/-- An event in one state: what it writes into the three switches. -/
structure Happens (container unconfined : Option Bool) (access : Option Access) (h h' : Host) : Prop where
  sound : Sound h → Sound h'
  container : containerTool.permits h' = container.getD (containerTool.permits h)
  unconfined : unconfinedTool.permits h' = unconfined.getD (unconfinedTool.permits h)
  access : h'.access = access.getD h.access
  foreign : h'.foreign = h.foreign
  othersContainers : h.othersContainers → h'.othersContainers

theorem moduleName_ne : containerTool.moduleName ≠ unconfinedTool.moduleName := by decide

theorem Happens.none (h : Host) : Happens none none none h h := ⟨id, rfl, rfl, rfl, rfl, id⟩

/-- One event after another, where the second does not deny what the first one permits. -/
theorem Happens.trans {container unconfined access : _} {access' : Option Access} {h h₁ h₂ : Host}
    (first : Happens container unconfined access h h₁) (second : Happens Option.none Option.none access' h₁ h₂) :
    Happens container unconfined (access'.or access) h h₂ where
  sound hs := second.sound (first.sound hs)
  container := second.container.trans first.container
  unconfined := second.unconfined.trans first.unconfined
  access := by
    rw [second.access, first.access]
    cases access' <;> rfl
  foreign := second.foreign.trans first.foreign
  othersContainers h := second.othersContainers (first.othersContainers h)

section
variable {commands : Commands} (hcommands : commands.Documented) {decimal : Char → Option ℕ}
  {casefold : Text → Text} {podmanUnshare unshare : Host → Bool} {h : Host}

include hcommands in
theorem happens_ptrace (c : PtraceCall) : let r := setPtrace commands decimal casefold c h
    Happens none none (writesAccess casefold c r.1) h r.2 := by
  intro r
  have hrest : r.2.rest = h.rest := (acts_setPtrace hcommands casefold).rest
  have hmodules : r.2.modules = h.modules := congrArg Rest.modules hrest
  have hcontainers : r.2.containers = h.containers := congrArg Rest.containers hrest
  have hothers : r.2.othersContainers = h.othersContainers := congrArg Rest.othersContainers hrest
  have hpermits : ∀ t : Tool, t.permits r.2 = t.permits h := fun t => by
    rw [Tool.permits, hmodules, Tool.permits]
  refine ⟨fun hs => ⟨fun m hm => hs.lines m (hmodules ▸ hm), fun hc => ?_⟩, hpermits _, hpermits _,
    (isRegister_access hcommands casefold).view_step c h trivial, ?_, fun ho => hothers.trans ho⟩
  · rw [hpermits]
    exact hs.containers (hcontainers ▸ hc)
  · have hscope : r.2.ptraceScope = h.ptraceScope := congrArg Rest.ptraceScope hrest
    have hbooleans : ∀ name, name ≠ seboolDenyPtrace → name ≠ seboolContainerAllowPtrace →
        r.2.booleans name = h.booleans name := fun name hdeny hcontainer =>
      congrFun (congrArg Rest.booleans hrest) ⟨name, hdeny, hcontainer⟩
    refine Prod.ext (by simp only [Host.foreign, hmodules]) (Prod.ext (funext fun name => ?_) hscope)
    simp only [Host.foreign]
    split_ifs with hname
    · rfl
    · exact hbooleans name (fun h => hname (.inl h)) fun h => hname (.inr h)

/-- The tools for user namespaces touch no boolean, and only the module of their own. -/
theorem foreign_switches {t : Tool} {stops : Bool} {value : Option Bool} {h' : Host}
    (ht : t = containerTool ∨ t = unconfinedTool) (hs : Switches t stops value h h') : h'.foreign = h.foreign := by
  have hothers : h'.modules.filter (fun m => m ≠ containerTool.moduleName ∧ m ≠ unconfinedTool.moduleName) =
      h.modules.filter (fun m => m ≠ containerTool.moduleName ∧ m ≠ unconfinedTool.moduleName) := by
    have hfilter : ∀ ms : List Text,
        ms.filter (fun m => m ≠ containerTool.moduleName ∧ m ≠ unconfinedTool.moduleName) =
          (ms.filter (· ≠ t.moduleName)).filter
            fun m => m ≠ containerTool.moduleName ∧ m ≠ unconfinedTool.moduleName := by
      intro ms
      rw [List.filter_filter]
      refine List.filter_congr fun m _ => ?_
      rcases ht with rfl | rfl <;> by_cases h₁ : m = containerTool.moduleName <;>
        by_cases h₂ : m = unconfinedTool.moduleName <;> simp [h₁, h₂]
    rw [hfilter, hs.others, ← hfilter]
  simp only [Host.foreign, hothers, hs.booleans, hs.ptraceScope]

include hcommands in
theorem happens_containerUserns {c : UsernsCall} (hsound : Sound h)
    (hpodman : podmanUnshare h = containerTool.permits h) :
    let r := setContainerUserns commands casefold podmanUnshare c h
    Happens (c.switch casefold (confirmed casefold) r.1) none none h r.2 := by
  intro r
  have hs : Switches containerTool true (c.switch casefold (confirmed casefold) r.1) h r.2 :=
    switches_setContainerUserns hcommands hpodman hsound.lines
  refine ⟨fun _ => ⟨hs.moduleLines (by decide) hsound.lines, fun hc => ?_⟩, hs.permits, ?_, ?_,
    foreign_switches (.inl rfl) hs, fun ho => hs.othersContainers.trans ho⟩
  · have hpermits := hsound.containers (hs.containers hc)
    rw [hs.permits]
    cases hvalue : c.switch casefold (confirmed casefold) r.1 with
    | none => exact hpermits
    | some b =>
      cases b with
      | true => rfl
      | false => exact absurd ((hs.stopped rfl hvalue hpermits).symm.trans hc) (by decide)
  · simp only [Tool.permits, hs.mem_iff moduleName_ne.symm, Option.getD_none]
  · simp only [Host.access, hs.booleans, Option.getD_none]

include hcommands in
theorem happens_unconfinedUserns {c : UsernsCall} (hsound : Sound h)
    (hunshare : unshare h = unconfinedTool.permits h) :
    let r := setUnconfinedUserns commands casefold unshare c h
    Happens none (c.switch casefold (fun _ => true) r.1) none h r.2 := by
  intro r
  have hs : Switches unconfinedTool false (c.switch casefold (fun _ => true) r.1) h r.2 :=
    switches_setUnconfinedUserns hcommands hunshare hsound.lines
  have hpermits : containerTool.permits r.2 = containerTool.permits h := by
    simp only [Tool.permits, hs.mem_iff moduleName_ne]
  refine ⟨fun _ => ⟨hs.moduleLines (by decide) hsound.lines, fun hc => ?_⟩, hpermits, hs.permits, ?_,
    foreign_switches (.inr rfl) hs, fun ho => hs.othersContainers.trans ho⟩
  · rw [hpermits]
    exact hsound.containers (hs.running rfl ▸ hc)
  · simp only [Host.access, hs.booleans, Option.getD_none]

theorem happens_podmanRun (byOther : Bool) : Happens none none none h (podmanRun byOther h) := by
  cases byOther with
  | true =>
    refine ⟨fun hs => ⟨hs.lines, hs.containers⟩, rfl, rfl, rfl, rfl, fun ho => ?_⟩
    exact Bool.or_eq_true_iff.mpr (.inl ho)
  | false =>
    refine ⟨fun hs => ⟨hs.lines, fun hc => ?_⟩, rfl, rfl, rfl, rfl, id⟩
    rcases Bool.or_eq_true_iff.mp hc with hrunning | hpermits
    · exact hs.containers hrunning
    · exact hpermits

/-- The mode `on` of the tool for containers, as the script calls it. -/
theorem setContainerUserns_on (hon : casefold on = on) (d : DangerzoneCall) (left : List Line) :
    setContainerUserns commands casefold podmanUnshare (d.usernsOn left) h = enableUserns commands containerTool
      (usernsEnabled containerTool podmanUnshare (d.usernsOn left) h) (d.usernsOn left) h := by
  have hparse : parseBasicToggleArgs casefold true (d.usernsOn left).args (d.usernsOn left).lines =
      .mode .on left := parse_ofText (hon.symm ▸ by decide)
  unfold setContainerUserns runTool
  rw [hparse]

/-- The tool does not print the line that the script prints after it. -/
theorem ensuringPtrace_notMem (enabled : Bool) (c : UsernsCall) :
    ensuringPtrace ∉ (enableUserns commands containerTool enabled c h).1.printed := by
  cases enabled with
  | true => exact (by decide : ensuringPtrace ∉ [containerTool.already .disable])
  | false =>
    have hdone : ∀ code : ℕ,
        ensuringPtrace ∉ (if code = 0 then [containerTool.switched .disable] else []) := by
      intro code
      split_ifs <;> decide
    have hlines : ensuringPtrace ∉ (runWorker commands c [ModuleMode.disable.text, containerTool.moduleName] h).1 := by
      unfold runWorker
      cases c.run0 with
      | some n => exact List.not_mem_nil
      | none =>
        dsimp only
        rw [setSelinuxModule, ModuleMode.ofText_text]
        dsimp only
        unfold setModule
        split_ifs
        · exact (by decide : ensuringPtrace ∉
            [("SELinux module '" : Text) ++ containerTool.moduleName ++ ("' " : Text) ++
              ModuleMode.disable.text ++ ("d." : Text)])
        · exact List.not_mem_nil
    intro hmem
    rcases List.mem_append.mp hmem with hmem | hmem
    · rcases List.mem_append.mp hmem with hmem | hmem
      · exact absurd hmem (by decide)
      · exact hlines hmem
    · exact hdone _ hmem

theorem ensuringPtrace_ne :
    ∀ l ∈ [dangerzoneMissing, dangerzoneWarning, canceling, enablingUserns], ensuringPtrace ≠ l := by
  have hfront : ∀ l ∈ [dangerzoneMissing, dangerzoneWarning, canceling, enablingUserns],
      ensuringPtrace.take 3 ≠ l.take 3 := by decide
  exact fun l hl heq => hfront l hl (congrArg (List.take 3) heq)

/-- The script stops before it calls a tool, after the first one failed, or after both were called. -/
theorem enableDangerzone_cases (hon : casefold on = on) (d : DangerzoneCall) :
    let r := enableDangerzone commands decimal casefold podmanUnshare d h
    (ensuringPtrace ∉ r.1.printed ∧ r.2 = h) ∨
    ∃ left, let first := setContainerUserns commands casefold podmanUnshare (d.usernsOn left) h
      (ensuringPtrace ∉ r.1.printed ∧ first.1.ended ≠ .ok 0 ∧ r.2 = first.2) ∨
      (ensuringPtrace ∈ r.1.printed ∧ first.1.ended = .ok 0 ∧
        let second := setPtrace commands decimal casefold d.ptraceContainer first.2
        (r.1.ended = .ok 0 ↔ second.1.ended = .ok 0) ∧ r.2 = second.2) := by
  intro r
  have hr : r = enableDangerzone commands decimal casefold podmanUnshare d h := rfl
  clear_value r
  unfold enableDangerzone at hr
  by_cases hinstalled : d.installed
  · rw [if_pos hinstalled] at hr
    generalize askYesNo casefold d.lines = answer at hr
    rcases answer with _ | ⟨_ | _, left⟩
    · subst hr
      exact .inl ⟨fun hmem => ensuringPtrace_ne dangerzoneWarning (by simp) (List.mem_singleton.mp hmem), rfl⟩
    · subst hr
      refine .inl ⟨fun hmem => ?_, rfl⟩
      exact ensuringPtrace_ne ensuringPtrace (List.mem_cons_of_mem _ (List.mem_append_left [enablingUserns] hmem)) rfl
    · refine .inr ⟨left, ?_⟩
      dsimp only at hr
      have hnot : ensuringPtrace ∉
          (setContainerUserns commands casefold podmanUnshare (d.usernsOn left) h).1.printed := by
        rw [setContainerUserns_on hon]
        exact ensuringPtrace_notMem _ _
      generalize setContainerUserns commands casefold podmanUnshare (d.usernsOn left) h = first at hr hnot ⊢
      by_cases hfirst : first.1.ended = .ok 0
      · right
        rw [if_pos hfirst] at hr
        generalize setPtrace commands decimal casefold d.ptraceContainer first.2 = second at hr ⊢
        subst hr
        refine ⟨by simp, hfirst, ?_, rfl⟩
        split_ifs with hsecond
        · exact iff_of_true rfl hsecond
        · exact iff_of_false (fun h => absurd (Except.ok.inj h) (by decide)) hsecond
      · left
        rw [if_neg hfirst] at hr
        subst hr
        refine ⟨fun hmem => ?_, hfirst, rfl⟩
        rcases List.mem_append.mp hmem with hmem | hmem
        · have hmem' : ensuringPtrace ∈ [dangerzoneMissing, dangerzoneWarning, canceling, enablingUserns] := by
            rcases List.mem_cons.mp hmem with h | h
            · exact h ▸ by simp
            · exact List.mem_singleton.mp h ▸ by simp
          exact ensuringPtrace_ne ensuringPtrace hmem' rfl
        · exact hnot hmem
  · rw [if_neg hinstalled] at hr
    subst hr
    exact .inl ⟨fun hmem => ensuringPtrace_ne dangerzoneMissing (by simp) (List.mem_singleton.mp hmem), rfl⟩

include hcommands in
/-- What the script writes: the switch for containers once it says that it turns to ptrace, and the choice
    for ptrace when it succeeds after that. -/
theorem happens_dangerzone {d : DangerzoneCall} (hon : casefold on = on)
    (hcontainer : casefold container = container) (hsound : Sound h)
    (hpodman : podmanUnshare h = containerTool.permits h) :
    let r := enableDangerzone commands decimal casefold podmanUnshare d h
    Happens (if ensuringPtrace ∈ r.1.printed then some true else none) none
      (if ensuringPtrace ∈ r.1.printed ∧ r.1.ended = .ok 0 then some .container else none) h r.2 := by
  intro r
  rcases @enableDangerzone_cases commands decimal casefold podmanUnshare h hon d with
    ⟨hnot, hh⟩ | ⟨left, hcases⟩
  · rw [if_neg hnot, if_neg fun h => hnot h.1, show r.2 = h from hh]
    exact Happens.none h
  · have hparse : parseBasicToggleArgs casefold true (d.usernsOn left).args (d.usernsOn left).lines =
        .mode .on left := parse_ofText (hon.symm ▸ by decide)
    have hfirst := @happens_containerUserns commands hcommands casefold podmanUnshare h (d.usernsOn left) hsound
      hpodman
    rcases hcases with ⟨hnot, hended, hh⟩ | ⟨hmem, hended, hiff, hh⟩
    · rw [if_neg hnot, if_neg fun h => hnot h.1, show r.2 = _ from hh]
      simpa only [UsernsCall.switch, hparse, if_neg hended] using hfirst
    · simp only [UsernsCall.switch, hparse, if_pos hended] at hfirst
      have hboth := hfirst.trans (@happens_ptrace commands hcommands decimal casefold _ d.ptraceContainer)
      have haccess : (writesAccess casefold d.ptraceContainer
          (setPtrace commands decimal casefold d.ptraceContainer
            (setContainerUserns commands casefold podmanUnshare (d.usernsOn left) h).2).1).or none =
          if ensuringPtrace ∈ r.1.printed ∧ r.1.ended = .ok 0 then some .container else none := by
        have hrequest : d.ptraceContainer.request casefold = some .container := by
          have hof : accessOf (casefold container) = some .container := hcontainer.symm ▸ by decide
          exact hof
        unfold writesAccess
        split
        · next hdone => rw [if_pos ⟨hmem, hiff.mpr hdone⟩, hrequest]; rfl
        · next hdone => rw [if_neg fun h => hdone (hiff.mp h.2)]; rfl
      rw [if_pos hmem, show r.2 = _ from hh, ← haccess]
      exact hboth

end

/-! ### Runs -/

section
variable (casefold : Text → Text)

/-- What an event writes into the switch for containers. -/
def writesContainer : Event → Outcome → Option Bool
  | .containerUserns c, o => c.switch casefold (confirmed casefold) o
  | .dangerzone _, o => if ensuringPtrace ∈ o.printed then some true else none
  | .ptrace _, _ | .unconfinedUserns _, _ | .podmanRun _, _ => none

/-- What an event writes into the switch for the unconfined domain. -/
def writesUnconfined : Event → Outcome → Option Bool
  | .unconfinedUserns c, o => c.switch casefold (fun _ => true) o
  | .ptrace _, _ | .containerUserns _, _ | .dangerzone _, _ | .podmanRun _, _ => none

/-- The choice for ptrace that an event makes. -/
def choosesAccess : Event → Outcome → Option Access
  | .ptrace c, o => writesAccess casefold c o
  | .dangerzone _, o => if ensuringPtrace ∈ o.printed ∧ o.ended = .ok 0 then some .container else none
  | .containerUserns _, _ | .unconfinedUserns _, _ | .podmanRun _, _ => none

end

/-- The commands that are tried where the modules cannot be listed infer the state of the modules. -/
structure Infers (podmanUnshare unshare : Host → Bool) : Prop where
  container : ∀ h, podmanUnshare h = containerTool.permits h
  unconfined : ∀ h, unshare h = unconfinedTool.permits h

/-- The words with which the script calls the tools are in lower case. -/
structure Lower (casefold : Text → Text) : Prop where
  on : casefold on = on
  container : casefold container = container

section
variable {commands : Commands} (hcommands : commands.Documented) {decimal : Char → Option ℕ}
  {casefold : Text → Text} {podmanUnshare unshare : Host → Bool}

section
include hcommands

theorem happens (hinfers : Infers podmanUnshare unshare) (hlower : Lower casefold) (e : Event) {h : Host}
    (hsound : Sound h) : let r := happen commands decimal casefold podmanUnshare unshare e h
    Happens (writesContainer casefold e r.1) (writesUnconfined casefold e r.1) (choosesAccess casefold e r.1)
      h r.2 := by
  cases e with
  | ptrace c => exact happens_ptrace hcommands c
  | containerUserns c => exact happens_containerUserns hcommands hsound (hinfers.container h)
  | unconfinedUserns c => exact happens_unconfinedUserns hcommands hsound (hinfers.unconfined h)
  | dangerzone d => exact happens_dangerzone hcommands hlower.on hlower.container hsound (hinfers.container h)
  | podmanRun byOther => exact happens_podmanRun byOther

theorem isRegister_container (hinfers : Infers podmanUnshare unshare) (hlower : Lower casefold) :
    Register.IsRegister (happen commands decimal casefold podmanUnshare unshare) Sound containerTool.permits
      (writesContainer casefold) where
  keeps e _ hs := (happens hcommands hinfers hlower e hs).sound hs
  view_step e _ hs := (happens hcommands hinfers hlower e hs).container

theorem isRegister_unconfined (hinfers : Infers podmanUnshare unshare) (hlower : Lower casefold) :
    Register.IsRegister (happen commands decimal casefold podmanUnshare unshare) Sound unconfinedTool.permits
      (writesUnconfined casefold) where
  keeps e _ hs := (happens hcommands hinfers hlower e hs).sound hs
  view_step e _ hs := (happens hcommands hinfers hlower e hs).unconfined

theorem isRegister_choice (hinfers : Infers podmanUnshare unshare) (hlower : Lower casefold) :
    Register.IsRegister (happen commands decimal casefold podmanUnshare unshare) Sound Host.access
      (choosesAccess casefold) where
  keeps e _ hs := (happens hcommands hinfers hlower e hs).sound hs
  view_step e _ hs := (happens hcommands hinfers hlower e hs).access

theorem isRegister_foreign (hinfers : Infers podmanUnshare unshare) (hlower : Lower casefold) :
    Register.IsRegister (happen commands decimal casefold podmanUnshare unshare) Sound Host.foreign fun _ _ => none where
  keeps e _ hs := (happens hcommands hinfers hlower e hs).sound hs
  view_step e _ hs := (happens hcommands hinfers hlower e hs).foreign

/-- A container of another user that runs is not stopped. -/
theorem others_run (hinfers : Infers podmanUnshare unshare) (hlower : Lower casefold) (events : List Event)
    {h : Host} (hsound : Sound h) (hothers : h.othersContainers) :
    (Register.run (happen commands decimal casefold podmanUnshare unshare) events h).2.othersContainers := by
  have hkeeps : ∀ e h, Sound h ∧ h.othersContainers →
      Sound (happen commands decimal casefold podmanUnshare unshare e h).2 ∧
        (happen commands decimal casefold podmanUnshare unshare e h).2.othersContainers := by
    rintro e h ⟨hs, ho⟩
    have hstep := @happens commands hcommands decimal casefold podmanUnshare unshare hinfers hlower e h hs
    exact ⟨hstep.sound hs, hstep.othersContainers ho⟩
  exact (Register.run_invariant hkeeps events ⟨hsound, hothers⟩).2

end

/-- CORRECT: whatever the tools are called with, in whatever order, and whichever of their commands fail,
    each switch is as the last call that succeeded said, or as it was: the status of the two tools and
    their audits show it, the script for Dangerzone counts as a call of both tools, containers of the user
    run only where their switch permits, those of others are not stopped, and nothing else on the host has
    changed. -/
theorem switches_runs (hcommands : commands.Documented) (hinfers : Infers podmanUnshare unshare)
    (hlower : Lower casefold) (events : List Event) {h : Host} (hsound : Sound h) :
    let after := Register.run (happen commands decimal casefold podmanUnshare unshare) events h
    let container := (Register.last (writesContainer casefold) after.1).getD (containerTool.permits h)
    let unconfined := (Register.last (writesUnconfined casefold) after.1).getD (unconfinedTool.permits h)
    (∀ c : UsernsCall, (parseBasicToggleArgs casefold true c.args c.lines).asked = some .status →
      ∃ shown shown', setContainerUserns commands casefold podmanUnshare c after.2 = (shown, after.2) ∧
        (auditContainerUserns (commandStdout shown)).2 = container ∧
        ((auditContainerUserns (commandStdout shown)).1.status = .pass ↔ container = false) ∧
        setUnconfinedUserns commands casefold unshare c after.2 = (shown', after.2) ∧
        ((auditUnconfinedUserns (commandStdout shown')).status = .pass ↔ unconfined = false)) ∧
    after.2.access = (Register.last (choosesAccess casefold) after.1).getD h.access ∧
    (after.2.containers → container) ∧ (h.othersContainers → after.2.othersContainers) ∧
    after.2.foreign = h.foreign := by
  intro after container unconfined
  have hcontainer : containerTool.permits after.2 = container :=
    (isRegister_container hcommands hinfers hlower).value events hsound
  have hunconfined : unconfinedTool.permits after.2 = unconfined :=
    (isRegister_unconfined hcommands hinfers hlower).value events hsound
  have hafter : Sound after.2 :=
    Register.run_invariant (isRegister_choice hcommands hinfers hlower).keeps events hsound
  refine ⟨fun c hc => ?_, (isRegister_choice hcommands hinfers hlower).value events hsound, fun hrunning =>
    hcontainer ▸ hafter.containers hrunning, others_run hcommands hinfers hlower events hsound,
    (isRegister_foreign hcommands hinfers hlower).unwritten events hsound⟩
  have hshown : setContainerUserns commands casefold podmanUnshare c after.2 = _ :=
    runTool_status (hinfers.container _) hafter.lines hc
  have hshown' : setUnconfinedUserns commands casefold unshare c after.2 = _ :=
    runTool_status (hinfers.unconfined _) hafter.lines hc
  rw [hcontainer] at hshown
  rw [hunconfined] at hshown'
  refine ⟨_, _, hshown, ?_, ?_, hshown', ?_⟩
  · cases container <;> decide
  · cases container <;> decide
  · cases unconfined <;> decide

/-- Containers of the user and of another one are started after a call of the script, those of the user are
    stopped with the switch, and the other tool is called. -/
theorem switches_runs_installed :
    let around : UsernsCall := ⟨["on"], [], true, true, true, none, 0⟩
    let events : List Event := [.dangerzone ⟨true, [⟨"yes", by decide⟩], around, ⟨[], none, true, 0⟩⟩,
      .podmanRun false, .podmanRun true, .containerUserns { around with args := ["off"], lines := [⟨"yes", by decide⟩] },
      .unconfinedUserns around]
    let after := Register.run
      (happen commandsOfArgs (fun _ => none) id containerTool.permits unconfinedTool.permits) events installedHost
    after.2.access = (Register.last (choosesAccess id) after.1).getD installedHost.access ∧
      (after.2.containers → (Register.last (writesContainer id) after.1).getD (containerTool.permits installedHost)) ∧
      after.2.foreign = installedHost.foreign := by
  intro around events after
  have hsound : Sound installedHost := ⟨by unfold ModuleLines; decide, nofun⟩
  have hruns := @switches_runs commandsOfArgs (fun _ => none) id _ _ commandsOfArgs_documented
    ⟨fun _ => rfl, fun _ => rfl⟩ ⟨rfl, rfl⟩ events _ hsound
  exact ⟨hruns.2.1, hruns.2.2.1, hruns.2.2.2.2⟩

end

end Selinux
