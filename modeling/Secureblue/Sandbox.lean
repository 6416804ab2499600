import Secureblue.Py.Text
import Secureblue.SignedRules

/-! Workers that run as root in a sandbox (`shared/sandbox.py`): the arguments of `run0`, and what they
    mean.

    A worker states what it needs over a common set of restrictions. How `run0` reads its arguments and what
    the service manager makes of the filter of system calls is taken as documented (`ReadsOptions`,
    `Accumulates`): the last assignment of a property holds, and the assignments of the filter are rules of
    which the last that names a call decides. -/

namespace Sandbox
open Py

/-! ### The code -/

/-- Directory containing privileged workers - change during development! -/
def innerDir : Text := "/usr/libexec/secureblue/inner"

def syscallsToAllow : List Text := ["@system-service"]

def syscallsToDeny : List Text :=
  ["@aio", "@chown", "@keyring", "@memlock", "@mount", "@privileged", "@resources", "@setuid", "memfd_create"]

/-- `' '.join(...)` -/
def spaced (ts : List Text) : Text := [' '].intercalate ts

def property : Text := "--property="

/-- `f"--property={key}={value}"` -/
def assignment (key value : Text) : Text := property ++ key ++ '=' :: value

def systemCallFilter : Text := "SystemCallFilter"

def run0BaseArguments : List Text := [
  assignment "DevicePolicy" "closed",
  assignment "InaccessiblePaths" "/run/dbus/ /run/user/",
  assignment "LockPersonality" "yes",
  assignment "MemoryDenyWriteExecute" "yes",
  assignment "NoNewPrivileges" "yes",
  assignment "PrivateDevices" "yes",
  assignment "PrivateIPC" "yes",
  assignment "PrivateNetwork" "yes",
  assignment "ProcSubset" "pid",
  assignment "ProtectClock" "yes",
  assignment "ProtectControlGroups" "yes",
  assignment "ProtectHostname" "yes",
  assignment "ProtectKernelLogs" "yes",
  assignment "ProtectKernelModules" "yes",
  assignment "ProtectKernelTunables" "yes",
  assignment "ReadOnlyPaths" "/",
  assignment "PrivateTmp" "yes",
  assignment "RestrictAddressFamilies" "AF_UNIX",
  assignment "RestrictNamespaces" "yes",
  assignment "RestrictRealtime" "yes",
  assignment "RestrictSUIDSGID" "yes",
  assignment "SystemCallArchitectures" "native",
  assignment systemCallFilter (spaced syscallsToAllow),
  assignment systemCallFilter ('~' :: spaced syscallsToDeny),
  assignment "SystemCallErrorNumber" "EPERM"]

/-- The fields of `SandboxedFunction`, with their defaults. -/
structure Fields where
  fileName : Text
  capabilities : List Text := []
  readWritePaths : List Text := []
  allowedSyscalls : List Text := []
  additionalSandboxProperties : List Text := []
  removeSandboxArguments : List Text := []
  subprocessInteractive : Bool := false

def dashes : Text := "--"

/-- `arg.startswith("--") and arg != "--"` -/
def IsOption (arg : Text) : Prop := startsWith arg dashes ∧ arg ≠ dashes

instance (arg : Text) : Decidable (IsOption arg) := inferInstanceAs (Decidable (_ ∧ _))

/-- A Python worker that runs as root in a sandbox with specified privileges. -/
structure SandboxedFunction extends Fields where
  options : ∀ arg ∈ additionalSandboxProperties ++ removeSandboxArguments, IsOption arg

/-- `__post_init__` -/
def SandboxedFunction.init (f : Fields) : Except Exn SandboxedFunction :=
  if h : ∀ arg ∈ f.additionalSandboxProperties ++ f.removeSandboxArguments, IsOption arg then .ok ⟨f, h⟩
  else .error (.valueError "Invalid sandboxing options: options must start with --")

def capabilityBoundingSet : Text := "CapabilityBoundingSet"

def readWritePathsKey : Text := "ReadWritePaths"

def background : Text := "--background"

/-- Args implied by other fields. -/
def Fields.impliedArguments (f : Fields) : List Text :=
  let args := [assignment capabilityBoundingSet (spaced f.capabilities),
    assignment readWritePathsKey (spaced f.readWritePaths)]
  if f.allowedSyscalls ≠ [] then args ++ [assignment systemCallFilter (spaced f.allowedSyscalls)] else args

/-- `[arg for arg in args if not arg.startswith(tuple(self.remove_sandbox_arguments))]` -/
def Fields.keep (f : Fields) (args : List Text) : List Text :=
  args.filter fun arg => !f.removeSandboxArguments.any (startsWith arg)

/-- Generate run0 arguments. -/
def SandboxedFunction.getArguments (f : SandboxedFunction) : List Text :=
  let args := f.keep (run0BaseArguments ++ f.impliedArguments) ++ f.additionalSandboxProperties
  if !f.subprocessInteractive ∧ !args.any (startsWith · background) then args ++ [background ++ ['=']] else args

def run0 : Text := "/usr/bin/run0"

def python3 : Text := "/usr/bin/python3"

/-- The command of `run` and what it is given on its standard input: a text, the input of the caller or
    nothing. -/
inductive Stdin where
  | text (t : Text)
  | inherited
  | devnull

/-- Execute a sandboxed function. -/
def run (f : SandboxedFunction) (args : List Text) (stdin : Option Text) : Except Exn (List Text × Stdin) :=
  if f.subprocessInteractive ∧ stdin.isSome then
    .error (.valueError "Cannot specify 'stdin' when 'subprocess_interactive' is set to True.")
  else
    let interpreter : List Text := [python3, "-Es", "-B", innerDir ++ '/' :: f.fileName]
    let command := run0 :: (f.getArguments ++ dashes :: (interpreter ++ args))
    .ok (command, match stdin with
      | some t => .text t
      | none => if f.subprocessInteractive then .inherited else .devnull)

/-! ### The boundary -/

/-- How `run0` reads its arguments, as options and a command: `--` ends the options, and an option stands
    by itself unless its value is the next argument; `takesNext` says for which it is. -/
structure ReadsOptions (takesNext : Text → Bool) (parse : List Text → List Text × List Text) : Prop where
  equals : ∀ arg, '=' ∈ arg → takesNext arg = false
  dashes : ∀ command, command ≠ [] → parse (dashes :: command) = ([], command)
  option : ∀ arg args, IsOption arg → takesNext arg = false →
    parse (arg :: args) = (arg :: (parse args).1, (parse args).2)

theorem ReadsOptions.parse_append {takesNext : Text → Bool} {parse : List Text → List Text × List Text}
    (hparse : ReadsOptions takesNext parse) {options : List Text}
    (h : ∀ arg ∈ options, IsOption arg ∧ takesNext arg = false) {command : List Text}
    (hcommand : command ≠ []) : parse (options ++ Sandbox.dashes :: command) = (options, command) := by
  induction options with
  | nil => exact hparse.dashes command hcommand
  | cons arg options ih =>
    obtain ⟨harg, hnext⟩ := h arg List.mem_cons_self
    have hoptions := ih fun other hother => h other (List.mem_cons_of_mem arg hother)
    rw [List.cons_append, hparse.option arg _ harg hnext, hoptions]

theorem isOption_assignment (key value : Text) : IsOption (assignment key value) := by
  have hcons : assignment key value = '-' :: '-' :: 'p' :: ("roperty=".toList ++ key ++ '=' :: value) := rfl
  rw [hcons]
  exact ⟨rfl, fun h => List.cons_ne_nil _ _ (List.cons.inj (List.cons.inj h).2).2⟩

/-- Assignments are no option for the background. -/
theorem startsWith_background (key value : Text) : startsWith (assignment key value) background = false := rfl

section
variable {f : SandboxedFunction}

theorem mem_impliedArguments {f : Fields} {arg : Text} (h : arg ∈ f.impliedArguments) :
    ∃ key value, arg = assignment key value := by
  unfold Fields.impliedArguments at h
  dsimp only at h
  split_ifs at h
  · simp only [List.cons_append, List.nil_append, List.mem_cons, List.not_mem_nil, or_false] at h
    rcases h with h | h | h
    · exact ⟨_, _, h⟩
    · exact ⟨_, _, h⟩
    · exact ⟨_, _, h⟩
  · simp only [List.mem_cons, List.not_mem_nil, or_false] at h
    rcases h with h | h
    · exact ⟨_, _, h⟩
    · exact ⟨_, _, h⟩

/-- The properties that restrict every worker, in order. -/
def baseProperties : List (Text × Text) := [
  ("DevicePolicy", "closed"), ("InaccessiblePaths", "/run/dbus/ /run/user/"), ("LockPersonality", "yes"),
  ("MemoryDenyWriteExecute", "yes"), ("NoNewPrivileges", "yes"), ("PrivateDevices", "yes"), ("PrivateIPC", "yes"),
  ("PrivateNetwork", "yes"), ("ProcSubset", "pid"), ("ProtectClock", "yes"), ("ProtectControlGroups", "yes"),
  ("ProtectHostname", "yes"), ("ProtectKernelLogs", "yes"), ("ProtectKernelModules", "yes"),
  ("ProtectKernelTunables", "yes"), ("ReadOnlyPaths", "/"), ("PrivateTmp", "yes"),
  ("RestrictAddressFamilies", "AF_UNIX"), ("RestrictNamespaces", "yes"), ("RestrictRealtime", "yes"),
  ("RestrictSUIDSGID", "yes"), ("SystemCallArchitectures", "native"),
  (systemCallFilter, spaced syscallsToAllow), (systemCallFilter, '~' :: spaced syscallsToDeny),
  ("SystemCallErrorNumber", "EPERM")]

theorem run0BaseArguments_eq : run0BaseArguments = baseProperties.map fun e => assignment e.1 e.2 := rfl

theorem mem_keep {f : Fields} {arg : Text} (h : arg ∈ f.keep (run0BaseArguments ++ f.impliedArguments)) :
    ∃ key value, arg = assignment key value := by
  rcases List.mem_append.mp (List.mem_filter.mp h).1 with h | h
  · rw [run0BaseArguments_eq] at h
    obtain ⟨e, -, rfl⟩ := List.mem_map.mp h
    exact ⟨e.1, e.2, rfl⟩
  · exact mem_impliedArguments h

theorem isOption_getArguments : ∀ arg ∈ f.getArguments, IsOption arg := by
  have hargs : ∀ arg ∈ f.keep (run0BaseArguments ++ f.impliedArguments) ++ f.additionalSandboxProperties,
      IsOption arg := by
    intro arg harg
    rcases List.mem_append.mp harg with harg | harg
    · obtain ⟨key, value, rfl⟩ := mem_keep harg
      exact isOption_assignment key value
    · exact f.options arg (List.mem_append_left _ harg)
  intro arg harg
  unfold SandboxedFunction.getArguments at harg
  dsimp only at harg
  split_ifs at harg
  · rcases List.mem_append.mp harg with harg | harg
    · exact hargs arg harg
    · exact List.mem_singleton.mp harg ▸ by decide
  · exact hargs arg harg

/-- The tint is left to `run0` only where the worker is interactive and says nothing about it. -/
theorem background_iff : (∃ arg ∈ f.getArguments, startsWith arg background) ↔
    f.subprocessInteractive = false ∨ ∃ arg ∈ f.additionalSandboxProperties, startsWith arg background := by
  have hkeep : ¬∃ arg ∈ f.keep (run0BaseArguments ++ f.impliedArguments), startsWith arg background := by
    rintro ⟨arg, harg, hstart⟩
    obtain ⟨key, value, rfl⟩ := mem_keep harg
    exact absurd ((startsWith_background key value).symm.trans hstart) (by decide)
  have hargs : (∃ arg ∈ f.keep (run0BaseArguments ++ f.impliedArguments) ++ f.additionalSandboxProperties,
      startsWith arg background) ↔ ∃ arg ∈ f.additionalSandboxProperties, startsWith arg background := by
    simp only [List.mem_append, or_and_right, exists_or]
    exact or_iff_right hkeep
  unfold SandboxedFunction.getArguments
  dsimp only
  split_ifs with hadd
  · refine iff_of_true ⟨background ++ ['='], List.mem_append_right _ (List.mem_singleton_self _), by decide⟩ ?_
    exact .inl (by simpa using hadd.1)
  · rw [hargs]
    refine ⟨.inr, fun h => h.elim (fun hinteractive => ?_) id⟩
    have hany : ¬¬∃ arg ∈ f.keep (run0BaseArguments ++ f.impliedArguments) ++ f.additionalSandboxProperties,
        startsWith arg background := fun hnone => hadd ⟨by simp [hinteractive], by
          simpa only [List.any_eq_true, Bool.not_eq_true', Bool.eq_false_iff, ne_eq] using hnone⟩
    exact hargs.mp (not_not.mp hany)

theorem equals_mem_getArguments : ∀ arg ∈ f.getArguments, '=' ∈ arg ∨ arg ∈ f.additionalSandboxProperties := by
  intro arg harg
  have hassignment : ∀ key value : Text, '=' ∈ assignment key value := fun key value => by simp [assignment]
  unfold SandboxedFunction.getArguments at harg
  dsimp only at harg
  have hargs : ∀ arg ∈ f.keep (run0BaseArguments ++ f.impliedArguments) ++ f.additionalSandboxProperties,
      '=' ∈ arg ∨ arg ∈ f.additionalSandboxProperties := by
    intro arg harg
    rcases List.mem_append.mp harg with harg | harg
    · obtain ⟨key, value, rfl⟩ := mem_keep harg
      exact .inl (hassignment key value)
    · exact .inr harg
  split_ifs at harg
  · rcases List.mem_append.mp harg with harg | harg
    · exact hargs arg harg
    · exact .inl (List.mem_singleton.mp harg ▸ by decide)
  · exact hargs arg harg

/-- CORRECT: whatever a worker is and whatever it is given, `run0` takes the generated arguments for its
    options and nothing else, and the worker gets its arguments as they are, be they options in looks, if no
    property that it adds is an option whose value is the next argument; only a text for the standard input of
    an interactive worker is refused. -/
theorem run_boundary (f : SandboxedFunction) (args : List Text) (stdin : Option Text) {takesNext : Text → Bool}
    {parse : List Text → List Text × List Text} (hparse : ReadsOptions takesNext parse)
    (hadditional : ∀ arg ∈ f.additionalSandboxProperties, takesNext arg = false) :
    (f.subprocessInteractive ∧ stdin.isSome ∧ ∃ msg, run f args stdin = .error (.valueError msg)) ∨
    ∃ rest input, run f args stdin = .ok (run0 :: rest, input) ∧
      parse rest =
        (f.getArguments, [python3, "-Es", "-B", innerDir ++ '/' :: f.fileName] ++ args) ∧
      ((∃ arg ∈ f.getArguments, startsWith arg background) ↔
        f.subprocessInteractive = false ∨ ∃ arg ∈ f.additionalSandboxProperties, startsWith arg background) := by
  have hoptions : ∀ arg ∈ f.getArguments, IsOption arg ∧ takesNext arg = false := fun arg harg =>
    ⟨isOption_getArguments arg harg,
      (equals_mem_getArguments arg harg).elim (hparse.equals arg) (hadditional arg)⟩
  unfold run
  by_cases hstdin : f.subprocessInteractive ∧ stdin.isSome
  · rw [if_pos hstdin]
    exact .inl ⟨hstdin.1, hstdin.2, _, rfl⟩
  · rw [if_neg hstdin]
    exact .inr ⟨_, _, rfl, hparse.parse_append hoptions (List.cons_ne_nil _ _), background_iff⟩

end

/-! ### Properties in force -/

/-- The value that an argument assigns to a property. -/
def assigned (key arg : Text) : Option Text :=
  if startsWith arg property then
    let (name, sep, value) := partition '=' (arg.drop property.length)
    if name = key ∧ sep ≠ [] then some value else none
  else none

/-- The values that are assigned to a property, in order. -/
def values (key : Text) (args : List Text) : List Text := args.filterMap (assigned key)

theorem assigned_assignment {name : Text} (hname : '=' ∉ name) (key value : Text) :
    assigned key (assignment name value) = if name = key then some value else none := by
  have hstart : startsWith (assignment name value) property := by
    rw [startsWith_iff, assignment, List.append_assoc]
    exact List.prefix_append _ _
  have hdrop : (assignment name value).drop property.length = name ++ '=' :: value := by
    rw [assignment, List.append_assoc, List.drop_left]
  rw [assigned, if_pos hstart, hdrop, partition_append hname]
  simp

theorem values_append (key : Text) (args args' : List Text) :
    values key (args ++ args') = values key args ++ values key args' :=
  List.filterMap_append

section
variable {f : SandboxedFunction}

/-- The tint is no property. -/
theorem values_getArguments (key : Text) : values key f.getArguments =
    values key (f.keep run0BaseArguments) ++ values key (f.keep f.impliedArguments) ++
      values key f.additionalSandboxProperties := by
  have hargs : values key (f.keep (run0BaseArguments ++ f.impliedArguments) ++ f.additionalSandboxProperties) =
      values key (f.keep run0BaseArguments) ++ values key (f.keep f.impliedArguments) ++
        values key f.additionalSandboxProperties := by
    rw [values_append, Fields.keep, List.filter_append, values_append]
    rfl
  unfold SandboxedFunction.getArguments
  dsimp only
  split_ifs
  · rw [values_append, hargs]
    exact List.append_nil _
  · exact hargs

theorem equals_notMem_key : ∀ e ∈ baseProperties, '=' ∉ e.1 := by decide

/-- Every property but the filter is assigned once, and not by what the fields imply. -/
theorem key_unique : ∀ e ∈ baseProperties, e.1 ≠ systemCallFilter →
    baseProperties.filter (fun d => d.1 = e.1) = [e] ∧ e.1 ≠ capabilityBoundingSet ∧ e.1 ≠ readWritePathsKey := by
  decide

theorem values_assignments (key : Text) {l : List (Text × Text)} (h : ∀ e ∈ l, '=' ∉ e.1) :
    values key (l.map fun e => assignment e.1 e.2) = (l.filter fun e => e.1 = key).map Prod.snd := by
  induction l with
  | nil => rfl
  | cons e l ih =>
    have htail := ih fun d hd => h d (List.mem_cons_of_mem e hd)
    unfold values at htail ⊢
    rw [List.map_cons, List.filterMap_cons, assigned_assignment (h e List.mem_cons_self), htail]
    by_cases hkey : e.1 = key
    · simp [hkey]
    · simp [hkey]

/-- What is left of the restrictions. -/
theorem values_keep_base (key : Text) : values key (f.keep run0BaseArguments) =
    ((baseProperties.filter fun e => e.1 = key).filter
      fun e => !f.removeSandboxArguments.any (startsWith (assignment e.1 e.2))).map Prod.snd := by
  rw [run0BaseArguments_eq, Fields.keep, List.filter_map, values_assignments, List.filter_comm]
  · rfl
  · exact fun e he => equals_notMem_key e (List.mem_filter.mp he).1

/-- The properties that follow from the other fields. -/
def Fields.impliedProperties (f : Fields) : List (Text × Text) :=
  [(capabilityBoundingSet, spaced f.capabilities), (readWritePathsKey, spaced f.readWritePaths)] ++
    if f.allowedSyscalls ≠ [] then [(systemCallFilter, spaced f.allowedSyscalls)] else []

theorem impliedArguments_eq (f : Fields) :
    f.impliedArguments = f.impliedProperties.map fun e => assignment e.1 e.2 := by
  unfold Fields.impliedArguments Fields.impliedProperties
  split_ifs <;> rfl

theorem equals_notMem_implied (f : Fields) : ∀ e ∈ f.impliedProperties, '=' ∉ e.1 := by
  have hkeys : '=' ∉ capabilityBoundingSet ∧ '=' ∉ readWritePathsKey ∧ '=' ∉ systemCallFilter := by decide
  unfold Fields.impliedProperties
  split_ifs
  · simp [hkeys]
  · simp [hkeys]

theorem values_keep_implied (key : Text) : values key (f.keep f.impliedArguments) =
    ((f.impliedProperties.filter fun e => e.1 = key).filter
      fun e => !f.removeSandboxArguments.any (startsWith (assignment e.1 e.2))).map Prod.snd := by
  rw [impliedArguments_eq, Fields.keep, List.filter_map, values_assignments, List.filter_comm]
  · rfl
  · exact fun e he => equals_notMem_implied f.toFields e (List.mem_filter.mp he).1

/-- A restriction is in force unless it is removed or the property is assigned once more. -/
theorem in_force {e : Text × Text} (he : e ∈ baseProperties) (hkey : e.1 ≠ systemCallFilter)
    (hadditional : values e.1 f.additionalSandboxProperties = []) : values e.1 f.getArguments =
      if f.removeSandboxArguments.any (startsWith (assignment e.1 e.2)) then [] else [e.2] := by
  obtain ⟨hunique, hcapability, hpaths⟩ := key_unique e he hkey
  have himplied : values e.1 (f.keep f.impliedArguments) = [] := by
    rw [values_keep_implied, Fields.impliedProperties]
    split_ifs <;> simp [hkey.symm, hcapability.symm, hpaths.symm]
  rw [values_getArguments, hadditional, himplied, List.append_nil, List.append_nil, values_keep_base, hunique]
  split_ifs with hremoved
  · simp [hremoved]
  · simp [hremoved]

/-! ### System calls -/

variable {members : Text → Text → Bool}

/-- A value of the filter: names of system calls and of sets of them, to be denied behind a `~`;
    `members name call` says whether a name means a call. -/
def rule (members : Text → Text → Bool) (value : Text) : SignedRules.Rule Text :=
  match value with
  | '~' :: names => ⟨true, fun call => (words names).any (members · call)⟩
  | names => ⟨false, fun call => (words names).any (members · call)⟩

/-- A value without names, be it behind a `~`. -/
def Resets (value : Text) : Prop := words (removePrefix value ['~']) = []

instance (value : Text) : Decidable (Resets value) := inferInstanceAs (Decidable (_ = _))

/-- What the service manager makes of the values that are assigned to the filter, one after another: a value
    without names takes the filter away, any other adds its rule. -/
structure Accumulates (members : Text → Text → Bool)
    (filterOf : List Text → Option (SignedRules.Filter Text)) : Prop where
  nil : filterOf [] = none
  reset : ∀ values value, Resets value → filterOf (values ++ [value]) = none
  add : ∀ values value, ¬Resets value →
    filterOf (values ++ [value]) = SignedRules.add (filterOf values) (rule members value)

/-- The system calls that a worker has without asking for more. -/
def defaultCall (members : Text → Text → Bool) (call : Text) : Bool :=
  syscallsToAllow.any (members · call) && !syscallsToDeny.any (members · call)

/-- The values of the filter that a worker adds. -/
def SandboxedFunction.granted (f : SandboxedFunction) : List Text :=
  values systemCallFilter (f.keep f.impliedArguments) ++ values systemCallFilter f.additionalSandboxProperties

theorem Accumulates.filterOf_eq {filterOf : List Text → Option (SignedRules.Filter Text)}
    (h : Accumulates members filterOf) {vs : List Text} (hvs : ∀ value ∈ vs, ¬Resets value) :
    filterOf vs = (vs.map (rule members)).foldl SignedRules.add none := by
  induction vs using List.reverseRecOn with
  | nil => exact h.nil
  | append_singleton vs value ih =>
    have hbefore := ih fun v hv => hvs v (List.mem_append_left _ hv)
    rw [h.add vs value (hvs value (by simp)), hbefore, List.map_append, List.foldl_append]
    rfl

theorem rule_allow (members : Text → Text → Bool) :
    rule members (spaced syscallsToAllow) = ⟨false, fun call => syscallsToAllow.any (members · call)⟩ := by
  have hwords : words (spaced syscallsToAllow) = syscallsToAllow := (words_join (by decide)).trans (by decide)
  have hrule : rule members (spaced syscallsToAllow) =
      ⟨false, fun call => (words (spaced syscallsToAllow)).any (members · call)⟩ := rfl
  rw [hrule, hwords]

theorem rule_deny (members : Text → Text → Bool) :
    rule members ('~' :: spaced syscallsToDeny) = ⟨true, fun call => syscallsToDeny.any (members · call)⟩ := by
  have hwords : words (spaced syscallsToDeny) = syscallsToDeny := (words_join (by decide)).trans (by decide)
  have hrule : rule members ('~' :: spaced syscallsToDeny) =
      ⟨true, fun call => (words (spaced syscallsToDeny)).any (members · call)⟩ := rfl
  rw [hrule, hwords]

/-- The two values that every worker starts with. -/
def filterProperties : List (Text × Text) :=
  [(systemCallFilter, spaced syscallsToAllow), (systemCallFilter, '~' :: spaced syscallsToDeny)]

theorem filter_baseProperties : baseProperties.filter (fun e => e.1 = systemCallFilter) = filterProperties := by
  decide

/-- CORRECT: a worker that keeps the two filters and has no value without names may make the system calls
    that the last of its own values allows, of those that name the call, and where none names it just those
    in `@system-service` that no denied set contains. -/
theorem permits_worker {members : Text → Text → Bool} {filterOf : List Text → Option (SignedRules.Filter Text)}
    (hfilter : Accumulates members filterOf) {f : SandboxedFunction}
    (hkeep : ∀ e ∈ filterProperties, f.removeSandboxArguments.any (startsWith (assignment e.1 e.2)) = false)
    (hreset : ∀ value ∈ f.granted, ¬Resets value) (call : Text) :
    SignedRules.permits (filterOf (values systemCallFilter f.getArguments)) call =
      (SignedRules.verdict (f.granted.map (rule members)) call).getD (defaultCall members call) := by
  have hbase : values systemCallFilter (f.keep run0BaseArguments) = filterProperties.map Prod.snd := by
    rw [values_keep_base, filter_baseProperties, List.filter_eq_self.mpr]
    exact fun e he => by rw [hkeep e he]; rfl
  have hvalues : values systemCallFilter f.getArguments =
      spaced syscallsToAllow :: ('~' :: spaced syscallsToDeny) :: f.granted := by
    rw [values_getArguments, List.append_assoc, hbase]
    rfl
  have hall : ∀ value ∈ values systemCallFilter f.getArguments, ¬Resets value := by
    rw [hvalues, List.forall_mem_cons, List.forall_mem_cons]
    exact ⟨by decide, by decide, hreset⟩
  rw [hfilter.filterOf_eq hall, hvalues, List.map_cons, SignedRules.permits_rules, List.map_cons,
    SignedRules.verdict_cons, SignedRules.verdict_cons, rule_allow, rule_deny]
  unfold defaultCall
  cases SignedRules.verdict (f.granted.map (rule members)) call with
  | some b => rfl
  | none =>
    have hbool : ∀ a d : Bool, ((none.or (if d then some (!true) else none)).or
        (if a then some (!false) else none)).getD false = (a && !d) := by decide
    exact hbool _ _

end

/-! ### The workers -/

/-- `BREW_TOGGLE_FUNCTION`, `brew_main.py` -/
def brew : SandboxedFunction where
  fileName := "brew.py"
  readWritePaths := ["/home/linuxbrew", "/etc/tmpfiles.d", "/etc/profile.d"]
  capabilities := ["CAP_CHOWN", "CAP_DAC_OVERRIDE", "CAP_FOWNER"]
  allowedSyscalls := ["@chown"]
  removeSandboxArguments := ["--property=ProcSubset="]
  options := by decide

/-- `stampfile_function`, `set_always_upgrade_on_boot.py` -/
def stampfile : SandboxedFunction where
  fileName := "set_stampfile.py"
  readWritePaths := ["/var/lib/secureblue"]
  options := by decide

/-- `worker`, `shared/kargs_hardening.py` -/
def setKargsUki : SandboxedFunction where
  fileName := "set_kargs_uki.py"
  readWritePaths := ["/boot/loader/"]
  options := by decide

/-- `bluetooth_function`, `bluetooth_main.py` -/
def bluetooth : SandboxedFunction where
  fileName := "bluetooth.py"
  readWritePaths := ["/etc/modprobe.d"]
  options := by decide

/-- `hostname_sending_function`, `dhcp_hostname_sending_main.py` -/
def hostnameSending : SandboxedFunction where
  fileName := "dhcp_hostname_sending.py"
  readWritePaths := ["/etc/NetworkManager/conf.d"]
  options := by decide

/-- `admin_function`, `create_admin.py` -/
def admin : SandboxedFunction where
  fileName := "admin.py"
  subprocessInteractive := true
  readWritePaths := ["/etc"]
  capabilities := ["CAP_DAC_OVERRIDE"]
  additionalSandboxProperties := [assignment systemCallFilter "@chown setuid"]
  options := by decide

/-- `semodule_function`, `set_container_userns.py` and `set_unconfined_userns.py` -/
def semodule : SandboxedFunction where
  fileName := "set_selinux_module.py"
  readWritePaths := ["/etc"]
  capabilities := ["CAP_DAC_OVERRIDE"]
  options := by decide

/-- `CUPS_FUNCTION`, `set_cups.py` -/
def cups : SandboxedFunction where
  fileName := "cups.py"
  readWritePaths := ["/etc/firewalld", "/etc/systemd/system"]
  removeSandboxArguments := ["--property=InaccessiblePaths=/run/dbus/"]
  options := by decide

/-- `dns_function`, `dns_selector.py` -/
def dns : SandboxedFunction where
  fileName := "dns.py"
  readWritePaths := ["/etc"]
  capabilities := ["CAP_SYS_ADMIN", "CAP_DAC_OVERRIDE", "CAP_CHOWN", "CAP_FOWNER"]
  allowedSyscalls := ["@chown"]
  options := by decide

/-- `webcam_function`, `webcam_main.py` -/
def webcam : SandboxedFunction where
  fileName := "webcam.py"
  readWritePaths := ["/etc/modprobe.d"]
  options := by decide

/-- `worker`, `enroll_secure_boot_keys.py` -/
def secureBoot : SandboxedFunction where
  fileName := "secure_boot.py"
  readWritePaths := ["/sys/firmware/efi/efivars", "/boot"]
  capabilities := ["CAP_LINUX_IMMUTABLE"]
  options := by decide

def workers : List SandboxedFunction :=
  [brew, stampfile, setKargsUki, bluetooth, hostnameSending, admin, semodule, cups, dns, webcam, secureBoot]

/-- The restrictions that workers do without. -/
def lifted : List (Text × Text) := [("brew.py", "ProcSubset"), ("cups.py", "InaccessiblePaths")]

/-- The sets of system calls that workers have beside the default ones. -/
def grantedCalls (f : SandboxedFunction) : List Text := f.granted.flatMap words

/-- What a worker asks for, in a form that can be decided. -/
structure Asks (f : SandboxedFunction) : Prop where
  removed : ∀ e ∈ baseProperties, f.removeSandboxArguments.any (startsWith (assignment e.1 e.2)) =
    decide ((f.fileName, e.1) ∈ lifted)
  implied : ∀ e ∈ f.impliedProperties, f.removeSandboxArguments.any (startsWith (assignment e.1 e.2)) = false
  additional : ∀ e ∈ baseProperties, e.1 ≠ systemCallFilter → values e.1 f.additionalSandboxProperties = []
  privileges : values capabilityBoundingSet f.additionalSandboxProperties = [] ∧
    values readWritePathsKey f.additionalSandboxProperties = []
  granted : ∀ value ∈ f.granted, words value ≠ [] ∧ value.head? ≠ some '~'

/-- A worker that removes and adds nothing itself. -/
theorem asks_plain {f : SandboxedFunction} (hremove : f.removeSandboxArguments = [])
    (hadditional : f.additionalSandboxProperties = []) (hfile : ∀ e ∈ lifted, e.1 ≠ f.fileName)
    (hgranted : ∀ value ∈ f.granted, words value ≠ [] ∧ value.head? ≠ some '~') : Asks f where
  removed e _ := by
    have hnot : (f.fileName, e.1) ∉ lifted := fun hmem => hfile _ hmem rfl
    rw [hremove, decide_eq_false hnot]
    rfl
  implied e _ := by rw [hremove]; rfl
  additional _ _ _ := by rw [hadditional]; rfl
  privileges := by rw [hadditional]; exact ⟨rfl, rfl⟩
  granted := hgranted

theorem asks_brew : Asks brew := ⟨by decide, by decide, by decide, by decide, by decide⟩

theorem asks_admin : Asks admin := ⟨by decide, by decide, by decide, by decide, by decide⟩

theorem asks_cups : Asks cups := ⟨by decide, by decide, by decide, by decide, by decide⟩

theorem asks_workers : ∀ w ∈ workers, Asks w := by
  intro w hw
  simp only [workers, List.mem_cons, List.not_mem_nil, or_false] at hw
  rcases hw with h | h | h | h | h | h | h | h | h | h | h
  · exact h ▸ asks_brew
  · exact h ▸ asks_plain rfl rfl (by decide) (by decide)
  · exact h ▸ asks_plain rfl rfl (by decide) (by decide)
  · exact h ▸ asks_plain rfl rfl (by decide) (by decide)
  · exact h ▸ asks_plain rfl rfl (by decide) (by decide)
  · exact h ▸ asks_admin
  · exact h ▸ asks_plain rfl rfl (by decide) (by decide)
  · exact h ▸ asks_cups
  · exact h ▸ asks_plain rfl rfl (by decide) (by decide)
  · exact h ▸ asks_plain rfl rfl (by decide) (by decide)
  · exact h ▸ asks_plain rfl rfl (by decide) (by decide)

/-- The privileges that follow from the fields are assigned once. -/
theorem Asks.values_implied {f : SandboxedFunction} (h : Asks f) {e : Text × Text} (he : e ∈ f.impliedProperties)
    (hkey : e.1 ≠ systemCallFilter) (hbase : ∀ d ∈ baseProperties, d.1 ≠ e.1)
    (hadditional : values e.1 f.additionalSandboxProperties = []) : values e.1 f.getArguments = [e.2] := by
  have hinner : baseProperties.filter (fun d => d.1 = e.1) = [] :=
    List.filter_eq_nil_iff.mpr fun d hd => by simpa using hbase d hd
  have hnone : values e.1 (f.keep run0BaseArguments) = [] := by
    rw [values_keep_base, hinner]
    rfl
  have hone : f.impliedProperties.filter (fun d => d.1 = e.1) = [e] := by
    have hkeys : capabilityBoundingSet ≠ readWritePathsKey := by decide
    unfold Fields.impliedProperties at he ⊢
    have hcases : e = (capabilityBoundingSet, spaced f.capabilities) ∨
        e = (readWritePathsKey, spaced f.readWritePaths) := by
      split_ifs at he
      · simp only [List.cons_append, List.nil_append, List.mem_cons, List.not_mem_nil, or_false] at he
        rcases he with rfl | rfl | rfl
        · exact .inl rfl
        · exact .inr rfl
        · exact absurd rfl hkey
      · simpa using he
    have hkeys' : capabilityBoundingSet ≠ systemCallFilter ∧ readWritePathsKey ≠ systemCallFilter := by decide
    rcases hcases with rfl | rfl
    · split_ifs <;> simp [hkeys.symm, hkeys'.1.symm]
    · split_ifs <;> simp [hkeys, hkeys'.2.symm]
  rw [values_getArguments, hnone, hadditional, List.nil_append, List.append_nil, values_keep_implied, hone]
  simp [h.implied e he]

theorem Asks.keeps_filters {f : SandboxedFunction} (h : Asks f) :
    ∀ e ∈ filterProperties, f.removeSandboxArguments.any (startsWith (assignment e.1 e.2)) = false := by
  intro e he
  have hfilters : ∀ e ∈ filterProperties, e ∈ baseProperties ∧ ∀ d ∈ lifted, d.2 ≠ e.1 := by decide
  rw [h.removed e (hfilters e he).1]
  exact decide_eq_false fun hmem => (hfilters e he).2 _ hmem rfl

/-- A value that does not begin with `~` allows its words. -/
theorem rule_of_head {value : Text} (h : value.head? ≠ some '~') (members : Text → Text → Bool) :
    rule members value = ⟨false, fun call => (words value).any (members · call)⟩ := by
  cases value with
  | nil => rfl
  | cons c names =>
    have hc : c ≠ '~' := fun hc => h (congrArg some hc)
    unfold rule
    split
    · next heq => exact absurd (List.cons.inj heq).1 hc
    · rfl

theorem Asks.not_resets {f : SandboxedFunction} (h : Asks f) : ∀ value ∈ f.granted, ¬Resets value := by
  intro value hvalue hreset
  obtain ⟨hwords, hhead⟩ := h.granted value hvalue
  have hprefix : ¬startsWith value ['~'] := by
    intro hstart
    obtain ⟨t, rfl⟩ := startsWith_iff.mp hstart
    exact hhead rfl
  rw [Resets, removePrefix, if_neg hprefix] at hreset
  exact hwords hreset

theorem Asks.any_granted {f : SandboxedFunction} (h : Asks f) (members : Text → Text → Bool) (call : Text) :
    (f.granted.map (rule members)).any (·.names call) = (grantedCalls f).any (members · call) := by
  have hrules : ∀ vs : List Text, (∀ value ∈ vs, value.head? ≠ some '~') →
      (vs.map (rule members)).any (·.names call) = (vs.flatMap words).any (members · call) := by
    intro vs
    induction vs with
    | nil => exact fun _ => rfl
    | cons value vs ih =>
      intro hvs
      rw [List.map_cons, List.any_cons, List.flatMap_cons, List.any_append,
        ih fun v hv => hvs v (List.mem_cons_of_mem value hv), rule_of_head (hvs value List.mem_cons_self)]
  exact hrules f.granted fun value hvalue => (h.granted value hvalue).2

/-- CORRECT: every worker of the repository runs under all the common restrictions but the one that brew
    and the one that cups lifts, with just the capabilities and the writable paths of its fields, and with
    no system call beside the default ones and those that it names. -/
theorem workers_confined {members : Text → Text → Bool} {filterOf : List Text → Option (SignedRules.Filter Text)}
    (hfilter : Accumulates members filterOf) : ∀ w ∈ workers,
    (∀ e ∈ baseProperties, e.1 ≠ systemCallFilter →
      values e.1 w.getArguments = if (w.fileName, e.1) ∈ lifted then [] else [e.2]) ∧
    values capabilityBoundingSet w.getArguments = [spaced w.capabilities] ∧
    values readWritePathsKey w.getArguments = [spaced w.readWritePaths] ∧
    ∀ call, SignedRules.permits (filterOf (values systemCallFilter w.getArguments)) call =
      (defaultCall members call || (grantedCalls w).any (members · call)) := by
  intro w hw
  have h := asks_workers w hw
  have hbase : ∀ d ∈ baseProperties, d.1 ≠ capabilityBoundingSet ∧ d.1 ≠ readWritePathsKey := by decide
  have hkeys : capabilityBoundingSet ≠ systemCallFilter ∧ readWritePathsKey ≠ systemCallFilter := by decide
  refine ⟨fun e he hkey => ?_, ?_, ?_, fun call => ?_⟩
  · rw [in_force he hkey (h.additional e he hkey), h.removed e he]
    simp only [decide_eq_true_eq]
  · exact h.values_implied (e := (capabilityBoundingSet, spaced w.capabilities))
      (by simp [Fields.impliedProperties]) hkeys.1 (fun d hd => (hbase d hd).1) h.privileges.1
  · exact h.values_implied (e := (readWritePathsKey, spaced w.readWritePaths))
      (by simp [Fields.impliedProperties]) hkeys.2 (fun d hd => (hbase d hd).2) h.privileges.2
  · rw [permits_worker hfilter h.keeps_filters h.not_resets, SignedRules.verdict_allow, h.any_granted]
    · cases defaultCall members call <;> cases (grantedCalls w).any (members · call) <;> rfl
    · intro r hr
      obtain ⟨value, hvalue, rfl⟩ := List.mem_map.mp hr
      exact (rule_of_head (h.granted value hvalue).2 members).symm ▸ rfl

/-! ### Instances -/

/-- The filter of values, as it is documented. -/
def accumulated (members : Text → Text → Bool) (values : List Text) : Option (SignedRules.Filter Text) :=
  values.foldl
    (fun filter value => if Resets value then none else SignedRules.add filter (rule members value)) none

theorem accumulates_accumulated (members : Text → Text → Bool) : Accumulates members (accumulated members) where
  nil := rfl
  reset values value h := by
    rw [accumulated, List.foldl_append, List.foldl_cons, List.foldl_nil, if_pos h]
  add values value h := by
    rw [accumulated, List.foldl_append, List.foldl_cons, List.foldl_nil, if_neg h]
    rfl

/-- Options up to `--` or to the first argument that is none, then the command. -/
def optionsAndCommand (takesNext : Text → Bool) : List Text → List Text × List Text
  | [] => ([], [])
  | [arg] => if arg = dashes then ([], []) else if startsWith arg ['-'] then ([arg], []) else ([], [arg])
  | arg :: next :: args =>
    if arg = dashes then ([], next :: args)
    else if startsWith arg ['-'] then
      if takesNext arg then
        let (options, command) := optionsAndCommand takesNext args
        (arg :: next :: options, command)
      else
        let (options, command) := optionsAndCommand takesNext (next :: args)
        (arg :: options, command)
    else ([], arg :: next :: args)

theorem IsOption.startsWith_dash {arg : Text} (h : IsOption arg) : startsWith arg ['-'] := by
  obtain ⟨rest, rfl⟩ := startsWith_iff.mp h.1
  rfl

theorem readsOptions_optionsAndCommand {takesNext : Text → Bool} (h : ∀ arg, '=' ∈ arg → takesNext arg = false) :
    ReadsOptions takesNext (optionsAndCommand takesNext) where
  equals := h
  dashes command hcommand := by
    obtain ⟨c, cs, rfl⟩ := List.exists_cons_of_ne_nil hcommand
    rw [optionsAndCommand, if_pos rfl]
  option arg args harg hnext := by
    cases args with
    | nil => simp only [optionsAndCommand, if_neg harg.2, if_pos harg.startsWith_dash]
    | cons next args =>
      rw [optionsAndCommand, if_neg harg.2, if_pos harg.startsWith_dash, hnext, if_neg (by decide)]

theorem workers_confined_cups : values "PrivateNetwork" cups.getArguments = ["yes"] ∧
    values "InaccessiblePaths" cups.getArguments = [] := by
  have hfilter := accumulates_accumulated fun name call => decide (name = call)
  have h := (workers_confined hfilter cups (by simp [workers])).1
  exact ⟨h ("PrivateNetwork", "yes") (by decide) (by decide),
    h ("InaccessiblePaths", "/run/dbus/ /run/user/") (by decide) (by decide)⟩

/-- The worker that creates an administrator, where a name is the one call of its own set. -/
theorem permits_worker_admin : let members : Text → Text → Bool := fun name call => decide (name = call)
    SignedRules.permits (accumulated members (values systemCallFilter admin.getArguments)) "setuid" =
      (SignedRules.verdict (admin.granted.map (rule members)) "setuid").getD (defaultCall members "setuid") :=
  permits_worker (accumulates_accumulated _) (by decide) (by decide) _

/-- The worker that creates an administrator, for a name that looks like an option. -/
theorem run_boundary_admin : let args : List Text := ["--help"]
    ∃ rest input, run admin args none = .ok (run0 :: rest, input) ∧
      optionsAndCommand (fun arg => decide (arg = "--user")) rest = (admin.getArguments,
        [python3, "-Es", "-B", innerDir ++ '/' :: admin.fileName] ++ args) := by
  intro args
  have hequals : ∀ arg : Text, '=' ∈ arg → decide (arg = "--user") = false := by
    intro arg harg
    refine decide_eq_false fun heq => ?_
    rw [heq] at harg
    exact absurd harg (by decide)
  rcases run_boundary admin args none (readsOptions_optionsAndCommand hequals) (by decide) with
    ⟨-, h, -⟩ | ⟨rest, input, hrun, hparse, -⟩
  · exact nomatch h
  · exact ⟨rest, input, hrun, hparse⟩

end Sandbox
