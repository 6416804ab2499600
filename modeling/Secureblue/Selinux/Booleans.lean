import Secureblue.Py.Index

/-! SELinux booleans as the scripts see them (`get_selinux_booleans` and `set_selinux_booleans` in
    `shared/utils.py`), and the host that the tools for SELinux act on.

    Booleans are read from the lines of `getsebool` and set by the arguments of `setsebool`. Both
    protocols are faithful for names without white space and `=`
    (`getSelinuxBooleans_eq`, `setSelinuxBooleans_eq`). -/

namespace Selinux
open Py

/-- What the tools act on. -/
structure Host where
  /-- whether a boolean is on, in the policy and in the kernel alike -/
  booleans : Text → Bool
  /-- the enabled modules, as `semodule -l` lists them -/
  modules : List Text
  /-- the content of `/proc/sys/kernel/yama/ptrace_scope` -/
  ptraceScope : Text
  /-- whether some container of the user who calls the tools is running -/
  containers : Bool
  /-- whether some container of another user is running -/
  othersContainers : Bool

/-- Exceptions of the tools. -/
inductive Failure where
  | valueError (msg : Text)
  | runtimeError (msg : Text)
  | calledProcessError
  deriving DecidableEq

/-- What a program printed, and how it ended: with an exit code or an exception. -/
structure Outcome where
  printed : List Text
  ended : Except Failure ℕ

/-! ### The code -/

def arrow : Text := " --> "

def on : Text := "on"

def off : Text := "off"

/-- The programs that the tools run: what `getsebool` prints for the booleans and some names, and what
    `setsebool` and `semodule` make of the booleans and of the enabled modules by their arguments. -/
structure Commands where
  getsebool : (Text → Bool) → List Text → Text
  setsebool : (Text → Bool) → List Text → Text → Bool
  semodule : List Text → Text → List Text

section
variable (commands : Commands)

/-- `line.split(" --> ", maxsplit=1)` unpacked into two names -/
def splitLine (line : Text) : Except Failure (Text × Text) :=
  match index arrow line with
  | some i => .ok (line.take i, line.drop (i + arrow.length))
  | none => .error (.valueError "not enough values to unpack (expected 2, got 1)")

/-- `get_selinux_booleans`, where `succeeds` says whether the command does. -/
def getSelinuxBooleans (succeeds : Bool) (h : Host) (names : List Text) : Except Failure (List Text) :=
  if succeeds then do
    let pairs ← (splitlines (strip (commands.getsebool h.booleans names))).mapM splitLine
    return (pairs.filter fun e => e.2 = on).map Prod.fst
  else .error .calledProcessError

/-- `f"{key}={'on' if value else 'off'}"` -/
def assignment (e : Text × Bool) : Text := e.1 ++ '=' :: if e.2 then on else off

/-- The command of `set_selinux_booleans`. -/
def setSelinuxBooleansArgs (sebools : List (Text × Bool)) (permanent : Bool) : List Text :=
  let args : List Text := ["run0", "-i", "setsebool"]
  let permanentFlag : List Text := if permanent then ["-P"] else []
  args ++ permanentFlag ++ sebools.map assignment

/-- `set_selinux_booleans`, where `code` is what `run0` returns: nothing is changed unless it is zero. -/
def setSelinuxBooleans (code : ℕ) (sebools : List (Text × Bool)) (h : Host) : ℕ × Host :=
  (code, if code = 0 then
    { h with booleans := commands.setsebool h.booleans ((setSelinuxBooleansArgs sebools true).drop 3) } else h)

end

/-! ### The programs -/

/-- A name of which `getsebool` prints one line that reads back, and which is no option. -/
structure IsName (name : Text) : Prop where
  ne_nil : name ≠ []
  head : name.head? ≠ some '-'
  space : ∀ c ∈ name, isSpace c = false
  equals : '=' ∉ name

/-- The line of `getsebool` for a boolean. -/
def getseboolLine (name : Text) (isOn : Bool) : Text := name ++ arrow ++ if isOn then on else off

/-- The booleans after the assignments, in order. -/
def updated (booleans : Text → Bool) (sebools : List (Text × Bool)) : Text → Bool :=
  sebools.foldl (fun booleans e => Function.update booleans e.1 e.2) booleans

/-- The documented behaviour: a line for each name, assignments made for good in order, and a module put
    among the enabled ones or taken out of them. -/
structure Commands.Documented (commands : Commands) : Prop where
  getsebool : ∀ booleans names, names ≠ [] → (∀ name ∈ names, IsName name) →
    commands.getsebool booleans names = unlines (names.map fun name => getseboolLine name (booleans name))
  setsebool : ∀ booleans sebools, sebools ≠ [] → (∀ e ∈ sebools, IsName e.1) →
    commands.setsebool booleans ("-P".toList :: sebools.map assignment) = updated booleans sebools
  enable : ∀ modules name, name ∈ commands.semodule modules (("--enable=" : Text) ++ name)
  disable : ∀ modules name, name ∉ commands.semodule modules (("--disable=" : Text) ++ name)
  others : ∀ modules name, ∀ option ∈ [("--enable=" : Text), "--disable="],
    (commands.semodule modules (option ++ name)).filter (· ≠ name) = modules.filter (· ≠ name)

/-! ### Reading -/

/-- A text is found behind one without its first character. -/
theorem index_append {c : Char} {sub a : Text} (h : c ∉ a) (rest : Text) :
    index (c :: sub) (a ++ (c :: sub ++ rest)) = some a.length := by
  induction a with
  | nil =>
    have hstart : startsWith (c :: (sub ++ rest)) (c :: sub) = true :=
      startsWith_iff.mpr (List.prefix_append (c :: sub) rest)
    rw [List.nil_append, List.cons_append, index, if_pos hstart, List.length_nil]
  | cons d a ih =>
    have hd : c ≠ d := List.ne_of_not_mem_cons h
    have hstart : startsWith (d :: (a ++ (c :: sub ++ rest))) (c :: sub) = false := by
      simp [startsWith, List.isPrefixOf_cons_cons, hd]
    rw [List.cons_append, index, hstart, if_neg (by simp), ih (List.not_mem_of_not_mem_cons h)]
    rfl

theorem splitLine_getseboolLine {name : Text} (h : ' ' ∉ name) (isOn : Bool) :
    splitLine (getseboolLine name isOn) = .ok (name, if isOn then on else off) := by
  have hindex : index arrow (getseboolLine name isOn) = some name.length := by
    rw [getseboolLine, List.append_assoc]
    exact @index_append ' ' ['-', '-', '>', ' '] name h _
  have hdrop : (getseboolLine name isOn).drop (name.length + arrow.length) = if isOn then on else off := by
    rw [getseboolLine, ← List.length_append, List.drop_left]
  have htake : (getseboolLine name isOn).take name.length = name := by
    rw [getseboolLine, List.append_assoc, List.take_left]
  rw [splitLine, hindex]
  dsimp only
  rw [htake, hdrop]

theorem isLine_getseboolLine {name : Text} (h : IsName name) (isOn : Bool) : IsLine (getseboolLine name isOn) where
  ne_nil := by simp [getseboolLine, h.ne_nil]
  lineBreak c hc := by
    rw [getseboolLine, List.mem_append, List.mem_append] at hc
    rcases hc with (hname | harrow) | hvalue
    · exact (isLine_of_not_space h.ne_nil h.space).lineBreak c hname
    · exact (by decide : ∀ c ∈ arrow, isLineBreak c = false) c harrow
    · cases isOn with
      | true => exact (by decide : ∀ c ∈ on, isLineBreak c = false) c hvalue
      | false => exact (by decide : ∀ c ∈ off, isLineBreak c = false) c hvalue
  head c hc := by
    rw [getseboolLine, List.append_assoc, List.head?_append_of_ne_nil _ h.ne_nil] at hc
    exact h.space c (List.mem_of_mem_head? hc)
  getLast c hc := by
    cases isOn with
    | true =>
      rw [getseboolLine, List.getLast?_append_of_ne_nil _ (by decide)] at hc
      exact (by decide : ∀ c ∈ on.getLast?, isSpace c = false) c hc
    | false =>
      rw [getseboolLine, List.getLast?_append_of_ne_nil _ (by decide)] at hc
      exact (by decide : ∀ c ∈ off.getLast?, isSpace c = false) c hc

section
variable {commands : Commands} (hcommands : commands.Documented)
include hcommands

/-- The booleans that are on are read, in the order in which they were asked for. -/
theorem getSelinuxBooleans_eq (h : Host) {names : List Text} (hne : names ≠ [])
    (hnames : ∀ name ∈ names, IsName name) :
    getSelinuxBooleans commands true h names = .ok (names.filter h.booleans) := by
  have hlines : splitlines (strip (commands.getsebool h.booleans names)) =
      names.map fun name => getseboolLine name (h.booleans name) := by
    rw [hcommands.getsebool h.booleans names hne hnames]
    refine splitlines_strip_unlines fun l hl => ?_
    obtain ⟨name, hname, rfl⟩ := List.mem_map.mp hl
    exact isLine_getseboolLine (hnames name hname) _
  have hpairs : ∀ ns : List Text, (∀ name ∈ ns, IsName name) →
      (ns.map fun name => getseboolLine name (h.booleans name)).mapM splitLine =
        .ok (ns.map fun name => (name, if h.booleans name then on else off)) := by
    intro ns
    induction ns with
    | nil => exact fun _ => rfl
    | cons name ns ih =>
      intro hns
      have hspace : ' ' ∉ name := fun hc => by
        have := (hns name List.mem_cons_self).space ' ' hc
        exact absurd this (by decide)
      rw [List.map_cons, List.mapM_cons, splitLine_getseboolLine hspace,
        ih fun m hm => hns m (List.mem_cons_of_mem _ hm)]
      rfl
  have hfilter : ∀ ns : List Text, ((ns.map fun name => (name, if h.booleans name then on else off)).filter
      fun e => e.2 = on).map Prod.fst = ns.filter h.booleans := by
    intro ns
    induction ns with
    | nil => rfl
    | cons name ns ih =>
      cases hname : h.booleans name with
      | true => simp [hname, ih]
      | false => simp [hname, ih, show off ≠ on by decide]
  rw [getSelinuxBooleans, if_pos rfl, hlines, hpairs names hnames]
  exact congrArg Except.ok (hfilter names)

/-- `setsebool` is given what was asked for. -/
theorem setSelinuxBooleans_eq {sebools : List (Text × Bool)} (hne : sebools ≠ []) (h : ∀ e ∈ sebools, IsName e.1)
    (code : ℕ) (host : Host) : setSelinuxBooleans commands code sebools host =
      (code, if code = 0 then { host with booleans := updated host.booleans sebools } else host) := by
  have hargs : (setSelinuxBooleansArgs sebools true).drop 3 = "-P".toList :: sebools.map assignment := rfl
  rw [setSelinuxBooleans, hargs,
    hcommands.setsebool _ _ hne h]

end

/-! ### An instance -/

/-- An argument `boolean=value`; options are passed over. -/
def assign (booleans : Text → Bool) (arg : Text) : Text → Bool :=
  if startsWith arg ['-'] then booleans
  else Function.update booleans (partition '=' arg).1 (decide ((partition '=' arg).2.2 = on))

/-- The programs as they behave on the arguments that the tools give them. -/
def commandsOfArgs : Commands where
  getsebool booleans names := unlines (names.map fun name => getseboolLine name (booleans name))
  setsebool booleans args := args.foldl assign booleans
  semodule modules arg :=
    let (mode, _, name) := partition '=' arg
    if mode = "--enable" then if name ∈ modules then modules else modules ++ [name]
    else modules.filter (· ≠ name)

theorem assign_assignment {e : Text × Bool} (h : IsName e.1) (booleans : Text → Bool) :
    assign booleans (assignment e) = Function.update booleans e.1 e.2 := by
  obtain ⟨name, value⟩ := e
  have hparts : partition '=' (assignment (name, value)) = (name, ['='], if value then on else off) :=
    partition_append h.equals _
  have hstart : ¬startsWith (assignment (name, value)) ['-'] := by
    intro hstart
    obtain ⟨c, name, rfl⟩ := List.exists_cons_of_ne_nil h.ne_nil
    obtain ⟨t, ht⟩ := startsWith_iff.mp hstart
    exact h.head (congrArg some (List.cons.inj ht).1.symm)
  rw [assign, if_neg hstart, hparts]
  cases value <;> rfl

theorem foldl_assign {sebools : List (Text × Bool)} (h : ∀ e ∈ sebools, IsName e.1) (booleans : Text → Bool) :
    (sebools.map assignment).foldl assign booleans = updated booleans sebools := by
  induction sebools generalizing booleans with
  | nil => rfl
  | cons e sebools ih =>
    rw [List.map_cons, List.foldl_cons, assign_assignment (h e List.mem_cons_self),
      ih fun d hd => h d (List.mem_cons_of_mem e hd)]
    rfl

theorem semodule_enable (modules : List Text) (name : Text) :
    commandsOfArgs.semodule modules (("--enable=" : Text) ++ name) =
      if name ∈ modules then modules else modules ++ [name] := by
  have hparts : partition '=' (("--enable=" : Text) ++ name) = ("--enable".toList, ['='], name) :=
    @partition_append '=' "--enable".toList (by decide) name
  simp only [commandsOfArgs, hparts, if_true]

theorem semodule_disable (modules : List Text) (name : Text) :
    commandsOfArgs.semodule modules (("--disable=" : Text) ++ name) = modules.filter (· ≠ name) := by
  have hparts : partition '=' (("--disable=" : Text) ++ name) = ("--disable".toList, ['='], name) :=
    @partition_append '=' "--disable".toList (by decide) name
  have hmode : ("--disable" : Text) ≠ "--enable" := by decide
  simp only [commandsOfArgs, hparts, if_neg hmode]

theorem commandsOfArgs_documented : commandsOfArgs.Documented where
  getsebool _ _ _ _ := rfl
  setsebool booleans _ _ h := foldl_assign h booleans
  enable modules name := by
    rw [semodule_enable]
    split_ifs with hmem
    · exact hmem
    · exact List.mem_append_right _ (List.mem_singleton_self name)
  disable modules name := by
    rw [semodule_disable]
    simp
  others modules name option hoption := by
    rcases List.mem_cons.mp hoption with rfl | hoption
    · rw [semodule_enable]
      split_ifs
      · rfl
      · simp
    · rw [List.mem_singleton.mp hoption, semodule_disable, List.filter_filter]
      simp

end Selinux
