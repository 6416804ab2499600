import Mathlib.Logic.Function.Basic
import Secureblue.Efi.EnrollMok
import Secureblue.Efi.SystemdBoot

/-! Enrolment of the keys of the firmware (`enroll_secure_boot_keys.py` and `inner/secure_boot.py`) on a
    machine that may be interrupted.

    The keys can be written in Setup Mode only, and writing `PK` leaves it, so `PK` comes last: a call that
    is cut short before this write is made up for by the next one, and whenever Setup Mode is left all the
    keys are there. What the worker does after it is lost with an interruption, because the next call finds
    `PK` and does nothing (`enroll_recovers_iff`). -/

namespace Efi.Keys
open Py Interrupt

/-! ### The code -/

def efiNsGlobal : Text := "8be4df61-93ca-11d2-aa0d-00e098032b8c"

def efiNsSecurity : Text := "d719b2cb-3d3a-4596-a3bc-dad00e67656f"

def efiAttrTimeBasedAuthWrite : ℕ := 0x00000020

/-- These are standard and taken from systemd-boot loader.conf. -/
def attributes : ℕ := efiAttrNonVolatile ||| efiAttrRuntime ||| efiAttrBootservice ||| efiAttrTimeBasedAuthWrite

/-- The contents of the files of a request. -/
structure AuthFiles where
  dbAuth : Bytes
  kekAuth : Bytes
  pkAuth : Bytes

/-- `enroll_efi_keys`: enrolling a PK exits Setup Mode, so this goes last. -/
def enrollEfiKeys (pathExists : Text → Bool) (auth : AuthFiles) : Except Exn (List Action) := do
  let db ← writeEfiBytes pathExists "db" efiNsSecurity attributes auth.dbAuth
  let kek ← writeEfiBytes pathExists "KEK" efiNsGlobal attributes auth.kekAuth
  let pk ← writeEfiBytes pathExists "PK" efiNsGlobal attributes auth.pkAuth
  return db ++ kek ++ pk

/-- The variables of the firmware by the paths of their files. -/
abbrev Vars := Text → Option Bytes

/-- The part of the machine that the tool sees. -/
structure Machine where
  vars : Vars
  immutable : Text → Bool
  esp : Esp

def pkPath : Text := efivarPath "PK" efiNsGlobal

def setupModePath : Text := efivarPath "SetupMode" efiNsGlobal

def secureBootPath : Text := efivarPath "SecureBoot" efiNsGlobal

/-- `read_efivar(...)[0] == 1` for a variable of one byte; false if there is none. -/
def isOne (vars : Vars) (path : Text) : Bool :=
  match vars path with
  | some data => (data.drop efiUint32Size).head? == some 1
  | none => false

def isSecureBootEnabled (m : Machine) : Bool := isOne m.vars secureBootPath

def isSetupModeEnabled (vars : Vars) : Bool := isOne vars setupModePath

/-- Returns whether the secureblue Platform Key is installed. -/
def isPkInstalled (pkDer : Bytes) (m : Machine) : Bool :=
  match m.vars pkPath with
  | some data => decide (isCertInSignatureList pkDer data = .ok true)
  | none => false

def successfullyEnrolled : Text := "The secureblue Platform Key was successfully enrolled."

def workerFailed (exitCode : ℕ) : Text :=
  ("Worker failed (exit " : Text) ++ (toString exitCode).toList ++ (")" : Text)

section
variable (set : Text → Bytes → Vars → Option Vars)

/-- An action of the worker, where `set` is what the firmware does with the variable that is written. -/
def perform : Action → Machine → Except Exn Machine
  | .chattr flag path, m => .ok { m with immutable := Function.update m.immutable path (decide (flag = "+i")) }
  | .umask _, m => .ok m
  | .writeBytes path data, m =>
    if (m.vars path).isSome ∧ m.immutable path then .error .osError
    else match set path data m.vars with
      | some vars => .ok { m with vars := vars }
      | none => .error .osError

/-- Actions one after another, up to the first that raises. -/
def performAll : List Action → Machine → Option Exn × Machine
  | [], m => (none, m)
  | a :: as, m =>
    match perform set a m with
    | .ok m' => performAll as m'
    | .error e => (some e, m)

variable (sha256 : Bytes → Bytes) (new : Bytes) (auth : AuthFiles)

/-- `main` of the worker for `EnrollEfiKeys`, with its exit code. -/
def worker (m : Machine) : ℕ × Machine :=
  match enrollEfiKeys (fun path => (m.vars path).isSome) auth with
  | .error _ => (1, m)
  | .ok actions =>
    match performAll set actions m with
    | (some _, m') => (1, m')
    | (none, m') =>
      match Interrupt.run (updateSystemdBoot sha256 new) m'.esp with
      | .ok esp => (0, { m' with esp := esp })
      | .error _ => (1, m')

/-- `install_pk`, with what it prints and its exit code; with `some n`, `run0` fails with code `n + 1` and
    the worker is not started. -/
def installPk (pkDer : Bytes) (run0 : Option ℕ) (m : Machine) : (List Text × ℕ) × Machine :=
  if isPkInstalled pkDer m then
    let disabled : List Text := if isSecureBootEnabled m then []
      else ["Secure Boot is not enabled. Please do this in `ujust bios`."]
    ((("The secureblue Platform Key is already enrolled." : Text) :: disabled, 0), m)
  else if !isSetupModeEnabled m.vars then
    ((["The firmware is not in Setup Mode.\nPlease remove the existing Platform Key in `ujust bios`."], 1), m)
  else
    let (exitCode, m') := match run0 with
      | some n => (n + 1, m)
      | none => worker set sha256 new auth m
    if exitCode ≠ 0 then
      (([workerFailed exitCode], exitCode), m')
    else if isPkInstalled pkDer m' then (([successfullyEnrolled], 0), m')
    else ((["Unable to install the secureblue Platform Key. Reboot and try again."], 1), m')

end

/-! ### The actions -/

def dbPath : Text := efivarPath "db" efiNsSecurity

def kekPath : Text := efivarPath "KEK" efiNsGlobal

/-- The content of a variable behind its attributes. -/
def withAttributes (payload : Bytes) : Bytes := leU32 attributes ++ payload

/-- The actions of `_write_efi_bytes` before the write. -/
def clearing (pathExists : Text → Bool) (path : Text) : List Action :=
  (if pathExists path then [.chattr "-i" path] else []) ++ [.umask 0o022]

/-- All of `_write_efi_bytes`, for the content of the file. -/
def writing (pathExists : Text → Bool) (path : Text) (data : Bytes) : List Action :=
  clearing pathExists path ++ [.writeBytes path data, .chattr "+i" path]

/-- All of `_write_efi_bytes` for a key. -/
def block (pathExists : Text → Bool) (path : Text) (payload : Bytes) : List Action :=
  writing pathExists path (withAttributes payload)

/-- What comes before the write of `PK`. -/
def beforePk (pathExists : Text → Bool) (auth : AuthFiles) : List Action :=
  block pathExists dbPath auth.dbAuth ++ block pathExists kekPath auth.kekAuth ++ clearing pathExists pkPath

/-- From the write of `PK` on. -/
def fromPk (auth : AuthFiles) : List Action :=
  [.writeBytes pkPath (withAttributes auth.pkAuth), .chattr "+i" pkPath]

theorem attributes_lt : attributes < 2 ^ 32 := by decide

theorem writeEfiBytes_eq (pathExists : Text → Bool) (name nsGuid : Text) {attributes : ℕ} (h : attributes < 2 ^ 32)
    (payload : Bytes) : writeEfiBytes pathExists name nsGuid attributes payload =
      .ok (writing pathExists (efivarPath name nsGuid) (leU32 attributes ++ payload)) := by
  rw [writeEfiBytes, packU32, if_pos h]
  simp only [Bind.bind, Except.bind, Pure.pure, Except.pure, writing, clearing, List.append_assoc, List.cons_append,
    List.nil_append]

theorem enrollEfiKeys_eq (pathExists : Text → Bool) (auth : AuthFiles) :
    enrollEfiKeys pathExists auth = .ok (beforePk pathExists auth ++ fromPk auth) := by
  simp only [enrollEfiKeys, writeEfiBytes_eq pathExists _ _ attributes_lt, Bind.bind, Except.bind, Pure.pure,
    Except.pure, beforePk, fromPk, block, writing, withAttributes, List.append_assoc, dbPath, kekPath, pkPath]

section
variable {set : Text → Bytes → Vars → Option Vars}

theorem performAll_append (as bs : List Action) (m : Machine) : performAll set (as ++ bs) m =
    match performAll set as m with
    | (some e, m') => (some e, m')
    | (none, m') => performAll set bs m' := by
  induction as generalizing m with
  | nil => rfl
  | cons a as ih =>
    rw [List.cons_append, performAll, performAll]
    cases perform set a m with
    | error e => rfl
    | ok m' => exact ih m'

/-- A write with its preparation: the variable is set, and cannot be changed by accident. -/
theorem performAll_writing {m : Machine} {vars : Vars} {path : Text} {data : Bytes}
    (hset : set path data m.vars = some vars) (pathExists : Text → Bool)
    (hexists : pathExists path = (m.vars path).isSome) :
    performAll set (writing pathExists path data) m =
      (none, { m with vars := vars, immutable := Function.update m.immutable path true }) := by
  unfold writing clearing
  cases hpath : (m.vars path).isSome with
  | true =>
    rw [if_pos (hexists.trans hpath)]
    simp [performAll, perform, hset]
  | false =>
    rw [if_neg (by rw [hexists, hpath]; decide)]
    simp [performAll, perform, hset, hpath]

/-! ### Up to the write of `PK` -/

theorem dbPath_ne_kekPath : dbPath ≠ kekPath := by decide

theorem dbPath_ne_pkPath : dbPath ≠ pkPath := by decide

theorem kekPath_ne_pkPath : kekPath ≠ pkPath := by decide

theorem setupModePath_ne : setupModePath ≠ dbPath ∧ setupModePath ≠ kekPath ∧ setupModePath ≠ pkPath := by decide

/-- What the firmware does with the three variables in Setup Mode: it keeps `content data` of what is
    written, and the write of `PK` leaves Setup Mode. -/
structure Firmware (set : Text → Bytes → Vars → Option Vars) (content : Bytes → Bytes) : Prop where
  enroll : ∀ vars path data, path = dbPath ∨ path = kekPath → isSetupModeEnabled vars →
    set path data vars = some (Function.update vars path (some (content data)))
  leave : ∀ vars data, isSetupModeEnabled vars → ∃ vars', set pkPath data vars = some vars' ∧
    vars' pkPath = some (content data) ∧ isSetupModeEnabled vars' = false ∧
    ∀ path, path ≠ pkPath → path ≠ setupModePath → vars' path = vars path

/-- A machine that an enrolment has not yet taken out of Setup Mode: nothing but `db`, `KEK` and the
    protection of the three variables can differ. -/
structure Pending (m m' : Machine) : Prop where
  vars : ∀ path, path ≠ dbPath → path ≠ kekPath → m'.vars path = m.vars path
  immutable : ∀ path, path ≠ dbPath → path ≠ kekPath → path ≠ pkPath → m'.immutable path = m.immutable path
  esp : m'.esp = m.esp

theorem Pending.refl (m : Machine) : Pending m m := ⟨fun _ _ _ => rfl, fun _ _ _ _ => rfl, rfl⟩

section
variable {content : Bytes → Bytes} {auth : AuthFiles} {pkDer : Bytes} {m m' : Machine}

theorem Pending.isSetupModeEnabled (h : Pending m m') : isSetupModeEnabled m'.vars = isSetupModeEnabled m.vars := by
  unfold Keys.isSetupModeEnabled isOne
  rw [h.vars setupModePath setupModePath_ne.1 setupModePath_ne.2.1]

theorem Pending.isPkInstalled (h : Pending m m') : isPkInstalled pkDer m' = isPkInstalled pkDer m := by
  unfold Keys.isPkInstalled
  rw [h.vars pkPath dbPath_ne_pkPath.symm kekPath_ne_pkPath.symm]

/-- The actions before the write of `PK`. -/
inductive Early : Action → Prop
  | chattr (flag : Text) {path : Text} (h : path = dbPath ∨ path = kekPath ∨ path = pkPath) :
    Early (.chattr flag path)
  | umask (mask : ℕ) : Early (.umask mask)
  | write {path : Text} (data : Bytes) (h : path = dbPath ∨ path = kekPath) : Early (.writeBytes path data)

theorem early_beforePk (pathExists : Text → Bool) (auth : AuthFiles) : ∀ a ∈ beforePk pathExists auth, Early a := by
  have hclearing : ∀ path, path = dbPath ∨ path = kekPath ∨ path = pkPath →
      ∀ a ∈ clearing pathExists path, Early a := by
    intro path hpath a ha
    rcases List.mem_append.mp ha with ha | ha
    · split_ifs at ha
      · exact List.mem_singleton.mp ha ▸ .chattr _ hpath
      · exact absurd ha List.not_mem_nil
    · exact List.mem_singleton.mp ha ▸ .umask _
  have hblock : ∀ path payload, path = dbPath ∨ path = kekPath → ∀ a ∈ block pathExists path payload, Early a := by
    intro path payload hpath a ha
    rcases List.mem_append.mp ha with ha | ha
    · exact hclearing path (hpath.imp_right .inl) a ha
    · rcases List.mem_cons.mp ha with rfl | ha
      · exact .write _ hpath
      · exact List.mem_singleton.mp ha ▸ .chattr _ (hpath.imp_right .inl)
  intro a ha
  rcases List.mem_append.mp ha with ha | ha
  · rcases List.mem_append.mp ha with ha | ha
    · exact hblock dbPath _ (.inl rfl) a ha
    · exact hblock kekPath _ (.inr rfl) a ha
  · exact hclearing pkPath (.inr (.inr rfl)) a ha

/-- One action before the write of `PK`. -/
theorem Pending.perform (hfirmware : Firmware set content) (hsetup : Keys.isSetupModeEnabled m.vars)
    (h : Pending m m') {a : Action} (ha : Early a) {m'' : Machine} (hperform : Keys.perform set a m' = .ok m'') :
    Pending m m'' := by
  cases ha with
  | chattr flag hpath =>
    obtain rfl := Except.ok.inj hperform
    refine ⟨h.vars, fun path hdb hkek hpk => ?_, h.esp⟩
    have hne : path ≠ _ := fun heq => hpath.elim (fun e => hdb (heq.trans e)) fun e =>
      e.elim (fun e => hkek (heq.trans e)) fun e => hpk (heq.trans e)
    exact (Function.update_of_ne hne _ _).trans (h.immutable path hdb hkek hpk)
  | umask mask =>
    obtain rfl := Except.ok.inj hperform
    exact h
  | write data hpath =>
    rw [Keys.perform, hfirmware.enroll m'.vars _ data hpath (h.isSetupModeEnabled.trans hsetup)] at hperform
    split_ifs at hperform
    obtain rfl := Except.ok.inj hperform
    refine ⟨fun path hdb hkek => ?_, h.immutable, h.esp⟩
    have hne : path ≠ _ := fun heq => hpath.elim (fun e => hdb (heq.trans e)) fun e => hkek (heq.trans e)
    exact (Function.update_of_ne hne _ _).trans (h.vars path hdb hkek)

/-- However far the actions before the write of `PK` come. -/
theorem Pending.performAll (hfirmware : Firmware set content) (hsetup : Keys.isSetupModeEnabled m.vars)
    {as : List Action} (has : ∀ a ∈ as, Early a) (h : Pending m m') : Pending m (Keys.performAll set as m').2 := by
  induction as generalizing m' with
  | nil => exact h
  | cons a as ih =>
    rw [Keys.performAll]
    cases hperform : Keys.perform set a m' with
    | error e => exact h
    | ok m'' =>
      exact ih (fun b hb => has b (List.mem_cons_of_mem a hb))
        (h.perform hfirmware hsetup (has a List.mem_cons_self) hperform)

/-! ### The whole run -/

/-- The variables before the write of `PK`. -/
def withKeys (content : Bytes → Bytes) (auth : AuthFiles) (vars : Vars) : Vars :=
  Function.update (Function.update vars dbPath (some (content (withAttributes auth.dbAuth)))) kekPath
    (some (content (withAttributes auth.kekAuth)))

/-- The three variables are protected. -/
def protect (immutable : Text → Bool) : Text → Bool :=
  Function.update (Function.update (Function.update immutable dbPath true) kekPath true) pkPath true

theorem Pending.withKeys (h : Pending m m') : withKeys content auth m'.vars = withKeys content auth m.vars := by
  funext path
  unfold Keys.withKeys
  by_cases hkek : path = kekPath
  · simp [hkek]
  by_cases hdb : path = dbPath
  · simp [hdb, dbPath_ne_kekPath]
  · rw [Function.update_of_ne hkek, Function.update_of_ne hdb, Function.update_of_ne hkek, Function.update_of_ne hdb,
      h.vars path hdb hkek]

theorem Pending.protect (h : Pending m m') : protect m'.immutable = protect m.immutable := by
  funext path
  unfold Keys.protect
  by_cases hpk : path = pkPath
  · simp [hpk]
  by_cases hkek : path = kekPath
  · simp [hkek, kekPath_ne_pkPath]
  by_cases hdb : path = dbPath
  · simp [hdb, dbPath_ne_pkPath, dbPath_ne_kekPath]
  · rw [Function.update_of_ne hpk, Function.update_of_ne hkek, Function.update_of_ne hdb, Function.update_of_ne hpk,
      Function.update_of_ne hkek, Function.update_of_ne hdb, h.immutable path hdb hkek hpk]

theorem isSetupModeEnabled_update {vars : Vars} {path : Text} (hpath : setupModePath ≠ path) (value : Option Bytes) :
    Keys.isSetupModeEnabled (Function.update vars path value) = Keys.isSetupModeEnabled vars := by
  unfold Keys.isSetupModeEnabled isOne
  rw [Function.update_of_ne hpath]

theorem isSetupModeEnabled_withKeys (content : Bytes → Bytes) (auth : AuthFiles) (vars : Vars) :
    Keys.isSetupModeEnabled (withKeys content auth vars) = Keys.isSetupModeEnabled vars := by
  rw [Keys.withKeys, isSetupModeEnabled_update setupModePath_ne.2.1, isSetupModeEnabled_update setupModePath_ne.1]

/-- `db` and `KEK` are written, and `PK` can be. -/
theorem performAll_beforePk (hfirmware : Firmware set content) (hsetup : Keys.isSetupModeEnabled m.vars)
    (auth : AuthFiles) :
    ∃ immutable, Keys.performAll set (beforePk (fun path => (m.vars path).isSome) auth) m =
        (none, ⟨withKeys content auth m.vars, immutable, m.esp⟩) ∧
      ((m.vars pkPath).isSome → immutable pkPath = false) ∧
      Function.update immutable pkPath true = protect m.immutable := by
  have hdb := performAll_writing (m := m)
    (hfirmware.enroll m.vars dbPath (withAttributes auth.dbAuth) (.inl rfl) hsetup)
    (fun path => (m.vars path).isSome) rfl
  have hkek := performAll_writing
    (m := ⟨Function.update m.vars dbPath (some (content (withAttributes auth.dbAuth))),
      Function.update m.immutable dbPath true, m.esp⟩)
    (hfirmware.enroll _ kekPath (withAttributes auth.kekAuth) (.inr rfl)
      ((isSetupModeEnabled_update setupModePath_ne.1 _).trans hsetup))
    (fun path => (m.vars path).isSome)
    (by dsimp only; rw [Function.update_of_ne dbPath_ne_kekPath.symm])
  have hminus : decide ((("-i" : Text)) = "+i") = false := by decide
  rw [beforePk, block, block, performAll_append, performAll_append, hdb]
  dsimp only
  rw [hkek]
  dsimp only
  unfold clearing
  cases hpk : (m.vars pkPath).isSome with
  | true =>
    refine ⟨_, by rw [if_pos hpk]; rfl, fun _ => ?_, ?_⟩
    · rw [hminus, Function.update_self]
    · rw [Function.update_idem]
      rfl
  | false => exact ⟨_, by rw [if_neg fun h => absurd (hpk.symm.trans h) (by decide)]; rfl, nofun, rfl⟩

/-- The machine that a whole enrolment leaves, whatever a cut one has left before. -/
theorem performAll_enrolled (hfirmware : Firmware set content) (hsetup : Keys.isSetupModeEnabled m.vars)
    (auth : AuthFiles) : ∃ vars : Vars,
    (vars dbPath = some (content (withAttributes auth.dbAuth)) ∧
      vars kekPath = some (content (withAttributes auth.kekAuth)) ∧
      vars pkPath = some (content (withAttributes auth.pkAuth)) ∧ Keys.isSetupModeEnabled vars = false ∧
      ∀ path, path ≠ dbPath → path ≠ kekPath → path ≠ pkPath → path ≠ setupModePath →
        vars path = m.vars path) ∧
    ∀ m', Pending m m' →
      Keys.performAll set (beforePk (fun path => (m'.vars path).isSome) auth ++ fromPk auth) m' =
        (none, ⟨vars, protect m.immutable, m.esp⟩) ∧
      ∃ immutable, Keys.performAll set (beforePk (fun path => (m'.vars path).isSome) auth ++
        [.writeBytes pkPath (withAttributes auth.pkAuth)]) m' = (none, ⟨vars, immutable, m.esp⟩) := by
  obtain ⟨vars, hset, hpk, hoff, hother⟩ := hfirmware.leave (withKeys content auth m.vars)
    (withAttributes auth.pkAuth)
    ((isSetupModeEnabled_withKeys content auth m.vars).trans hsetup)
  refine ⟨vars, ⟨?_, ?_, hpk, hoff, fun path hdb hkek hpk' hmode => ?_⟩, fun m' hm' => ?_⟩
  · rw [hother dbPath dbPath_ne_pkPath setupModePath_ne.1.symm, withKeys, Function.update_of_ne dbPath_ne_kekPath,
      Function.update_self]
  · rw [hother kekPath kekPath_ne_pkPath setupModePath_ne.2.1.symm, withKeys, Function.update_self]
  · rw [hother path hpk' hmode, withKeys, Function.update_of_ne hkek, Function.update_of_ne hdb]
  · obtain ⟨immutable, hbefore, hclear, hprotect⟩ := performAll_beforePk hfirmware
      (hm'.isSetupModeEnabled.trans hsetup) auth
    have hplus : decide ((("+i" : Text)) = "+i") = true := by decide
    have hpkvar : (withKeys content auth m'.vars) pkPath = m'.vars pkPath := by
      rw [withKeys, Function.update_of_ne kekPath_ne_pkPath.symm, Function.update_of_ne dbPath_ne_pkPath.symm]
    have hwrite : Keys.perform set (.writeBytes pkPath (withAttributes auth.pkAuth))
        ⟨withKeys content auth m'.vars, immutable, m'.esp⟩ = .ok ⟨vars, immutable, m'.esp⟩ := by
      have hfree : ¬((withKeys content auth m'.vars pkPath).isSome ∧ immutable pkPath) := by
        rw [hpkvar]
        exact fun h => absurd ((hclear h.1).symm.trans h.2) (by decide)
      rw [Keys.perform]
      dsimp only
      rw [if_neg hfree, hm'.withKeys, hset]
    rw [performAll_append, performAll_append, hbefore]
    dsimp only
    refine ⟨?_, immutable, ?_⟩
    · rw [fromPk, Keys.performAll, hwrite]
      dsimp only
      rw [Keys.performAll, Keys.perform, hplus]
      dsimp only
      rw [Keys.performAll, hprotect, hm'.protect, hm'.esp]
    · rw [Keys.performAll, hwrite]
      dsimp only
      rw [Keys.performAll, hm'.esp]

end

end

/-! ### Interruptions -/

/-- Where a call is cut short: after some of the actions on variables, or while the boot loader is
    updated. -/
inductive Cut where
  | keys (n : ℕ)
  | boot (stop : Stop Bytes)

/-- The machine that a call leaves which is cut short, if it has such a place. -/
def cutAt (set : Text → Bytes → Vars → Option Vars) (sha256 : Bytes → Bytes) (new : Bytes) (auth : AuthFiles)
    (m : Machine) (cut : Cut) : Option Machine :=
  match enrollEfiKeys (fun path => (m.vars path).isSome) auth with
  | .error _ => none
  | .ok actions =>
    match cut with
    | .keys n => if n ≤ actions.length then some (performAll set (actions.take n) m).2 else none
    | .boot stop =>
      let (e, m') := performAll set actions m
      match e, updateSystemdBoot sha256 new m'.esp with
      | none, .ok ws => (stopped ws m'.esp stop).map fun esp => { m' with esp := esp }
      | _, _ => none

/-- The call is cut short before it writes `PK`. -/
def Cut.BeforePk (m : Machine) (auth : AuthFiles) : Cut → Prop
  | .keys n => n ≤ (beforePk (fun path => (m.vars path).isSome) auth).length
  | .boot _ => False

section
variable {set : Text → Bytes → Vars → Option Vars} {content sha256 : Bytes → Bytes} {new pkDer : Bytes}
  {auth : AuthFiles} {m m' : Machine}

theorem cutAt_keys {n : ℕ} (h : (Cut.keys n).BeforePk m auth) :
    ∃ m', cutAt set sha256 new auth m (.keys n) = some m' := by
  unfold cutAt
  rw [enrollEfiKeys_eq]
  exact ⟨_, if_pos (by rw [List.length_append]; exact Nat.le_add_right_of_le h)⟩

/-- The machine after a call that is cut short. -/
theorem cutAt_cases (hfirmware : Firmware set content) (hsetup : isSetupModeEnabled m.vars) {vars : Vars}
    (hvars : performAll set (beforePk (fun path => (m.vars path).isSome) auth ++ fromPk auth) m =
        (none, ⟨vars, protect m.immutable, m.esp⟩) ∧
      ∃ immutable, performAll set (beforePk (fun path => (m.vars path).isSome) auth ++
        [.writeBytes pkPath (withAttributes auth.pkAuth)]) m = (none, ⟨vars, immutable, m.esp⟩))
    {cut : Cut} (hcut : cutAt set sha256 new auth m cut = some m') :
    (cut.BeforePk m auth ∧ Pending m m') ∨ (¬cut.BeforePk m auth ∧ m'.vars = vars) := by
  unfold cutAt at hcut
  rw [enrollEfiKeys_eq] at hcut
  generalize hbefore : beforePk (fun path => (m.vars path).isSome) auth = before at hcut hvars
  cases cut with
  | keys n =>
    dsimp only at hcut
    split_ifs at hcut with hn
    obtain rfl := Option.some.inj hcut
    by_cases hle : n ≤ before.length
    · refine .inl ⟨by simpa only [Cut.BeforePk, hbefore] using hle, ?_⟩
      rw [List.take_append_of_le_length hle]
      refine (Pending.refl m).performAll hfirmware hsetup fun a ha => ?_
      exact early_beforePk _ auth a (hbefore ▸ List.mem_of_mem_take ha)
    · refine .inr ⟨by simpa only [Cut.BeforePk, hbefore] using hle, ?_⟩
      obtain ⟨hall, immutable, hwrite⟩ := hvars
      have hlength : n = before.length + 1 ∨ n = before.length + 2 := by
        rw [List.length_append, show (fromPk auth).length = 2 from rfl] at hn
        omega
      rcases hlength with rfl | rfl
      · rw [List.take_length_add_append, show (fromPk auth).take 1 =
          [.writeBytes pkPath (withAttributes auth.pkAuth)] from rfl, hwrite]
      · rw [List.take_length_add_append, show (fromPk auth).take 2 = fromPk auth from rfl, hall]
  | boot stop =>
    refine .inr ⟨id, ?_⟩
    dsimp only at hcut
    rw [hvars.1] at hcut
    dsimp only at hcut
    cases hupdate : updateSystemdBoot sha256 new m.esp with
    | error e => rw [hupdate] at hcut; exact nomatch hcut
    | ok ws =>
      rw [hupdate] at hcut
      obtain ⟨esp, -, rfl⟩ := Option.map_eq_some_iff.mp hcut
      rfl

/-- The machine that an enrolment is for: the three variables hold the keys, cannot be changed by accident,
    and are out of Setup Mode; the boot loader is renewed, and nothing else differs. -/
structure Enrolled (content : Bytes → Bytes) (auth : AuthFiles) (new : Bytes) (m done : Machine) : Prop where
  db : done.vars dbPath = some (content (withAttributes auth.dbAuth))
  kek : done.vars kekPath = some (content (withAttributes auth.kekAuth))
  pk : done.vars pkPath = some (content (withAttributes auth.pkAuth))
  setupMode : isSetupModeEnabled done.vars = false
  others : ∀ path, path ≠ dbPath → path ≠ kekPath → path ≠ pkPath → path ≠ setupModePath →
    done.vars path = m.vars path
  immutable : done.immutable = protect m.immutable
  esp : done.esp = m.esp.renewed new

/-- The exit code and the text of a finished call. -/
def outcome (esp : Esp) : List Text × ℕ :=
  if esp.Complete then ([successfullyEnrolled], 0) else ([workerFailed 1], 1)

/-- CORRECT: an enrolment in Setup Mode writes the three keys, leaves Setup Mode, renews the boot loader and
    changes nothing else; it succeeds unless `BOOTX64.EFI` is missing beside `systemd-bootx64.efi`. If it is
    cut short at any place, then Setup Mode is left only with all three keys there; and the next call makes
    up for it if, and only if, it was cut before `PK` was written or had nothing left to do, because behind
    that write the next call leaves everything as it is. -/
theorem enroll_recovers_iff (hfirmware : Firmware set content)
    (hpk : isCertInSignatureList pkDer (content (withAttributes auth.pkAuth)) = .ok true)
    (hsha : Distinguishes sha256 new m.esp) (hsetup : isSetupModeEnabled m.vars)
    (hnot : isPkInstalled pkDer m = false) :
    let done := installPk set sha256 new auth pkDer none m
    (done.1 = outcome m.esp ∧ Enrolled content auth new m done.2) ∧
    ∀ cut m', cutAt set sha256 new auth m cut = some m' →
      (isSetupModeEnabled m'.vars = false → m'.vars dbPath = some (content (withAttributes auth.dbAuth)) ∧
        m'.vars kekPath = some (content (withAttributes auth.kekAuth)) ∧
        m'.vars pkPath = some (content (withAttributes auth.pkAuth))) ∧
      (¬cut.BeforePk m auth → (installPk set sha256 new auth pkDer none m').2 = m') ∧
      ((installPk set sha256 new auth pkDer none m').2 = done.2 ↔ cut.BeforePk m auth ∨ m' = done.2) := by
  intro done
  obtain ⟨vars, ⟨hdb, hkek, hpkvar, hoff, hother⟩, hall⟩ := performAll_enrolled hfirmware hsetup auth
  have hinstalled : ∀ m' : Machine, m'.vars = vars → isPkInstalled pkDer m' := by
    intro m' hm'
    unfold isPkInstalled
    rw [hm', hpkvar]
    exact decide_eq_true hpk
  have hworker : ∀ m', Pending m m' → worker set sha256 new auth m' =
      ((outcome m.esp).2, ⟨vars, protect m.immutable, m.esp.renewed new⟩) := by
    intro m' hm'
    unfold worker outcome
    rw [enrollEfiKeys_eq]
    dsimp only
    rw [(hall m' hm').1]
    dsimp only
    by_cases hcomplete : m.esp.Complete
    · rw [run_renewed hsha hcomplete, if_pos hcomplete]
    · rw [run_incomplete hcomplete, renewed_incomplete hcomplete,
        if_neg hcomplete]
  -- a call from a machine that is not yet out of Setup Mode
  have hcall : ∀ m', Pending m m' → installPk set sha256 new auth pkDer none m' =
      (outcome m.esp, ⟨vars, protect m.immutable, m.esp.renewed new⟩) := by
    intro m' hm'
    unfold installPk
    rw [hm'.isPkInstalled, hnot, hm'.isSetupModeEnabled, hsetup]
    dsimp only
    rw [hworker m' hm', hinstalled _ rfl]
    unfold outcome
    by_cases hcomplete : m.esp.Complete
    · rw [if_pos hcomplete]
      rfl
    · rw [if_neg hcomplete]
      rfl
  have hdone : done = _ := hcall m (Pending.refl m)
  refine ⟨⟨by rw [hdone], by rw [hdone]; exact ⟨hdb, hkek, hpkvar, hoff, hother, rfl, rfl⟩⟩, fun cut m' hcut => ?_⟩
  rcases cutAt_cases hfirmware hsetup (hall m (Pending.refl m)) hcut with ⟨hbefore, hpending⟩ | ⟨hbefore, hvars⟩
  · refine ⟨fun h => ?_, fun h => absurd hbefore h, ?_⟩
    · exact absurd (h.symm.trans (hpending.isSetupModeEnabled.trans hsetup)) (by decide)
    · exact iff_of_true (by rw [hcall m' hpending, hdone]) (.inl hbefore)
  · have hagain : (installPk set sha256 new auth pkDer none m').2 = m' := by
      unfold installPk
      rw [if_pos (hinstalled m' hvars)]
    refine ⟨fun _ => ⟨hvars ▸ hdb, hvars ▸ hkek, hvars ▸ hpkvar⟩, fun _ => hagain, ?_⟩
    rw [hagain]
    exact (or_iff_right hbefore).symm

end

/-- What the firmware keeps of an authenticated write: the attributes, and what stands behind the time stamp
    and the certificate, which says how long it is. -/
def payload (data : Bytes) : Bytes := data.take 4 ++ data.drop (20 + fromLE (slice data 20 24))

/-- A firmware that checks no signature, in Setup Mode only. -/
def plainFirmware (path : Text) (data : Bytes) (vars : Vars) : Option Vars :=
  if isSetupModeEnabled vars then
    let vars := if path = pkPath then Function.update vars setupModePath (some [6, 0, 0, 0, 0]) else vars
    some (Function.update vars path (some (payload data)))
  else none

theorem firmware_plain : Firmware plainFirmware payload where
  enroll vars path data hpath hsetup := by
    have hne : path ≠ pkPath := fun h => hpath.elim (fun e => dbPath_ne_pkPath (e.symm.trans h))
      fun e => kekPath_ne_pkPath (e.symm.trans h)
    rw [plainFirmware, if_pos hsetup, if_neg hne]
  leave vars data hsetup := by
    have hset : plainFirmware pkPath data vars = some (Function.update
        (Function.update vars setupModePath (some [6, 0, 0, 0, 0])) pkPath (some (payload data))) := by
      rw [plainFirmware, if_pos hsetup]
      rfl
    refine ⟨_, hset, Function.update_self .., ?_, fun path hpk hmode => ?_⟩
    · rw [isSetupModeEnabled_update setupModePath_ne.2.2, isSetupModeEnabled, isOne, Function.update_self]
      rfl
    · rw [Function.update_of_ne hpk, Function.update_of_ne hmode]

/-- The time stamp and the certificate without signature that stand before the content. -/
def unsigned (content : Bytes) : Bytes := List.replicate 16 0 ++ leU32 24 ++ List.replicate 20 0 ++ content

/-- The files of a request with one certificate each. -/
def oneByteAuth : AuthFiles :=
  ⟨unsigned oneByteList.serialize, unsigned oneByteList.serialize, unsigned oneByteList.serialize⟩

/-- A machine in Setup Mode with an outdated systemd-boot, and the copy of it. -/
def setupMachine : Machine where
  vars := Function.update (fun _ => none) setupModePath (some [6, 0, 0, 0, 1])
  immutable _ := false
  esp := ⟨some [1], some [1]⟩

/-- Cut short between the two copies of the boot loader, a call leaves `BOOTX64.EFI` outdated for good; cut
    short between `db` and `KEK`, it is made up for. -/
theorem enroll_recovers_setupMachine :
    let done := installPk plainFirmware id [2] oneByteAuth [0x30] none setupMachine
    done.1 = ([successfullyEnrolled], 0) ∧ done.2.esp = ⟨some [2], some [2]⟩ ∧
    (∃ m', cutAt plainFirmware id [2] oneByteAuth setupMachine (.keys 3) = some m' ∧
      (installPk plainFirmware id [2] oneByteAuth [0x30] none m').2 = done.2) ∧
    ∃ m', cutAt plainFirmware id [2] oneByteAuth setupMachine (.boot (.after 1)) = some m' ∧
      (installPk plainFirmware id [2] oneByteAuth [0x30] none m').2.esp = ⟨some [1], some [2]⟩ := by
  intro done
  have hcert : isCertInSignatureList [0x30] (payload (withAttributes oneByteAuth.pkAuth)) = .ok true := by
    have hstored := isCert_serialize (show [(0x30 : UInt8)] ≠ [] by decide)
      (show (leU32 attributes).length = efiUint32Size by decide) [oneByteList]
    rw [decide_eq_true ⟨oneByteList, List.mem_singleton_self _, stores_oneByteList⟩] at hstored
    have hpayload : payload (withAttributes oneByteAuth.pkAuth) = leU32 attributes ++ oneByteList.serialize := by
      decide +kernel
    rw [hpayload]
    simpa using hstored
  have hmode : isSetupModeEnabled setupMachine.vars := by
    have hvar : setupMachine.vars setupModePath = some [6, 0, 0, 0, 1] := by
      simp only [setupMachine, Function.update_self]
    rw [isSetupModeEnabled, isOne, hvar]
    rfl
  have hnone : isPkInstalled [0x30] setupMachine = false := by
    have hvar : setupMachine.vars pkPath = none := by
      simp only [setupMachine, Function.update_of_ne setupModePath_ne.2.2.symm]
    rw [isPkInstalled, hvar]
  obtain ⟨⟨hout, hdone⟩, hcuts⟩ := @enroll_recovers_iff plainFirmware payload id [2] [0x30] oneByteAuth setupMachine
    firmware_plain hcert ⟨fun _ _ heq => heq, fun _ _ _ _ heq => heq⟩ hmode hnone
  obtain ⟨vars, -, hall⟩ := performAll_enrolled firmware_plain hmode oneByteAuth
  have hearly : (Cut.keys 3).BeforePk setupMachine oneByteAuth := by
    simp only [Cut.BeforePk, beforePk, block, writing, clearing, List.length_append, List.length_cons]
    omega
  obtain ⟨m', hkeys⟩ : ∃ m', cutAt plainFirmware id [2] oneByteAuth setupMachine (.keys 3) = some m' :=
    cutAt_keys hearly
  have hboot : cutAt plainFirmware id [2] oneByteAuth setupMachine (.boot (.after 1)) =
      some ⟨vars, protect setupMachine.immutable, ⟨some [1], some [2]⟩⟩ := by
    unfold cutAt
    rw [enrollEfiKeys_eq]
    dsimp only
    rw [(hall setupMachine (Pending.refl setupMachine)).1]
    rfl
  refine ⟨hout, hdone.esp, ⟨m', hkeys, (hcuts _ _ hkeys).2.2.mpr (.inl hearly)⟩, ⟨_, hboot, ?_⟩⟩
  rw [(hcuts _ _ hboot).2.1 id]

end Efi.Keys
