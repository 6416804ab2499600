import Secureblue.Efi.EnrollKeys

/-! Enrolment by shim (`enroll_secure_boot_keys.py`, `shared/secure_boot.py` and the worker
    `inner/secure_boot.py`) over calls, interruptions and reboots.

    The worker stages a request in `MokNew` and `MokAuth`; at the next boot shim takes it over into its
    list if the user enters the password, and then deletes it. The tool stages nothing that is already in
    the list, so whatever is cut short, and however often it is called, each certificate comes into the
    list once at most (`mok_runs`). -/

namespace Efi.Mok
open Py Interrupt Efi.Keys

/-! ### The code -/

def efiNsSystemd : Text := "4a67b082-0a4c-41cf-b6c7-440b29bb8c4f"

def mokListRtPath : Text := efivarPath "MokListRT" efiNsShim

def mokNewPath : Text := efivarPath "MokNew" efiNsShim

def mokAuthPath : Text := efivarPath "MokAuth" efiNsShim

def loaderInfoPath : Text := efivarPath "LoaderInfo" efiNsSystemd

/-- `data.decode("utf-16-le")`, or `none` for a `UnicodeDecodeError`. -/
def decodeUtf16Le : Bytes → Option Text
  | [] => some []
  | [_] => none
  | lo :: hi :: data =>
    let unit := lo.toNat + 0x100 * hi.toNat
    if 0xdc00 ≤ unit ∧ unit < 0xe000 then none
    else if 0xd800 ≤ unit ∧ unit < 0xdc00 then
      match data with
      | lo' :: hi' :: data =>
        let unit' := lo'.toNat + 0x100 * hi'.toNat
        if 0xdc00 ≤ unit' ∧ unit' < 0xe000 then
          (decodeUtf16Le data).map (Char.ofNat (0x10000 + (unit - 0xd800) * 0x400 + (unit' - 0xdc00)) :: ·)
        else none
      | _ => none
    else (decodeUtf16Le data).map (Char.ofNat unit :: ·)

/-- `read_efivar_str`, on the content of the variable. -/
def readEfivarStr (data : Bytes) : Option Text :=
  (decodeUtf16Le (data.drop efiUint32Size)).map fun text => text.rdropWhile (· == '\x00')

inductive Bootloader where | systemdBoot | grub2
  deriving DecidableEq

inductive Failure where
  | unicodeDecodeError
  | runtimeError (msg : Text)
  | other (e : Exn)

/-- `Bootloader.from_running`; a BIOS system has no variable, and only GRUB supports that. -/
def Bootloader.fromRunning (vars : Vars) : Except Failure Bootloader :=
  match vars loaderInfoPath with
  | none => .ok grub2
  | some data =>
    match readEfivarStr data with
    | none => .error .unicodeDecodeError
    | some raw =>
      if ("GRUB 2" : Text) <:+: raw then .ok grub2
      else if ("systemd-boot" : Text) <:+: raw then .ok systemdBoot
      else .error (.runtimeError ("Unknown bootloader: " ++ raw))

/-- The content of a certificate file that fits a request. -/
abbrev Cert := {der : Bytes // der ≠ [] ∧ 44 + der.length < 2 ^ 32}

/-- The files `AKMODS_DER_PATH` and `DB_DER_PATH`. -/
structure Certs where
  akmods : Cert
  db : Cert

/-- Returns the MOK certificate that should be installed on the running system. -/
def requiredMokCert (certs : Certs) (vars : Vars) : Except Failure Cert :=
  (Bootloader.fromRunning vars).map fun bootloader => if bootloader = .grub2 then certs.akmods else certs.db

/-- Returns whether the secureblue MOK is installed. -/
def isMokInstalled (certs : Certs) (vars : Vars) : Except Failure Bool := do
  let der ← requiredMokCert certs vars
  match vars mokListRtPath with
  | none => .error (.other .fileNotFoundError)
  | some data => (isCertInSignatureList der.1 data).mapError .other

/-- Returns whether the system booted with shim. -/
def isShimSystem (vars : Vars) : Bool := (vars mokListRtPath).isSome

def password : Text := "secureblue"

def statusArg : Text := "status"

section
variable (set : Text → Bytes → Vars → Option Vars) (sha256 : Bytes → Bytes) (new : Bytes)

/-- The actions of the worker on variables, for `EnrollMokKey`. -/
def staging (der : Cert) (vars : Vars) : Except Exn (List Action) :=
  enrollMokKey sha256 (fun path => (vars path).isSome) der.1 password

/-- `main` of the worker for `EnrollMokKey`, with its exit code. -/
def worker (der : Cert) (m : Machine) : ℕ × Machine :=
  match staging sha256 der m.vars with
  | .error _ => (1, m)
  | .ok actions =>
    match performAll set actions m with
    | (some _, m') => (1, m')
    | (none, m') =>
      match Interrupt.run (updateSystemdBoot sha256 new) m'.esp with
      | .ok esp => (0, { m' with esp := esp })
      | .error _ => (1, m')

variable (certs : Certs)

/-- `install_mok`, with what it prints and its exit code; with `some n`, `run0` fails with code `n + 1` and
    the worker is not started. -/
def installMok (run0 : Option ℕ) (m : Machine) : Except Failure ((List Text × ℕ) × Machine) := do
  if ← isMokInstalled certs m.vars then
    return ((["The secureblue MOK is already enrolled."], 0), m)
  let disabled : List Text := if isSecureBootEnabled m then []
    else ["Secure Boot is not enabled. Please do this in `ujust bios`."]
  let der ← requiredMokCert certs m.vars
  let (exitCode, m') := match run0 with
    | some n => (n + 1, m)
    | none => worker set sha256 new der m
  if exitCode ≠ 0 then
    return ((disabled ++ [workerFailed exitCode], exitCode), m')
  else return ((disabled ++ [("The secureblue MOK has been queued for enrollment.\n" : Text) ++
    "Please reboot and enter the password 'secureblue' when prompted."], 0), m')

variable (auth : AuthFiles) (pkDer : Bytes)

/-- `print_status`; `efi` says whether the system has a UEFI firmware. -/
def printStatus (efi : Bool) (m : Machine) : Except Failure Text := do
  if !efi then return "Status: unavailable"
  let keyInstalled ← if isShimSystem m.vars then isMokInstalled certs m.vars else .ok (isPkInstalled pkDer m)
  return if keyInstalled then "Status: enrolled" else "Status: not enrolled"

/-- `main` of `enroll_secure_boot_keys.py` -/
def main (efi : Bool) (args : List Text) (run0 : Option ℕ) (m : Machine) :
    Except Failure ((List Text × ℕ) × Machine) :=
  if args.head? = some statusArg then
    (printStatus certs pkDer efi m).map fun status => (([status], 0), m)
  else if !efi then
    .ok ((["Secure Boot is not available on your system.\nIf you have a dual-mode system, " ++
      "switch it from BIOS to UEFI mode and try again."], 1), m)
  else if isShimSystem m.vars then installMok set sha256 new certs run0 m
  else .ok (installPk set sha256 new auth pkDer run0 m)

/-- The machine that a call to enrol leaves which is cut short within its worker, if it comes so far. -/
def cutAt (cut : Cut) (m : Machine) : Option Machine :=
  match isMokInstalled certs m.vars, requiredMokCert certs m.vars with
  | .ok false, .ok der =>
    match staging sha256 der m.vars with
    | .error _ => none
    | .ok actions =>
      match cut with
      | .keys n => if n ≤ actions.length then some (performAll set (actions.take n) m).2 else none
      | .boot stop =>
        let (e, m') := performAll set actions m
        match e, updateSystemdBoot sha256 new m'.esp with
        | none, .ok ws => (stopped ws m'.esp stop).map fun esp => { m' with esp := esp }
        | _, _ => none
  | _, _ => none

/-- What happens to a machine. -/
inductive Event where
  | call (args : List Text) (run0 : Option ℕ)
  | cut (place : Cut)
  /-- with the password that the user enters to enrol the request, if they do -/
  | boot (answer : Option Text)

variable (boot : Option Text → Machine → Machine)

def step (m : Machine) : Event → Machine
  | .call args run0 =>
    match main set sha256 new certs auth pkDer true args run0 m with
    | .ok r => r.2
    | .error _ => m
  | .cut place => (cutAt set sha256 new certs place m).getD m
  | .boot answer => boot answer m

end

/-! ### What is staged -/

/-- The request for a certificate. -/
def request (der : Cert) : SignatureList := mokRequest der.1 der.2.2

def stagedNew (der : Cert) : Bytes := leU32 mokAttrs ++ (request der).serialize

def stagedAuth (sha256 : Bytes → Bytes) (der : Cert) : Bytes :=
  leU32 mokAttrs ++ mokAuthHash sha256 (request der).serialize password

/-- What the firmware does with the two variables: it stores what is written, or refuses. -/
def Stores (set : Text → Bytes → Vars → Option Vars) : Prop :=
  ∀ path data vars vars', path = mokNewPath ∨ path = mokAuthPath → set path data vars = some vars' →
    vars' = Function.update vars path (some data)

/-- What shim does at a boot: it leaves its list and deletes the request or leaves it, or adds the request
    to the list and deletes it; the latter at least where the right password is entered. -/
structure Shim (sha256 : Bytes → Bytes) (boot : Option Text → Machine → Machine) : Prop where
  outcome : ∀ answer m list, m.vars mokListRtPath = some list →
    ((boot answer m).vars mokListRtPath = some list ∧
      ((boot answer m).vars mokNewPath = none ∨ (boot answer m).vars mokNewPath = m.vars mokNewPath)) ∨
    ∃ word payload, word.length = efiUint32Size ∧ m.vars mokNewPath = some (word ++ payload) ∧
      (boot answer m).vars mokListRtPath = some (list ++ payload) ∧ (boot answer m).vars mokNewPath = none
  enrols : ∀ m list word payload word' entered, m.vars mokListRtPath = some list →
    word.length = efiUint32Size → m.vars mokNewPath = some (word ++ payload) →
    word'.length = efiUint32Size → m.vars mokAuthPath = some (word' ++ mokAuthHash sha256 payload entered) →
    (boot (some entered) m).vars mokListRtPath = some (list ++ payload)

theorem mokNewPath_ne_mokAuthPath : mokNewPath ≠ mokAuthPath := by decide

theorem mokListRtPath_ne : mokListRtPath ≠ mokNewPath ∧ mokListRtPath ≠ mokAuthPath := by decide

theorem mokAttrs_lt : mokAttrs < 2 ^ 32 := by decide

section
variable {set : Text → Bytes → Vars → Option Vars} {sha256 : Bytes → Bytes} {new : Bytes} {certs : Certs}
  {auth : AuthFiles} {pkDer : Bytes} {boot : Option Text → Machine → Machine} {m m' : Machine} {der : Cert}

theorem staging_eq (sha256 : Bytes → Bytes) (der : Cert) (vars : Vars) : staging sha256 der vars =
    .ok (writing (fun path => (vars path).isSome) mokNewPath (stagedNew der) ++
      writing (fun path => (vars path).isSome) mokAuthPath (stagedAuth sha256 der)) := by
  unfold staging enrollMokKey
  simp only [mokNewPayload_eq der.1 der.2.2, writeEfiBytes_eq _ _ _ mokAttrs_lt, Bind.bind, Except.bind, Pure.pure,
    Except.pure]
  rfl

/-- An action of the worker for a certificate. -/
inductive Stages (der : Cert) : Action → Prop
  | chattr (flag path : Text) : Stages der (.chattr flag path)
  | umask (mask : ℕ) : Stages der (.umask mask)
  | new : Stages der (.writeBytes mokNewPath (stagedNew der))
  | auth (data : Bytes) : Stages der (.writeBytes mokAuthPath data)

theorem stages_staging {actions : List Action} {vars : Vars} (h : staging sha256 der vars = .ok actions) :
    ∀ a ∈ actions, Stages der a := by
  have hwriting : ∀ pathExists path data, Stages der (.writeBytes path data) →
      ∀ a ∈ writing pathExists path data, Stages der a := by
    intro pathExists path data hdata a ha
    simp only [writing, clearing, List.mem_append, List.mem_cons, List.not_mem_nil, or_false] at ha
    rcases ha with (ha | rfl) | rfl | rfl
    · split_ifs at ha
      · exact List.mem_singleton.mp ha ▸ .chattr _ _
      · exact absurd ha List.not_mem_nil
    · exact .umask _
    · exact hdata
    · exact .chattr _ _
  rw [staging_eq] at h
  obtain rfl := Except.ok.inj h
  intro a ha
  rcases List.mem_append.mp ha with ha | ha
  · exact hwriting _ _ _ .new a ha
  · exact hwriting _ _ _ (.auth _) a ha

/-- What a worker can have done to the variables, however far it came. -/
structure Staged (der : Cert) (vars vars' : Vars) : Prop where
  other : ∀ path, path ≠ mokNewPath → path ≠ mokAuthPath → vars' path = vars path
  new : vars' mokNewPath = vars mokNewPath ∨ vars' mokNewPath = some (stagedNew der)

theorem Staged.refl (der : Cert) (vars : Vars) : Staged der vars vars := ⟨fun _ _ _ => rfl, .inl rfl⟩

theorem Staged.perform (hset : Stores set) {vars : Vars} (h : Staged der vars m.vars) {a : Action} (ha : Stages der a)
    (hperform : Keys.perform set a m = .ok m') : Staged der vars m'.vars := by
  have hwrite : ∀ path data, path = mokNewPath ∨ path = mokAuthPath →
      Keys.perform set (.writeBytes path data) m = .ok m' → m'.vars = Function.update m.vars path (some data) := by
    intro path data hpath hperform
    rw [Keys.perform] at hperform
    split_ifs at hperform
    cases hvars : set path data m.vars with
    | none => rw [hvars] at hperform; cases hperform
    | some vars' =>
      rw [hvars] at hperform
      obtain rfl := Except.ok.inj hperform
      exact hset path data m.vars vars' hpath hvars
  cases ha with
  | chattr flag path =>
    obtain rfl := Except.ok.inj hperform
    exact h
  | umask mask =>
    obtain rfl := Except.ok.inj hperform
    exact h
  | new =>
    rw [hwrite _ _ (.inl rfl) hperform]
    exact ⟨fun path hnew hauth => by rw [Function.update_of_ne hnew, h.other path hnew hauth],
      .inr (Function.update_self ..)⟩
  | auth data =>
    rw [hwrite _ _ (.inr rfl) hperform]
    refine ⟨fun path hnew hauth => by rw [Function.update_of_ne hauth, h.other path hnew hauth], ?_⟩
    rw [Function.update_of_ne mokNewPath_ne_mokAuthPath]
    exact h.new

theorem Staged.performAll (hset : Stores set) {vars : Vars} {actions : List Action}
    (hactions : ∀ a ∈ actions, Stages der a) (h : Staged der vars m.vars) :
    Staged der vars (Keys.performAll set actions m).2.vars := by
  induction actions generalizing m with
  | nil => exact h
  | cons a actions ih =>
    rw [Keys.performAll]
    cases hperform : Keys.perform set a m with
    | error e => exact h
    | ok m' =>
      exact ih (fun b hb => hactions b (List.mem_cons_of_mem a hb))
        (h.perform hset (hactions a List.mem_cons_self) hperform)

theorem worker_staged (hset : Stores set) (der : Cert) (m : Machine) :
    Staged der m.vars (worker set sha256 new der m).2.vars := by
  unfold worker
  cases hstaging : staging sha256 der m.vars with
  | error e => exact Staged.refl der m.vars
  | ok actions =>
    have hstaged := (Staged.refl der m.vars).performAll hset (stages_staging hstaging)
    dsimp only
    generalize performAll set actions m = performed at hstaged ⊢
    obtain ⟨_ | e, m'⟩ := performed
    · dsimp only
      split <;> exact hstaged
    · exact hstaged

theorem cutAt_staged (hset : Stores set) {cut : Cut} (h : cutAt set sha256 new certs cut m = some m') :
    ∃ der, requiredMokCert certs m.vars = .ok der ∧ isMokInstalled certs m.vars = .ok false ∧
      Staged der m.vars m'.vars := by
  unfold cutAt at h
  split at h
  · next der hnot hder =>
    refine ⟨der, hder, hnot, ?_⟩
    cases hstaging : staging sha256 der m.vars with
    | error e => rw [hstaging] at h; cases h
    | ok actions =>
      rw [hstaging] at h
      have hstages := stages_staging hstaging
      cases cut with
      | keys n =>
        dsimp only at h
        split_ifs at h
        obtain rfl := Option.some.inj h
        exact (Staged.refl der m.vars).performAll hset fun a ha => hstages a (List.mem_of_mem_take ha)
      | boot stop =>
        have hstaged := (Staged.refl der m.vars).performAll hset hstages
        dsimp only at h
        generalize performAll set actions m = performed at hstaged h
        obtain ⟨_ | e, m₁⟩ := performed
        · cases hupdate : updateSystemdBoot sha256 new m₁.esp with
          | error e => rw [hupdate] at h; cases h
          | ok ws =>
            rw [hupdate] at h
            obtain ⟨esp, -, rfl⟩ := Option.map_eq_some_iff.mp h
            exact hstaged
        · cases h
  · cases h

/-- A call with shim leaves the variables, or stages the required certificate, which is not installed. -/
theorem main_staged (hset : Stores set) (hshim : isShimSystem m.vars) {args : List Text} {run0 : Option ℕ}
    {printed : List Text × ℕ} (h : main set sha256 new certs auth pkDer true args run0 m = .ok (printed, m')) :
    m' = m ∨ ∃ der, requiredMokCert certs m.vars = .ok der ∧ isMokInstalled certs m.vars = .ok false ∧
      Staged der m.vars m'.vars := by
  simp only [main, hshim, Bool.not_true, Bool.false_eq_true, if_false, if_true] at h
  split_ifs at h with hstatus
  · cases hprint : printStatus certs pkDer true m with
    | error e => rw [hprint] at h; cases h
    | ok status =>
      rw [hprint] at h
      exact .inl (congrArg Prod.snd (Except.ok.inj h)).symm
  · unfold installMok at h
    cases hnot : isMokInstalled certs m.vars with
    | error e => rw [hnot] at h; cases h
    | ok installed =>
      rw [hnot] at h
      cases installed with
      | true => exact .inl (congrArg Prod.snd (Except.ok.inj h)).symm
      | false =>
        cases hder : requiredMokCert certs m.vars with
        | error e => rw [hder] at h; cases h
        | ok der =>
          rw [hder] at h
          refine .inr ⟨der, rfl, rfl, ?_⟩
          have hstaged := @worker_staged set sha256 new hset der m
          simp only [Bind.bind, Except.bind, Bool.false_eq_true, if_false] at h
          have hm' : m' = (match run0 with
              | some n => (n + 1, m)
              | none => worker set sha256 new der m).2 := by
            split_ifs at h <;> exact (congrArg Prod.snd (Except.ok.inj h)).symm
          rw [hm']
          cases run0 with
          | some n => exact Staged.refl der m.vars
          | none => exact hstaged

/-! ### The list of shim -/

/-- A certificate of the tool that was not in the list at first. -/
def New (certs : Certs) (initial : List SignatureList) (der : Cert) : Prop :=
  (der = certs.akmods ∨ der = certs.db) ∧ ¬ ∃ l ∈ initial, l.Stores der.1

/-- The list of shim is what it was at first, with the certificates enrolled since; a request is for one
    that is not in the list. -/
structure Sound (certs : Certs) (word : Bytes) (initial : List SignatureList) (enrolled : List Cert) (vars : Vars) :
    Prop where
  list : vars mokListRtPath = some (word ++ (initial ++ enrolled.map request).flatMap SignatureList.serialize)
  nodup : enrolled.Nodup
  new : ∀ der ∈ enrolled, New certs initial der
  pending : vars mokNewPath = none ∨ ∃ der, New certs initial der ∧ der ∉ enrolled ∧
    vars mokNewPath = some (stagedNew der)

variable {word : Bytes} {initial : List SignatureList} {enrolled : List Cert}

theorem sound_first {vars : Vars}
    (hlist : vars mokListRtPath = some (word ++ initial.flatMap SignatureList.serialize))
    (hnone : vars mokNewPath = none) : Sound certs word initial [] vars :=
  ⟨by simpa using hlist, List.nodup_nil, fun der hder => absurd hder List.not_mem_nil, .inl hnone⟩

theorem Sound.isShimSystem {vars : Vars} (h : Sound certs word initial enrolled vars) : isShimSystem vars :=
  Option.isSome_of_eq_some h.list

theorem requiredMokCert_cases {vars : Vars} (h : requiredMokCert certs vars = .ok der) :
    der = certs.akmods ∨ der = certs.db := by
  unfold requiredMokCert at h
  cases hloader : Bootloader.fromRunning vars with
  | error e => rw [hloader] at h; cases h
  | ok bootloader =>
    rw [hloader] at h
    obtain rfl := Except.ok.inj h
    by_cases hgrub : bootloader = .grub2
    · exact .inl (if_pos hgrub)
    · exact .inr (if_neg hgrub)

/-- The tool reads off the list what is in it. -/
theorem isMokInstalled_eq (hword : word.length = efiUint32Size) {vars : Vars} {ls : List SignatureList}
    (hlist : vars mokListRtPath = some (word ++ ls.flatMap SignatureList.serialize))
    (hder : requiredMokCert certs vars = .ok der) :
    isMokInstalled certs vars = .ok (decide (∃ l ∈ ls, l.Stores der.1)) := by
  unfold isMokInstalled
  rw [hder]
  simp only [Bind.bind, Except.bind, hlist, isCert_serialize der.2.1 hword, Except.mapError]

theorem stores_enrolled : (∃ l ∈ initial ++ enrolled.map request, l.Stores der.1) ↔
    der ∈ enrolled ∨ ∃ l ∈ initial, l.Stores der.1 := by
  constructor
  · rintro ⟨l, hl, hstores⟩
    rcases List.mem_append.mp hl with hl | hl
    · exact .inr ⟨l, hl, hstores⟩
    · obtain ⟨der', hder', rfl⟩ := List.mem_map.mp hl
      exact .inl (Subtype.ext (stores_mokRequest.mp hstores) ▸ hder')
  · rintro (hmem | ⟨l, hl, hstores⟩)
    · exact ⟨request der, List.mem_append_right _ (List.mem_map_of_mem hmem), stores_mokRequest.mpr rfl⟩
    · exact ⟨l, List.mem_append_left _ hl, hstores⟩

theorem Sound.isMokInstalled (hword : word.length = efiUint32Size) {vars : Vars}
    (h : Sound certs word initial enrolled vars) (hder : requiredMokCert certs vars = .ok der) :
    isMokInstalled certs vars = .ok (decide (der ∈ enrolled ∨ ∃ l ∈ initial, l.Stores der.1)) := by
  rw [isMokInstalled_eq hword h.list hder]
  simp only [stores_enrolled]

/-- A worker stages a request for what is not in the list. -/
theorem Sound.staged (hword : word.length = efiUint32Size) {vars vars' : Vars}
    (h : Sound certs word initial enrolled vars) (hder : requiredMokCert certs vars = .ok der)
    (hnot : Mok.isMokInstalled certs vars = .ok false) (hstaged : Staged der vars vars') :
    Sound certs word initial enrolled vars' where
  list := (hstaged.other _ mokListRtPath_ne.1 mokListRtPath_ne.2).trans h.list
  nodup := h.nodup
  new := h.new
  pending := by
    rcases hstaged.new with hsame | hnew
    · rw [hsame]
      exact h.pending
    · rw [h.isMokInstalled hword hder, Except.ok.injEq, decide_eq_false_iff_not, not_or] at hnot
      exact .inr ⟨der, ⟨requiredMokCert_cases hder, hnot.2⟩, hnot.1, hnew⟩

/-- A boot adds the request to the list, or nothing. -/
theorem Sound.booted (hshim : Shim sha256 boot) (h : Sound certs word initial enrolled m.vars)
    (answer : Option Text) :
    ∃ enrolled', enrolled <+: enrolled' ∧ Sound certs word initial enrolled' (boot answer m).vars := by
  rcases hshim.outcome answer m _ h.list with ⟨hlist, hnew⟩ | ⟨word', payload, hword', hnew, hlist, hgone⟩
  · refine ⟨enrolled, List.prefix_refl _, hlist, h.nodup, h.new, ?_⟩
    rcases hnew with hgone | hsame
    · exact .inl hgone
    · rw [hsame]
      exact h.pending
  · rcases h.pending with hnone | ⟨der, hder, hmem, hpending⟩
    · rw [hnone] at hnew
      cases hnew
    · rw [hpending] at hnew
      obtain ⟨-, rfl⟩ := List.append_inj (Option.some.inj hnew) hword'.symm
      refine ⟨enrolled ++ [der], List.prefix_append _ _, ?_, ?_, ?_, .inl hgone⟩
      · rw [hlist]
        simp
      · exact List.nodup_append.mpr ⟨h.nodup, List.nodup_singleton _, fun a ha b hb hab =>
          hmem (List.mem_singleton.mp hb ▸ hab ▸ ha)⟩
      · intro der' hder'
        rcases List.mem_append.mp hder' with hder' | hder'
        · exact h.new der' hder'
        · exact List.mem_singleton.mp hder' ▸ hder

theorem Sound.step (hset : Stores set) (hshim : Shim sha256 boot) (hword : word.length = efiUint32Size)
    (h : Sound certs word initial enrolled m.vars) (e : Event) :
    ∃ enrolled', enrolled <+: enrolled' ∧
      Sound certs word initial enrolled' (step set sha256 new certs auth pkDer boot m e).vars := by
  cases e with
  | call args run0 =>
    rw [Mok.step]
    cases hmain : main set sha256 new certs auth pkDer true args run0 m with
    | error e => exact ⟨enrolled, List.prefix_refl _, h⟩
    | ok r =>
      rcases main_staged hset h.isShimSystem hmain with hsame | ⟨der, hder, hnot, hstaged⟩
      · exact ⟨enrolled, List.prefix_refl _, hsame ▸ h⟩
      · exact ⟨enrolled, List.prefix_refl _, h.staged hword hder hnot hstaged⟩
  | cut place =>
    rw [Mok.step]
    cases hcut : cutAt set sha256 new certs place m with
    | none => exact ⟨enrolled, List.prefix_refl _, h⟩
    | some m' =>
      obtain ⟨der, hder, hnot, hstaged⟩ := cutAt_staged hset hcut
      exact ⟨enrolled, List.prefix_refl _, h.staged hword hder hnot hstaged⟩
  | boot answer => exact h.booted hshim answer

theorem Sound.run (hset : Stores set) (hshim : Shim sha256 boot) (hword : word.length = efiUint32Size)
    (h : Sound certs word initial enrolled m.vars) (events : List Event) :
    ∃ enrolled', Sound certs word initial enrolled'
      (events.foldl (Mok.step set sha256 new certs auth pkDer boot) m).vars := by
  induction events generalizing m enrolled with
  | nil => exact ⟨enrolled, h⟩
  | cons e events ih =>
    obtain ⟨enrolled', -, h'⟩ := h.step hset hshim hword e
    exact ih h'

theorem loaderInfoPath_ne : loaderInfoPath ≠ mokNewPath ∧ loaderInfoPath ≠ mokAuthPath := by decide

/-- Nothing but a boot changes the boot loader. -/
theorem loaderInfo_step (hset : Stores set)
    (hboot : ∀ answer m, (boot answer m).vars loaderInfoPath = m.vars loaderInfoPath) (hshim : isShimSystem m.vars)
    (e : Event) :
    (Mok.step set sha256 new certs auth pkDer boot m e).vars loaderInfoPath = m.vars loaderInfoPath := by
  have hstaged : ∀ {der vars'}, Staged der m.vars vars' → vars' loaderInfoPath = m.vars loaderInfoPath :=
    fun h => h.other _ loaderInfoPath_ne.1 loaderInfoPath_ne.2
  cases e with
  | call args run0 =>
    rw [Mok.step]
    cases hmain : main set sha256 new certs auth pkDer true args run0 m with
    | error e => rfl
    | ok r =>
      rcases main_staged hset hshim hmain with hsame | ⟨der, -, -, h⟩
      · exact congrArg (fun m : Machine => m.vars loaderInfoPath) hsame
      · exact hstaged h
  | cut place =>
    rw [Mok.step]
    cases hcut : cutAt set sha256 new certs place m with
    | none => rfl
    | some m' =>
      obtain ⟨der, -, -, h⟩ := cutAt_staged hset hcut
      exact hstaged h
  | boot answer => exact hboot answer m

/-- What no event of a run changes is the same in the end. -/
theorem Sound.keeps_run {τ : Type} (view : Machine → τ) (hset : Stores set) (hshim : Shim sha256 boot)
    (hword : word.length = efiUint32Size) (h : Sound certs word initial enrolled m.vars) (events : List Event)
    (hview : ∀ e ∈ events, ∀ m : Machine, Mok.isShimSystem m.vars →
      view (Mok.step set sha256 new certs auth pkDer boot m e) = view m) :
    view (events.foldl (Mok.step set sha256 new certs auth pkDer boot) m) = view m := by
  induction events generalizing m enrolled with
  | nil => rfl
  | cons e events ih =>
    obtain ⟨enrolled', -, h'⟩ := h.step hset hshim hword e
    refine (ih h' fun e' he' => hview e' (List.mem_cons_of_mem e he')).trans ?_
    exact hview e List.mem_cons_self m h.isShimSystem

/-! ### A call that is carried out -/

/-- The firmware takes what is written into the two variables. -/
def Takes (set : Text → Bytes → Vars → Option Vars) : Prop :=
  ∀ path data vars, path = mokNewPath ∨ path = mokAuthPath →
    set path data vars = some (Function.update vars path (some data))

theorem worker_takes (htakes : Takes set) (der : Cert) {esp : Esp}
    (hesp : Interrupt.run (updateSystemdBoot sha256 new) m.esp = .ok esp) :
    ∃ m', worker set sha256 new der m = (0, m') ∧ m'.vars mokListRtPath = m.vars mokListRtPath ∧
      m'.vars mokNewPath = some (stagedNew der) ∧ m'.vars mokAuthPath = some (stagedAuth sha256 der) := by
  have hnew := performAll_writing (htakes mokNewPath (stagedNew der) m.vars (.inl rfl))
    (fun path => (m.vars path).isSome) rfl
  have hauth := performAll_writing
    (m := ⟨Function.update m.vars mokNewPath (some (stagedNew der)),
      Function.update m.immutable mokNewPath true, m.esp⟩)
    (htakes mokAuthPath (stagedAuth sha256 der) _ (.inr rfl)) (fun path => (m.vars path).isSome)
    (by dsimp only; rw [Function.update_of_ne mokNewPath_ne_mokAuthPath.symm])
  refine ⟨⟨Function.update (Function.update m.vars mokNewPath (some (stagedNew der))) mokAuthPath
      (some (stagedAuth sha256 der)),
    Function.update (Function.update m.immutable mokNewPath true) mokAuthPath true, esp⟩, ?_, ?_, ?_, ?_⟩
  · unfold worker
    rw [staging_eq]
    dsimp only
    rw [performAll_append, hnew]
    dsimp only
    rw [hauth]
    dsimp only
    rw [hesp]
  · dsimp only
    rw [Function.update_of_ne mokListRtPath_ne.2, Function.update_of_ne mokListRtPath_ne.1]
  · dsimp only
    rw [Function.update_of_ne mokNewPath_ne_mokAuthPath, Function.update_self]
  · dsimp only
    rw [Function.update_self]

theorem printStatus_eq (hword : word.length = efiUint32Size) {ls : List SignatureList}
    (hlist : m.vars mokListRtPath = some (word ++ ls.flatMap SignatureList.serialize))
    (hder : requiredMokCert certs m.vars = .ok der) : printStatus certs pkDer true m =
      .ok (if ∃ l ∈ ls, l.Stores der.1 then "Status: enrolled" else "Status: not enrolled") := by
  have hshim : isShimSystem m.vars := Option.isSome_of_eq_some hlist
  unfold printStatus
  rw [hshim, isMokInstalled_eq hword hlist hder]
  by_cases hstored : ∃ l ∈ ls, l.Stores der.1
  · simp only [hstored, Bind.bind, Except.bind, Pure.pure, Except.pure]
    rfl
  · simp only [hstored, Bind.bind, Except.bind, Pure.pure, Except.pure]
    rfl

/-- A call that is carried out, and a boot at which the password is entered. -/
theorem enrolled_of_call (hshim : Shim sha256 boot) (hword : word.length = efiUint32Size)
    (h : Sound certs word initial enrolled m.vars) (hder : requiredMokCert certs m.vars = .ok der) {esp : Esp}
    (htakes : Takes set) (hesp : Interrupt.run (updateSystemdBoot sha256 new) m.esp = .ok esp) :
    ∃ printed queued, main set sha256 new certs auth pkDer true [] none m = .ok ((printed, 0), queued) ∧
      (requiredMokCert certs (boot (some password) queued).vars = .ok der →
        printStatus certs pkDer true (boot (some password) queued) = .ok "Status: enrolled") := by
  have hmain : main set sha256 new certs auth pkDer true [] none m = installMok set sha256 new certs none m := by
    simp [main, statusArg, h.isShimSystem]
  rw [hmain]
  unfold installMok
  rw [h.isMokInstalled hword hder, hder]
  by_cases hstored : der ∈ enrolled ∨ ∃ l ∈ initial, l.Stores der.1
  · refine ⟨_, m, by rw [decide_eq_true hstored]; rfl, fun hder' => ?_⟩
    obtain ⟨enrolled', hprefix, h'⟩ := h.booted hshim (some password)
    rw [printStatus_eq hword h'.list hder', if_pos]
    exact stores_enrolled.mpr (hstored.imp_left fun hmem => hprefix.subset hmem)
  · obtain ⟨queued, hworker, hlist, hnew, hauth⟩ := worker_takes htakes der hesp
    refine ⟨_, queued, by
      simp only [decide_eq_false hstored, Bind.bind, Except.bind, Bool.false_eq_true, if_false, hworker]
      rfl, fun hder' => ?_⟩
    have hlist' := hshim.enrols queued _ (leU32 mokAttrs) (request der).serialize (leU32 mokAttrs) password
      (hlist.trans h.list) (by decide) hnew (by decide) hauth
    have happend : (initial ++ enrolled.map request).flatMap SignatureList.serialize ++ (request der).serialize =
        (initial ++ (enrolled ++ [der]).map request).flatMap SignatureList.serialize := by
      simp
    rw [List.append_assoc, happend] at hlist'
    rw [printStatus_eq hword hlist' hder', if_pos]
    exact stores_enrolled.mpr (.inl (List.mem_append_right _ List.mem_cons_self))

/-- CORRECT: over all calls, interruptions of the worker and reboots, in any order, whatever the user enters
    and the firmware refuses, the list of shim is what it was at first and, behind that, some certificates of
    the tool that were not in it, each of them once; and the status is what the list says. A call that is
    carried out from there, and a boot at which the password is entered, bring the certificate into the
    list. Nothing but a boot changes which boot loader is running. -/
theorem mok_runs (hset : Stores set) (hshim : Shim sha256 boot) (hword : word.length = efiUint32Size)
    (hlist : m.vars mokListRtPath = some (word ++ initial.flatMap SignatureList.serialize))
    (hnone : m.vars mokNewPath = none) (events : List Event) :
    let after := events.foldl (step set sha256 new certs auth pkDer boot) m
    ∃ enrolled : List Cert, enrolled.Nodup ∧ (∀ der ∈ enrolled, New certs initial der) ∧
      after.vars mokListRtPath = some (word ++ (initial ++ enrolled.map request).flatMap SignatureList.serialize) ∧
      ((∀ answer m, (boot answer m).vars loaderInfoPath = m.vars loaderInfoPath) →
        after.vars loaderInfoPath = m.vars loaderInfoPath) ∧
      ∀ der, requiredMokCert certs after.vars = .ok der →
        printStatus certs pkDer true after = .ok (if der ∈ enrolled ∨ ∃ l ∈ initial, l.Stores der.1
          then "Status: enrolled" else "Status: not enrolled") ∧
        ∀ esp, Takes set → Interrupt.run (updateSystemdBoot sha256 new) after.esp = .ok esp →
          ∃ printed queued, main set sha256 new certs auth pkDer true [] none after = .ok ((printed, 0), queued) ∧
            (requiredMokCert certs (boot (some password) queued).vars = .ok der →
              printStatus certs pkDer true (boot (some password) queued) = .ok "Status: enrolled") := by
  intro after
  have hfirst : Sound certs word initial [] m.vars := sound_first hlist hnone
  obtain ⟨enrolled, h⟩ := hfirst.run hset hshim hword events
  refine ⟨enrolled, h.nodup, h.new, h.list, fun hboot => hfirst.keeps_run (·.vars loaderInfoPath) hset
      hshim hword events fun e _ m hm => loaderInfo_step hset hboot hm e,
    fun der hder => ⟨?_, fun esp htakes hesp => ?_⟩⟩
  · rw [printStatus_eq hword h.list hder]
    simp only [stores_enrolled]
  · exact enrolled_of_call hshim hword h hder htakes hesp

end

/-! ### A machine with GRUB -/

/-- A firmware that takes everything. -/
def plainSet (path : Text) (data : Bytes) (vars : Vars) : Option Vars := some (Function.update vars path (some data))

/-- A boot with shim, which deletes a request in any case. -/
def plainBoot (answer : Option Text) (m : Machine) : Machine :=
  match m.vars mokListRtPath, m.vars mokNewPath, m.vars mokAuthPath with
  | some list, some request, some auth =>
    let payload := request.drop efiUint32Size
    let enrols := decide (efiUint32Size ≤ request.length) &&
      answer.any fun entered => auth.drop efiUint32Size == mokAuthHash id payload entered
    { m with vars := Function.update (if enrols then Function.update m.vars mokListRtPath (some (list ++ payload))
      else m.vars) mokNewPath none }
  | _, _, _ => m

theorem shim_plainBoot : Shim id plainBoot where
  outcome answer m list hlist := by
    unfold plainBoot
    rw [hlist]
    cases hnew : m.vars mokNewPath with
    | none => exact .inl ⟨hlist, .inl hnew⟩
    | some request =>
      cases hauth : m.vars mokAuthPath with
      | none => exact .inl ⟨hlist, .inr hnew⟩
      | some auth =>
        dsimp only
        split_ifs with henrols
        · refine .inr ⟨request.take efiUint32Size, request.drop efiUint32Size, ?_, ?_, ?_, Function.update_self ..⟩
          · have hlength := of_decide_eq_true (Bool.and_eq_true_iff.mp henrols).1
            rw [List.length_take]
            omega
          · rw [List.take_append_drop]
          · rw [Function.update_of_ne mokListRtPath_ne.1, Function.update_self]
        · refine .inl ⟨?_, .inl (Function.update_self ..)⟩
          rw [Function.update_of_ne mokListRtPath_ne.1, hlist]
  enrols m list word payload word' entered hlist hword hnew hword' hauth := by
    unfold plainBoot
    rw [hlist, hnew, hauth]
    have hpayload : (word ++ payload).drop efiUint32Size = payload := List.drop_left' hword
    have hhash : (word' ++ mokAuthHash id payload entered).drop efiUint32Size = mokAuthHash id payload entered :=
      List.drop_left' hword'
    have hlength : efiUint32Size ≤ (word ++ payload).length := by
      rw [List.length_append]
      omega
    dsimp only
    rw [hpayload, hhash, decide_eq_true hlength, Function.update_of_ne mokListRtPath_ne.1]
    simp

/-- Shim has one list, of another type, and GRUB no variable. -/
def grubMachine : Machine where
  vars := Function.update (fun _ => none) mokListRtPath (some ([6, 0, 0, 0] ++ digestList.serialize))
  immutable _ := true
  esp := ⟨none, none⟩

def oneByteCerts : Certs := ⟨⟨[0x30], by decide⟩, ⟨[0x31], by decide⟩⟩

/-- The status, a call that `run0` refuses, one that is cut short between the two variables, and a boot at
    which nothing is entered. -/
def unfinished : List Event := [.call [statusArg] none, .call [] (some 4), .cut (.keys 3), .boot none]

theorem loaderInfo_plainBoot (answer : Option Text) (m : Machine) :
    (plainBoot answer m).vars loaderInfoPath = m.vars loaderInfoPath := by
  have hne : loaderInfoPath ≠ mokListRtPath := by decide
  unfold plainBoot
  split
  · dsimp only
    rw [Function.update_of_ne loaderInfoPath_ne.1]
    split_ifs
    · rw [Function.update_of_ne hne]
    · rfl
  · rfl

theorem performAll_esp (actions : List Action) (m : Machine) : (performAll plainSet actions m).2.esp = m.esp := by
  induction actions generalizing m with
  | nil => rfl
  | cons a actions ih =>
    rw [performAll]
    cases a with
    | writeBytes path data =>
      rw [perform]
      split_ifs
      · rfl
      · exact ih _
    | chattr flag path => exact ih _
    | umask mask => exact ih _

theorem esp_unfinished {auth : AuthFiles} {pkDer : Bytes} : ∀ e ∈ unfinished, ∀ m : Machine, isShimSystem m.vars →
    (step plainSet id [] oneByteCerts auth pkDer plainBoot m e).esp = m.esp := by
  intro e he m hshim
  simp only [unfinished, List.mem_cons, List.not_mem_nil, or_false] at he
  rcases he with rfl | rfl | rfl | rfl
  · simp only [step, main, List.head?_cons, if_true]
    cases printStatus oneByteCerts pkDer true m <;> rfl
  · simp only [step, main, hshim, installMok]
    cases isMokInstalled oneByteCerts m.vars with
    | error e => rfl
    | ok installed =>
      cases installed with
      | true => rfl
      | false => cases requiredMokCert oneByteCerts m.vars <;> rfl
  · rw [step, cutAt]
    split
    · rw [staging_eq]
      dsimp only
      split_ifs
      · exact performAll_esp _ m
      · rfl
    · rfl
  · rw [step, plainBoot]
    split <;> rfl

/-- What was left unfinished is made up for by the next call and the boot behind it. -/
theorem mok_runs_grubMachine : let auth : AuthFiles := ⟨[], [], []⟩
    let after := unfinished.foldl (step plainSet id [] oneByteCerts auth [0x30] plainBoot) grubMachine
    ∃ printed queued, main plainSet id [] oneByteCerts auth [0x30] true [] none after = .ok ((printed, 0), queued) ∧
      printStatus oneByteCerts [0x30] true (plainBoot (some password) queued) = .ok "Status: enrolled" := by
  intro auth after
  have hset : Stores plainSet := fun path data vars vars' _ h => (Option.some.inj h).symm
  have hlist : grubMachine.vars mokListRtPath =
      some ([6, 0, 0, 0] ++ [digestList].flatMap SignatureList.serialize) := by
    simp [grubMachine]
  have hvars : ∀ path, path ≠ mokListRtPath → grubMachine.vars path = none := fun path hpath => by
    simp [grubMachine, hpath]
  have hruns := @mok_runs plainSet id [] oneByteCerts auth [0x30] plainBoot grubMachine
    [6, 0, 0, 0] [digestList] hset shim_plainBoot rfl hlist (hvars mokNewPath mokListRtPath_ne.1.symm)
  have hder : ∀ m : Machine, m.vars loaderInfoPath = grubMachine.vars loaderInfoPath →
      requiredMokCert oneByteCerts m.vars = .ok oneByteCerts.akmods := by
    intro m hm
    rw [requiredMokCert, Bootloader.fromRunning, hm, hvars loaderInfoPath (by decide)]
    rfl
  obtain ⟨_, _, _, _, hloader, hcall⟩ := hruns unfinished
  have hesp : after.esp = ⟨none, none⟩ := (sound_first hlist (hvars _ mokListRtPath_ne.1.symm)).keeps_run
    Machine.esp hset shim_plainBoot rfl unfinished esp_unfinished
  have hupdate : Interrupt.run (updateSystemdBoot id []) after.esp = .ok ⟨none, none⟩ := by
    rw [hesp]
    rfl
  obtain ⟨printed, queued, hmain, hstatus⟩ := (hcall _ (hder _ (hloader loaderInfo_plainBoot))).2 ⟨none, none⟩
    (fun _ _ _ _ => rfl) hupdate
  refine ⟨printed, queued, hmain, hstatus (hder _ ((loaderInfo_plainBoot _ _).trans ?_))⟩
  obtain ⟨_, _, _, _, hloader', _⟩ := hruns (unfinished ++ [.call [] none])
  have hqueued := hloader' loaderInfo_plainBoot
  rw [List.foldl_append] at hqueued
  refine Eq.trans ?_ hqueued
  have hstep : step plainSet id [] oneByteCerts auth [0x30] plainBoot after (.call [] none) = queued := by
    rw [step, hmain]
  exact congrArg (fun m : Machine => m.vars loaderInfoPath) hstep.symm

end Efi.Mok
