import Secureblue.Dns.GlobalDns
import Secureblue.Kargs.Hardening
import Secureblue.Kargs.UkiAddons
import Secureblue.Register

/-! Runs of the tools that set and remove kernel arguments (`set_kargs_hardening.py`,
    `remove_kargs_hardening.py`, `set_kargs_nvidia.py`, `remove_kargs_nvidia.py`), on the two kinds of
    systems that `apply_kargs` supports.

    On either system every argument is a register: a call that succeeds writes the arguments that it adds or
    removes, and no other call writes (`isRegister_ostree`, `isRegister_uki`). What the tools do not manage
    stays as it is, in its order. -/

namespace Kargs
open Py Dns.Selector Kargs.Uki

/-! ### The code -/

/-- The `kargs` of `/usr/lib/bootc/kargs.d/20-nvidia.toml`, which is in the Nvidia images only. -/
def nvidiaKargs : List Text :=
  ["rd.driver.blacklist=nouveau", "modprobe.blacklist=nouveau", "nvidia-drm.modeset=1", "nvidia-drm.fbdev=1"]

/-- `IMAGE_NVIDIA_KARGS` -/
def imageNvidiaKargs (nvidia : Bool) : Option (List Text) := if nvidia then some nvidiaKargs else none

/-- A call of one of the tools; the first asks three questions. -/
inductive Tool where
  | setKargsHardening (lines : List Line)
  | removeKargsHardening
  | setKargsNvidia
  | removeKargsNvidia

section
variable (casefold : Text → Text) (nvidia : Bool) (backend : BootcBackend) (bootloader : Bootloader)

/-- The questions of `set_kargs_hardening.py`: whether to disable 32-bit support and simultaneous
    multithreading, and whether to set the unstable arguments. -/
def askHardening : Dialogue (Bool × Bool × Bool) := do
  let support32Bit ← askYesNo casefold
  let nosmt ← askYesNo casefold
  let unstable ← askYesNo casefold
  return (!support32Bit, nosmt, unstable)

/-- What the tool asks `apply_kargs` for; nothing if it is interrupted or is not for this image. -/
def Tool.request : Tool → Option SetKargs
  | .setKargsHardening lines => (askHardening casefold lines).map fun answers =>
      let (add, remove) := buildKargsList backend bootloader answers.1.1 answers.1.2.1 answers.1.2.2
      ⟨add, remove⟩
  | .removeKargsHardening => some ⟨[], defaultKargs ++ [disable32Bit, forceNosmt] ++ unstableKargs⟩
  | .setKargsNvidia => (imageNvidiaKargs nvidia).map fun kargs => ⟨kargs, []⟩
  | .removeKargsNvidia => (imageNvidiaKargs nvidia).map fun kargs => ⟨[], kargs⟩

/-- A call on an OSTree system, with the kernel arguments; `succeeds` says whether `rpm-ostree` does. -/
def callOstree (runOption : Text → List Text → List Text) (c : Tool × Bool) (args : List Text) : Bool × List Text :=
  match c.1.request casefold nvidia .ostree .grub2 with
  | none => (false, args)
  | some request =>
    if c.2 then (true, runCommand runOption (applyKargs .ostree .grub2 request.add request.remove) args)
    else (false, args)

/-- A call on a system with systemd-boot; the worker is started or not. -/
def callUki (c : Tool × Bool) (w : World) : Bool × World :=
  match c.1.request casefold nvidia .composefs .systemdBoot with
  | none => (false, w)
  | some request =>
    if c.2 then
      let (exitCode, w') := Kargs.Uki.Script.exec (Uki.main request) w
      (match exitCode with | .ok code => code == 0 | .error _ => false, w')
    else (false, w)

/-- What a call that succeeds makes of an argument. -/
def writesKarg (karg : Text) (c : Tool × Bool) (succeeded : Bool) : Option Prop :=
  match succeeded, c.1.request casefold nvidia backend bootloader with
  | true, some request => if karg ∈ request.add ++ request.remove then some (karg ∉ request.remove) else none
  | _, _ => none

end

/-- The arguments that the tools manage. -/
def managedKargs : List Text := hardeningKargs ++ nvidiaKargs

theorem encodable_managed : ∀ k ∈ managedKargs, Encodable k := by decide +kernel

section
variable {casefold : Text → Text} {nvidia : Bool} {backend : BootcBackend} {bootloader : Bootloader}

/-- The tools ask for nothing else. -/
theorem request_managed {t : Tool} {request : SetKargs}
    (h : t.request casefold nvidia backend bootloader = some request) :
    ∀ k ∈ request.add ++ request.remove, k ∈ managedKargs := by
  have hbuild : ∀ disable32 nosmt unstable : Bool,
      ∀ k ∈ (buildKargsList backend bootloader disable32 nosmt unstable).1 ++
        (buildKargsList backend bootloader disable32 nosmt unstable).2, k ∈ hardeningKargs := by
    intro disable32 nosmt unstable k hk
    have hbase : (if backend = .ostree ∧ bootloader = .grub2 then defaultKargs else []) ⊆ defaultKargs := by
      split_ifs
      · exact List.Subset.refl _
      · exact List.nil_subset _
    simp only [buildKargsList, hardeningKargs] at hk ⊢
    generalize (if backend = .ostree ∧ bootloader = .grub2 then defaultKargs else []) = base at hk hbase
    generalize defaultKargs = defaults at hbase ⊢
    generalize unstableKargs = unstables at hk ⊢
    generalize disable32Bit = bit at hk ⊢
    generalize forceNosmt = force at hk ⊢
    have hsub : k ∈ base → k ∈ defaults := fun hk => hbase hk
    cases disable32 <;> cases nosmt <;> cases unstable <;>
      simp only [Bool.false_eq_true, if_true, if_false, List.append_nil, List.nil_append, List.mem_append,
        List.mem_cons, List.not_mem_nil, or_false] at hk ⊢ <;>
      tauto
  intro k hk
  cases t with
  | setKargsHardening lines =>
    obtain ⟨answers, -, rfl⟩ := Option.map_eq_some_iff.mp h
    exact List.mem_append_left _ (hbuild _ _ _ k hk)
  | removeKargsHardening =>
    obtain rfl := Option.some.inj h
    refine List.mem_append_left _ ?_
    simp only [hardeningKargs] at hk ⊢
    generalize defaultKargs = defaults at hk ⊢
    generalize unstableKargs = unstables at hk ⊢
    generalize disable32Bit = bit at hk ⊢
    generalize forceNosmt = force at hk ⊢
    simp only [List.nil_append, List.mem_append, List.mem_cons, List.not_mem_nil, or_false] at hk ⊢
    tauto
  | setKargsNvidia =>
    obtain ⟨kargs, hkargs, rfl⟩ := Option.map_eq_some_iff.mp h
    unfold imageNvidiaKargs at hkargs
    split_ifs at hkargs
    obtain rfl := Option.some.inj hkargs
    exact List.mem_append_right _ (by simpa using hk)
  | removeKargsNvidia =>
    obtain ⟨kargs, hkargs, rfl⟩ := Option.map_eq_some_iff.mp h
    unfold imageNvidiaKargs at hkargs
    split_ifs at hkargs
    obtain rfl := Option.some.inj hkargs
    exact List.mem_append_right _ (by simpa using hk)

/-! ### OSTree -/

section
variable {runOption : Text → List Text → List Text} (hr : RpmOstreeSpec runOption)
include hr

theorem mem_appendArgs {k : Text} (ks : List Text) : ∀ l : List Text,
    k ∈ (ks.map appendArg).foldl (fun l o => runOption o l) l ↔ k ∈ l ∨ k ∈ ks := by
  induction ks with
  | nil => simp
  | cons a ks ih =>
    intro l
    rw [List.map_cons, List.foldl_cons, ih, hr.appendIfMissing]
    split_ifs with ha
    · by_cases hk : k = a
      · simp [hk, ha]
      · simp [hk]
    · simp [or_assoc]

theorem mem_deleteArgs {k : Text} (ks : List Text) : ∀ l : List Text,
    k ∈ (ks.map deleteArg).foldl (fun l o => runOption o l) l ↔ k ∈ l ∧ k ∉ ks := by
  induction ks with
  | nil => simp
  | cons a ks ih =>
    intro l
    rw [List.map_cons, List.foldl_cons, ih, hr.deleteIfPresent]
    simp only [List.mem_filter, List.mem_cons, decide_eq_true_eq]
    tauto

/-- What the command leaves of the arguments that are not its own, in their order. -/
theorem filter_appendArgs {p : Text → Bool} {ks : List Text} (h : ∀ k ∈ ks, p k = false) : ∀ l : List Text,
    ((ks.map appendArg).foldl (fun l o => runOption o l) l).filter p = l.filter p := by
  induction ks with
  | nil => exact fun _ => rfl
  | cons a ks ih =>
    intro l
    rw [List.map_cons, List.foldl_cons, ih fun k hk => h k (List.mem_cons_of_mem a hk), hr.appendIfMissing]
    split_ifs
    · rfl
    · rw [List.filter_append, List.filter_cons_of_neg (by simp [h a List.mem_cons_self]), List.filter_nil,
        List.append_nil]

theorem filter_deleteArgs {p : Text → Bool} {ks : List Text} (h : ∀ k ∈ ks, p k = false) : ∀ l : List Text,
    ((ks.map deleteArg).foldl (fun l o => runOption o l) l).filter p = l.filter p := by
  induction ks with
  | nil => exact fun _ => rfl
  | cons a ks ih =>
    intro l
    rw [List.map_cons, List.foldl_cons, ih fun k hk => h k (List.mem_cons_of_mem a hk), hr.deleteIfPresent,
      List.filter_filter]
    refine List.filter_congr fun k _ => ?_
    by_cases hk : k = a
    · simp [hk, h a List.mem_cons_self]
    · simp [hk]

omit hr in
theorem runCommand_ostree (add remove : List Text) (l : List Text) :
    runCommand runOption (applyKargs .ostree .grub2 add remove) l =
      (remove.map deleteArg).foldl (fun l o => runOption o l)
        ((add.map appendArg).foldl (fun l o => runOption o l) l) := by
  simp only [applyKargs, runCommand, List.foldl_append, List.cons_append, List.nil_append, List.drop_succ_cons,
    List.drop_zero]

/-- Every argument is a register of the tools. -/
theorem isRegister_ostree (k : Text) : Register.IsRegister (callOstree casefold nvidia runOption) (fun _ => True)
    (fun args => k ∈ args) (writesKarg casefold nvidia .ostree .grub2 k) where
  keeps _ _ _ := trivial
  view_step c args _ := by
    unfold callOstree writesKarg
    cases c.1.request casefold nvidia .ostree .grub2 with
    | none => rfl
    | some request =>
      cases c.2 with
      | false => rfl
      | true =>
        dsimp only
        rw [if_pos rfl, runCommand_ostree, mem_deleteArgs hr, mem_appendArgs hr]
        dsimp only
        split_ifs with hmem
        · rcases List.mem_append.mp hmem with hadd | hremove
          · simp [hadd]
          · simp [hremove]
        · simp only [List.mem_append, not_or] at hmem
          simp [hmem.1, hmem.2]

/-- The arguments that no tool manages are no tool's register. -/
theorem isRegister_unmanaged : Register.IsRegister (callOstree casefold nvidia runOption) (fun _ => True)
    (fun args => args.filter (· ∉ managedKargs)) fun _ _ => none where
  keeps _ _ _ := trivial
  view_step c args _ := by
    unfold callOstree
    cases hrequest : c.1.request casefold nvidia .ostree .grub2 with
    | none => rfl
    | some request =>
      have hmanaged : ∀ k ∈ request.add ++ request.remove, (decide (k ∉ managedKargs)) = false := fun k hk => by
        simpa using request_managed hrequest k hk
      cases c.2 with
      | false => rfl
      | true =>
        dsimp only
        rw [if_pos rfl, runCommand_ostree, filter_deleteArgs hr fun k hk => hmanaged k (List.mem_append_right _ hk),
          filter_appendArgs hr fun k hk => hmanaged k (List.mem_append_left _ hk)]
        rfl

end

/-! ### UKI -/

/-- The worker carries a request out, or changes no file. -/
theorem exec_main_cases {request : SetKargs} {w : World} (hw : Ready w.fs)
    (hencodable : ∀ k ∈ request.add ++ request.remove, Encodable k)
    (haccepts : ∀ k ∈ request.remove, w.fs.Accepts (addonIn loadedAddonsPath k)) :
    ((Kargs.Uki.Script.exec (main request) w).1 = .ok 1 ∧ (Kargs.Uki.Script.exec (main request) w).2.fs = w.fs) ∨
    ((Kargs.Uki.Script.exec (main request) w).1 = .ok 0 ∧
      (∀ k ∈ request.add, Encodable k ∧ (w.fs.get (addonIn availAddonsPath k)).isSome) ∧
      Applied request w.fs (Kargs.Uki.Script.exec (main request) w).2.fs) := by
  have hadd : ∀ k ∈ request.add, Encodable k := fun k hk => hencodable k (List.mem_append_left _ hk)
  have hremove : ∀ k ∈ request.remove, Encodable k := fun k hk => hencodable k (List.mem_append_right _ hk)
  by_cases h : ∀ k ∈ request.add, k ∈ kargsIn w.fs availAddonsPath
  · obtain ⟨fs', hrun, happlied⟩ := exec_main_available hw hadd hremove haccepts h
    rw [hrun]
    exact .inr ⟨rfl, fun k hk => ⟨hadd k hk, ((mem_kargsIn hw.avail).mp (h k hk)).2⟩, happlied⟩
  · obtain ⟨stdout, hrun⟩ := exec_main_unavailable h
    rw [hrun]
    exact .inl ⟨rfl, rfl⟩

theorem encodable_request {t : Tool} {request : SetKargs}
    (h : t.request casefold nvidia backend bootloader = some request) :
    ∀ k ∈ request.add ++ request.remove, Encodable k := fun k hk => encodable_managed k (request_managed h k hk)

/-- The managed arguments have short addon names. -/
theorem accepts_request {t : Tool} {request : SetKargs}
    (h : t.request casefold nvidia backend bootloader = some request) (w : World) :
    ∀ k ∈ request.remove, w.fs.Accepts (addonIn loadedAddonsPath k) := by
  have hshort : ∀ k ∈ managedKargs, (∀ c ∈ addonIn loadedAddonsPath k, '\x00' ∉ c ∧ utf8Len c ≤ nameMax) ∧
      Path.size (addonIn loadedAddonsPath k) < pathMax := by decide +kernel
  intro k hk
  obtain ⟨hname, hsize⟩ := hshort k (request_managed h k (List.mem_append_right _ hk))
  exact w.fs.accepts_of_short hname hsize

/-- The result of a call and the files after it: nothing has changed, or the request was carried out. -/
theorem callUki_cases (c : Tool × Bool) {w : World} (hw : Ready w.fs) :
    ((callUki casefold nvidia c w).1 = false ∧ (callUki casefold nvidia c w).2.fs = w.fs) ∨
    ∃ request, c.1.request casefold nvidia .composefs .systemdBoot = some request ∧
      (callUki casefold nvidia c w).1 = true ∧
      (∀ k ∈ request.add, Encodable k ∧ (w.fs.get (addonIn availAddonsPath k)).isSome) ∧
      Applied request w.fs (callUki casefold nvidia c w).2.fs := by
  unfold callUki
  cases hrequest : c.1.request casefold nvidia .composefs .systemdBoot with
  | none => exact .inl ⟨rfl, rfl⟩
  | some request =>
    cases c.2 with
    | false => exact .inl ⟨rfl, rfl⟩
    | true =>
      dsimp only
      rw [if_pos rfl]
      rcases exec_main_cases hw (encodable_request hrequest) (accepts_request hrequest w) with
        ⟨hcode, hfs⟩ | ⟨hcode, havail, happlied⟩
      · exact .inl ⟨by rw [hcode]; rfl, hfs⟩
      · exact .inr ⟨request, rfl, by rw [hcode]; rfl, havail, happlied⟩

theorem ready_callUki (c : Tool × Bool) {w : World} (hw : Ready w.fs) : Ready (callUki casefold nvidia c w).2.fs := by
  rcases @callUki_cases casefold nvidia c w hw with ⟨-, hfs⟩ | ⟨request, -, -, -, happlied⟩
  · rw [hfs]
    exact hw
  · exact happlied.ready hw

theorem isRegister_uki (k : Text) : Register.IsRegister (callUki casefold nvidia) (fun w => Ready w.fs)
    (fun w => k ∈ kargsIn w.fs loadedAddonsPath) (writesKarg casefold nvidia .composefs .systemdBoot k) where
  keeps c _ hw := ready_callUki c hw
  view_step c w hw := by
    unfold writesKarg
    rcases @callUki_cases casefold nvidia c w hw with
      ⟨hresult, hfs⟩ | ⟨request, hrequest, hresult, havail, happlied⟩
    · rw [hresult, hfs]
      rfl
    · have hremove : ∀ k ∈ request.remove, Encodable k := fun k hk =>
        encodable_request hrequest k (List.mem_append_right _ hk)
      rw [hresult, hrequest, happlied.kargsIn hw havail hremove]
      dsimp only
      split_ifs with hmem
      · rcases List.mem_append.mp hmem with hadd | hremove
        · simp [hadd]
        · simp [hremove]
      · simp only [List.mem_append, not_or] at hmem
        simp [hmem.1, hmem.2]

/-- Files that are no addons of managed arguments are no tool's register. -/
theorem isRegister_files {q : Path} (hdir : q ≠ loadedAddonsPath)
    (hq : ∀ k ∈ managedKargs, q ≠ addonIn loadedAddonsPath k) :
    Register.IsRegister (callUki casefold nvidia) (fun w => Ready w.fs) (fun w => w.fs.get q) fun _ _ => none where
  keeps c _ hw := ready_callUki c hw
  view_step c w hw := by
    rcases @callUki_cases casefold nvidia c w hw with
      ⟨-, hfs⟩ | ⟨request, hrequest, -, -, happlied⟩
    · rw [hfs]
      rfl
    · exact happlied.others q hdir fun k hk => hq k (request_managed hrequest k hk)

/-! ### Runs -/

/-- CORRECT: on an OSTree system, whatever the tools are called with and whichever calls fail, an argument
    is set in the end just if the last call that succeeded and concerned it added it, or if it was set and
    there was none; and the arguments that the tools do not manage are the same, in the same order. -/
theorem kargs_runs_ostree {runOption : Text → List Text → List Text} (hr : RpmOstreeSpec runOption)
    (calls : List (Tool × Bool)) (args : List Text) :
    let after := Register.run (callOstree casefold nvidia runOption) calls args
    (∀ k, k ∈ after.2 ↔
      (Register.last (writesKarg casefold nvidia .ostree .grub2 k) after.1).getD (k ∈ args)) ∧
    after.2.filter (· ∉ managedKargs) = args.filter (· ∉ managedKargs) :=
  ⟨fun k => iff_of_eq ((isRegister_ostree hr k).value calls trivial),
    (isRegister_unmanaged hr).unwritten calls trivial⟩

/-- CORRECT: on a system with systemd-boot, where the worker may fail for want of an addon, the same holds
    of the arguments that are loaded; and no other file is changed. -/
theorem kargs_runs_uki (calls : List (Tool × Bool)) {w : World} (hw : Ready w.fs) :
    let after := Register.run (callUki casefold nvidia) calls w
    (∀ k, k ∈ kargsIn after.2.fs loadedAddonsPath ↔
      (Register.last (writesKarg casefold nvidia .composefs .systemdBoot k) after.1).getD
        (k ∈ kargsIn w.fs loadedAddonsPath)) ∧
    ∀ q, q ≠ loadedAddonsPath → (∀ k ∈ managedKargs, q ≠ addonIn loadedAddonsPath k) →
      after.2.fs.get q = w.fs.get q :=
  ⟨fun k => iff_of_eq ((isRegister_uki k).value calls hw), fun _ hdir hq =>
    (isRegister_files hdir hq).unwritten calls hw⟩

end

/-- The answers to the three questions, the second of which is asked again. -/
def hardeningLines : List Line :=
  [⟨"no", by decide⟩, ⟨"perhaps", by decide⟩, ⟨"yes", by decide⟩, ⟨"no", by decide⟩]

/-- The second call sets what the first one removes; the others are refused, or interrupted. -/
def ostreeCalls : List (Tool × Bool) :=
  [(.removeKargsHardening, true), (.setKargsHardening hardeningLines, true), (.setKargsNvidia, false),
    (.setKargsHardening [], true)]

theorem kargs_runs_ostree_quiet : let args : List Text := ["quiet", forceNosmt, "ro"]
    let after := Register.run (callOstree id true rpmOstreeOption) ostreeCalls args
    forceNosmt ∈ after.2 ∧ after.2.filter (· ∉ managedKargs) = ["quiet", "ro"] := by
  intro args after
  obtain ⟨hkargs, hothers⟩ := @kargs_runs_ostree id true _ rpmOstreeOption_spec ostreeCalls args
  have hlast : Register.last (writesKarg id true .ostree .grub2 forceNosmt) after.1 =
      some (forceNosmt ∉ (buildKargsList .ostree .grub2 true true false).2) := rfl
  refine ⟨(hkargs forceNosmt).mpr ?_, hothers.trans (by decide +kernel)⟩
  rw [hlast, Option.getD_some]
  decide +kernel

theorem kargs_runs_uki_oneOfEach :
    let calls : List (Tool × Bool) := [(.removeKargsHardening, true), (.setKargsNvidia, true)]
    let after := Register.run (callUki id false) calls ⟨oneOfEach, []⟩
    forceNosmt ∈ kargsIn after.2.fs loadedAddonsPath ↔
      (Register.last (writesKarg id false .composefs .systemdBoot forceNosmt) after.1).getD
        (forceNosmt ∈ kargsIn oneOfEach loadedAddonsPath) :=
  (@kargs_runs_uki id false [(.removeKargsHardening, true), (.setKargsNvidia, true)] ⟨oneOfEach, []⟩
    ready_oneOfEach).1 forceNosmt

end Kargs
