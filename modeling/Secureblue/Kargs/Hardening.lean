import Mathlib
import Secureblue.Auditor.Report
import Secureblue.Kargs.Cmdline

/-! Setting and auditing the hardening arguments (`set_kargs_hardening.py`,
    `shared/kargs_hardening.py`, `audit_kargs` in `audit_secureblue.py`).

    On OSTree systems with GRUB the setter asks `rpm-ostree kargs` to append each argument if the
    identical token is missing. The audit reads the command line as the kernel does: names with `-`
    and `_` identified, the last argument of a name in force. An argument that was present but
    overridden is therefore not appended and still reported missing, and no other one is
    (`applied_kargs_found_iff`). -/

namespace Kargs
open Py Auditor

/-! ### The code -/

/-- `BootcBackend` -/
inductive BootcBackend where | composefs | ostree
  deriving DecidableEq

/-- `Bootloader` -/
inductive Bootloader where | systemdBoot | grub2
  deriving DecidableEq

/-- The `kargs` of `/usr/lib/bootc/kargs.d/10-secureblue.toml`. -/
def defaultKargs : List Text :=
  ["amdgpu.iommu_perfopt=0", "hash_pointers=always", "init_on_alloc=1", "init_on_free=1",
    "intel_iommu=on", "iommu.passthrough=0", "iommu.strict=1", "iommu=force", "kvm_amd.sev=1",
    "kvm_amd.sev_es=1", "kvm_amd.sev_snp=1", "kvm-amd.nested=0", "kvm-intel.nested=0",
    "kvm-intel.vmentry_l1d_flush=always", "kvm.mitigate_smt_rsb=1", "l1d_flush=on",
    "l1tf=full,force", "lockdown=confidentiality", "loglevel=0", "mitigations=auto,nosmt",
    "module.sig_enforce=1", "page_alloc.shuffle=1", "proc_mem.force_override=ptrace", "pti=on",
    "random.trust_bootloader=off", "random.trust_cpu=off", "randomize_kstack_offset=on",
    "rd.emergency=halt", "rd.shell=0", "slab_debug=FZ", "slab_nomerge",
    "spec_store_bypass_disable=on", "spectre_v2=on", "ssbd=force-on", "systemd.ssh_auto=no",
    "vdso32=0", "vsyscall=none"]

def disable32Bit : Text := "ia32_emulation=0"

def forceNosmt : Text := "nosmt=force"

def unstableKargs : List Text :=
  ["amd_iommu=force_isolation", "bdev_allow_write_mounted=0", "debugfs=off",
    "efi=disable_early_pci_dma", "gather_data_sampling=force", "mem_encrypt=on", "oops=panic"]

/-- `build_kargs_list`: the arguments to add and to remove. -/
def buildKargsList (backend : BootcBackend) (bootloader : Bootloader)
    (disable32 nosmt unstable : Bool) : List Text × List Text :=
  let base := if backend = .ostree ∧ bootloader = .grub2 then defaultKargs else []
  let (add₁, remove₁) := if disable32 then ([disable32Bit], []) else ([], [disable32Bit])
  let (add₂, remove₂) := if nosmt then ([forceNosmt], []) else ([], [forceNosmt])
  let (add₃, remove₃) := if unstable then (unstableKargs, []) else ([], unstableKargs)
  (base ++ add₁ ++ add₂ ++ add₃, remove₁ ++ remove₂ ++ remove₃)

/-- `f"--append-if-missing={karg}"` -/
def appendArg (karg : Text) : Text := "--append-if-missing=" ++ karg

/-- `f"--delete-if-present={karg}"` -/
def deleteArg (karg : Text) : Text := "--delete-if-present=" ++ karg

/-- What `apply_kargs` does with the request. -/
inductive Command where
  /-- run the sandboxed UKI worker -/
  | worker (add remove : List Text)
  /-- run a program -/
  | run (argv : List Text)
  | exit (code : ℕ)
  deriving DecidableEq

/-- `apply_kargs` -/
def applyKargs (backend : BootcBackend) (bootloader : Bootloader) (add remove : List Text) : Command :=
  match backend, bootloader with
  | .composefs, .systemdBoot => .worker add remove
  | .ostree, .grub2 => .run ((["/usr/bin/rpm-ostree", "kargs"] : List Text) ++
      add.map appendArg ++ remove.map deleteArg)
  | _, _ => .exit 1

/-- `kargs_expected`: the severity of a missing argument, and a comment. -/
def kargsExpected : Dict Text (Status × Option Text) :=
  let base : Dict Text (Status × Option Text) :=
    Dict.ofList (defaultKargs.map fun karg => (karg, (Status.fail, none)))
  ((base.set disable32Bit (Status.warn, some ("32-bit support" : Text))).set forceNosmt
    (Status.warn, some ("force-disable SMT" : Text))).update
    (unstableKargs.map fun karg => (karg, (Status.warn, some ("unstable" : Text))))

/-- `key not in kargs_active or kargs_active[key] != value` -/
def isMissing (active : KargsMap) (karg : Text) : Bool :=
  decide (active.get (splitKarg karg).1 ≠ some (splitKarg karg).2)

/-- The note for a missing argument. -/
def missingNote (karg : Text) (expected : Status × Option Text) : Note :=
  { text := match expected.2 with
      | none => "Missing kernel argument: " ++ karg
      | some comment => "Missing kernel argument (" ++ comment ++ "): " ++ karg
    status := some expected.1 }

/-- The loop body of `audit_kargs`, on `status` and `notes`. -/
def checkKarg (active : KargsMap) (st : Status × List Note) (e : Text × Status × Option Text) :
    Status × List Note :=
  if isMissing active e.1 then (st.1.downgradeTo e.2.1, st.2 ++ [missingNote e.1 e.2]) else st

/-- `audit_kargs` on the text of `/proc/cmdline`. -/
def auditKargs (procCmdline : Text) : Except Exn Report :=
  match parseKernelCmdline (rstrip procCmdline) with
  | .error e => .error e
  | .ok active =>
    let (status, notes) := kargsExpected.items.foldl (checkKarg active) (.pass, [])
    .ok { description := "Checking for hardened kernel arguments", status, notes
          recs := if status = .pass then [] else
            [⟨"To set hardened kernel arguments, run:\n$ ujust set-kargs-hardening", none⟩] }

/-! ### The audit -/

theorem notes_foldl (active : KargsMap) : ∀ (es : List (Text × Status × Option Text))
    (st : Status × List Note), (es.foldl (checkKarg active) st).2
      = st.2 ++ (es.filter fun e => isMissing active e.1).map fun e => missingNote e.1 e.2
  | [], st => by simp
  | e :: es, st => by
      rw [List.foldl_cons, notes_foldl active es, checkKarg]
      cases h : isMissing active e.1 <;> simp [h]

/-- The severity of an argument, and its comment. -/
theorem get_kargsExpected (karg : Text) : kargsExpected.get karg
    = if karg ∈ unstableKargs then some (.warn, some ("unstable" : Text))
      else if karg = forceNosmt then some (.warn, some ("force-disable SMT" : Text))
      else if karg = disable32Bit then some (.warn, some ("32-bit support" : Text))
      else if karg ∈ defaultKargs then some (.fail, none)
      else none := by
  rw [kargsExpected, Dict.get_update, Dict.get_set, Dict.get_set, Dict.get_ofList, lastWins_const,
    lastWins_const]
  split_ifs <;> rfl

/-- No comment closes its parenthesis. -/
theorem comment_closed {karg : Text} {e : Status × Option Text} (he : kargsExpected.get karg = some e) :
    ∀ comment ∈ e.2, ')' ∉ comment := by
  rw [get_kargsExpected] at he
  split_ifs at he <;> obtain rfl := Option.some.inj he <;> rintro comment ⟨rfl⟩ <;> decide

/-- A note names its argument. -/
theorem missingNote_inj {karg karg' : Text} {e e' : Status × Option Text}
    (he : ∀ comment ∈ e.2, ')' ∉ comment) (he' : ∀ comment ∈ e'.2, ')' ∉ comment)
    (h : missingNote karg e = missingNote karg' e') : karg = karg' := by
  have hplain : ("Missing kernel argument: " : Text) = "Missing kernel argument" ++ [':', ' '] := rfl
  have hcomment : ("Missing kernel argument (" : Text) = "Missing kernel argument" ++ [' ', '('] := rfl
  obtain ⟨status, _ | comment⟩ := e <;> obtain ⟨status', _ | comment'⟩ := e' <;>
    have htext := congrArg Note.text h <;>
    simp only [missingNote, hplain, hcomment, List.append_assoc, List.append_cancel_left_eq,
      List.cons_append, List.nil_append, List.cons.injEq, true_and] at htext
  · exact htext
  · exact absurd htext.1 (by decide)
  · exact absurd htext.1 (by decide)
  · -- the first parenthesis ends the comment
    have hclose : ∀ {c : Text}, ')' ∉ c → ∀ k : Text,
        partition ')' (c ++ (("): " : Text) ++ k)) = (c, [')'], [':', ' '] ++ k) :=
      fun hc k => partition_append hc ([':', ' '] ++ k)
    have hparts := congrArg (partition ')') htext
    rw [hclose (he comment rfl), hclose (he' comment' rfl)] at hparts
    exact List.append_cancel_left (congrArg (·.2.2) hparts)

/-- The note of an expected argument is reported exactly when the argument is missing. -/
theorem missingNote_mem_iff (active : KargsMap) {karg : Text} {e : Status × Option Text}
    (he : kargsExpected.get karg = some e) (st : Status) :
    missingNote karg e ∈ (kargsExpected.items.foldl (checkKarg active) (st, [])).2
      ↔ isMissing active karg := by
  have hmem : (karg, e) ∈ kargsExpected.items := Dict.mem_items_of_get he
  rw [notes_foldl, List.nil_append, List.mem_map]
  constructor
  · rintro ⟨e', he', hnote⟩
    obtain ⟨hmem', hmiss⟩ := List.mem_filter.mp he'
    have hget := Dict.get_of_mem_items (k := e'.1) (v := e'.2) hmem'
    rw [missingNote_inj (comment_closed hget) (comment_closed he) hnote] at hmiss
    exact hmiss
  · exact fun h => ⟨(karg, e), List.mem_filter.mpr ⟨hmem, h⟩, rfl⟩

theorem auditKargs_notes {procCmdline : Text} {active : KargsMap}
    (h : parseKernelCmdline (rstrip procCmdline) = .ok active) :
    ∃ report, auditKargs procCmdline = .ok report ∧
      report.notes = (kargsExpected.items.foldl (checkKarg active) (.pass, [])).2 := by
  rw [auditKargs, h]
  refine ⟨_, rfl, ?_⟩
  dsimp only

/-- The value in force for a name on a command line of these tokens. -/
def effective (tokens : List Text) (name : Text) : Option (Option Text) :=
  lastWins (tokens.map splitKarg) name

/-- The map of a line of tokens without quotes gives the values in force. -/
theorem parse_join {tokens : List Text} (h : ∀ t ∈ tokens, t ≠ [] ∧ Plain t) :
    parseKernelCmdline (rstrip ([' '].intercalate tokens))
      = .ok (Dict.ofList (tokens.map splitKarg)) := by
  have hquote : '"' ∉ rstrip ([' '].intercalate tokens) := by
    intro hq
    rcases mem_join ((List.rdropWhile_prefix isSpace _).subset hq) with hc | ⟨t, ht, hc⟩
    · exact absurd hc (by decide)
    · exact (h t ht).2.not_mem hc
  rw [parse_words hquote, words_rstrip, words_join fun t ht => (h t ht).2.not_space,
    List.filter_eq_self.mpr fun t ht => by simpa using (h t ht).1]

/-- The audit of a line of tokens without quotes notes an argument exactly when the value in force
    is not its own. -/
theorem audit_join {tokens : List Text} (h : ∀ t ∈ tokens, t ≠ [] ∧ Plain t) :
    ∃ report, auditKargs ([' '].intercalate tokens) = .ok report ∧
      ∀ karg e, kargsExpected.get karg = some e → (missingNote karg e ∈ report.notes
        ↔ effective tokens (splitKarg karg).1 ≠ some (splitKarg karg).2) := by
  obtain ⟨report, hreport, hnotes⟩ := auditKargs_notes (parse_join h)
  refine ⟨report, hreport, fun karg e he => ?_⟩
  rw [hnotes, missingNote_mem_iff _ he, isMissing, decide_eq_true_iff, Dict.get_ofList]
  rfl

/-! ### The setter -/

/-- What `rpm-ostree kargs` documents for the two options, on the list of kernel arguments. That deleting takes
    an argument away as often as it is there is an assumption. -/
structure RpmOstreeSpec (runOption : Text → List Text → List Text) : Prop where
  appendIfMissing : ∀ k l, runOption (appendArg k) l = if k ∈ l then l else l ++ [k]
  deleteIfPresent : ∀ k l, runOption (deleteArg k) l = l.filter (· ≠ k)

/-- The kernel arguments after a command, the options taking effect in order. -/
def runCommand (runOption : Text → List Text → List Text) : Command → List Text → List Text
  | .run argv, l => (argv.drop 2).foldl (fun l o => runOption o l) l
  | _, l => l

section
variable {runOption : Text → List Text → List Text} (hr : RpmOstreeSpec runOption)
include hr

theorem effective_append (k name : Text) (l : List Text) :
    effective (runOption (appendArg k) l) name
      = if (splitKarg k).1 = name ∧ k ∉ l then some (splitKarg k).2 else effective l name := by
  rw [hr.appendIfMissing]
  by_cases hk : k ∈ l
  · simp [hk]
  · rw [if_neg hk, effective, effective, List.map_append, lastWins_append, List.map_singleton,
      lastWins_singleton]
    by_cases hn : name = (splitKarg k).1
    · simp [hn, hk]
    · simp [hn, Ne.symm hn]

/-- Removing a token changes no other name. -/
theorem effective_delete {k name : Text} (hk : (splitKarg k).1 ≠ name) : ∀ l : List Text,
    effective (runOption (deleteArg k) l) name = effective l name := by
  intro l
  rw [hr.deleteIfPresent]
  induction l with
  | nil => rfl
  | cons t l ih =>
    have hcons : effective (t :: l) name = (effective l name).or
        (if name = (splitKarg t).1 then some (splitKarg t).2 else none) := lastWins_cons ..
    rcases eq_or_ne t k with rfl | ht
    · rw [List.filter_cons_of_neg (by simp), ih, hcons, if_neg (Ne.symm hk), Option.or_none]
    · rw [List.filter_cons_of_pos (by simpa using ht), hcons, ← ih]
      exact lastWins_cons ..

/-- Options about other names change neither the value in force nor the membership of a token. -/
theorem effective_appends {k : Text} : ∀ {ks : List Text}, (∀ k' ∈ ks, (splitKarg k').1 ≠ (splitKarg k).1) →
    ∀ l : List Text, let l' := (ks.map appendArg).foldl (fun l o => runOption o l) l
      effective l' (splitKarg k).1 = effective l (splitKarg k).1 ∧ (k ∈ l' ↔ k ∈ l)
  | [], _, _ => ⟨rfl, Iff.rfl⟩
  | k' :: ks, h, l => by
      have hk' := h k' List.mem_cons_self
      have hne : k ≠ k' := fun he => hk' (he ▸ rfl)
      obtain ⟨heff, hmem⟩ := effective_appends
        (fun k'' hk'' => h k'' (List.mem_cons_of_mem _ hk'')) (runOption (appendArg k') l)
      refine ⟨heff.trans ?_, hmem.trans ?_⟩
      · rw [effective_append hr, if_neg fun hc => hk' hc.1]
      · rw [hr.appendIfMissing]
        split <;> simp [hne]

theorem effective_deletes {name : Text} : ∀ {ks : List Text}, (∀ k ∈ ks, (splitKarg k).1 ≠ name) →
    ∀ l : List Text, effective ((ks.map deleteArg).foldl (fun l o => runOption o l) l) name
      = effective l name
  | [], _, _ => rfl
  | k :: _, h, l => (effective_deletes (fun k' hk' => h k' (List.mem_cons_of_mem _ hk')) _).trans
      (effective_delete hr (h k List.mem_cons_self) l)

/-- After the command, the value in force for an added argument is its own if it was appended, and
    the previous one if its token was already there. -/
theorem effective_applied (init : List Text) {add remove : List Text}
    (hadd : (add.map fun k => (splitKarg k).1).Nodup)
    (hremove : ∀ k ∈ add, ∀ r ∈ remove, (splitKarg r).1 ≠ (splitKarg k).1) {k : Text} (hk : k ∈ add) :
    effective (runCommand runOption (applyKargs .ostree .grub2 add remove) init) (splitKarg k).1
      = if k ∈ init then effective init (splitKarg k).1 else some (splitKarg k).2 := by
  obtain ⟨before, after, rfl⟩ := List.append_of_mem hk
  rw [List.map_append, List.map_cons, List.nodup_append, List.nodup_cons] at hadd
  obtain ⟨-, ⟨hafter, -⟩, hbefore⟩ := hadd
  have hb : ∀ k' ∈ before, (splitKarg k').1 ≠ (splitKarg k).1 := fun k' hk' =>
    hbefore _ (List.mem_map_of_mem hk') _ List.mem_cons_self
  have ha : ∀ k' ∈ after, (splitKarg k').1 ≠ (splitKarg k).1 := fun k' hk' he =>
    hafter (List.mem_map.mpr ⟨k', hk', he⟩)
  obtain ⟨heff, hmem⟩ := effective_appends hr hb init
  simp only [applyKargs, runCommand, List.map_append, List.map_cons, List.foldl_append,
    List.foldl_cons, List.cons_append, List.nil_append, List.drop_succ_cons, List.drop_zero]
  rw [effective_deletes hr (hremove k hk), (effective_appends hr ha _).1, effective_append hr, heff]
  by_cases hi : k ∈ init
  · simp [hmem, hi]
  · simp [hmem, hi]

theorem mem_deletes {t : Text} : ∀ {ks l : List Text},
    t ∈ (ks.map deleteArg).foldl (fun l o => runOption o l) l → t ∈ l
  | [], _, h => h
  | k :: ks, l, h => by
      have hrest : t ∈ runOption (deleteArg k) l := mem_deletes h
      rw [hr.deleteIfPresent] at hrest
      exact List.mem_of_mem_filter hrest

theorem mem_appends {t : Text} : ∀ {ks l : List Text},
    t ∈ (ks.map appendArg).foldl (fun l o => runOption o l) l → t ∈ l ∨ t ∈ ks
  | [], _, h => .inl h
  | k :: ks, l, h => by
      have hfirst : t ∈ runOption (appendArg k) l ∨ t ∈ ks := mem_appends h
      rcases hfirst with hrest | hrest
      · rw [hr.appendIfMissing] at hrest
        split at hrest
        · exact .inl hrest
        · rcases List.mem_append.mp hrest with hl | hk
          · exact .inl hl
          · exact .inr (List.mem_singleton.mp hk ▸ List.mem_cons_self)
      · exact .inr (List.mem_cons_of_mem _ hrest)

/-- The setter only adds the tokens it was asked to add. -/
theorem mem_applied {add remove init : List Text} {t : Text}
    (ht : t ∈ runCommand runOption (applyKargs .ostree .grub2 add remove) init) :
    t ∈ init ∨ t ∈ add := by
  simp only [applyKargs, runCommand, List.foldl_append, List.cons_append, List.nil_append,
    List.drop_succ_cons, List.drop_zero] at ht
  exact mem_appends hr (mem_deletes hr ht)

end

/-! ### The request of the setter -/

/-- The arguments that the setter adds or removes. -/
def hardeningKargs : List Text := defaultKargs ++ [disable32Bit] ++ [forceNosmt] ++ unstableKargs

theorem nodup_names : (hardeningKargs.map fun k => (splitKarg k).1).Nodup := by decide +kernel

theorem hardening_plain : ∀ k ∈ hardeningKargs, k ≠ [] ∧ Plain k := by decide +kernel

/-- The audit expects all of them. -/
theorem hardening_expected {k : Text} (hk : k ∈ hardeningKargs) : (kargsExpected.get k).isSome := by
  rw [get_kargsExpected]
  split_ifs with hunstable hnosmt hdisable hdefault
  all_goals try rfl
  rcases List.mem_append.mp hk with hk | hk
  · rcases List.mem_append.mp hk with hk | hk
    · rcases List.mem_append.mp hk with hk | hk
      · exact absurd hk hdefault
      · exact absurd (List.mem_singleton.mp hk) hdisable
    · exact absurd (List.mem_singleton.mp hk) hnosmt
  · exact absurd hk hunstable

section
variable (disable32 nosmt unstable : Bool)

/-- Each is either to be added or to be removed. -/
theorem add_remove_perm : ((buildKargsList .ostree .grub2 disable32 nosmt unstable).1 ++
    (buildKargsList .ostree .grub2 disable32 nosmt unstable).2).Perm hardeningKargs := by
  rw [List.perm_iff_count]
  intro k
  cases disable32 <;> cases nosmt <;> cases unstable <;>
    simp only [buildKargsList, hardeningKargs, List.count_append, and_self, if_true,
      Bool.false_eq_true, if_false, List.count_nil] <;> omega

theorem nodup_names_add :
    ((buildKargsList .ostree .grub2 disable32 nosmt unstable).1.map fun k => (splitKarg k).1).Nodup := by
  have h := ((add_remove_perm disable32 nosmt unstable).map fun k => (splitKarg k).1).nodup_iff.mpr
    nodup_names
  rw [List.map_append] at h
  exact (List.nodup_append.mp h).1

theorem names_disjoint : ∀ k ∈ (buildKargsList .ostree .grub2 disable32 nosmt unstable).1,
    ∀ r ∈ (buildKargsList .ostree .grub2 disable32 nosmt unstable).2,
      (splitKarg r).1 ≠ (splitKarg k).1 := by
  have h := ((add_remove_perm disable32 nosmt unstable).map fun k => (splitKarg k).1).nodup_iff.mpr
    nodup_names
  rw [List.map_append, List.nodup_append] at h
  intro k hk r hr
  exact (h.2.2 _ (List.mem_map_of_mem hk) _ (List.mem_map_of_mem hr)).symm

theorem add_hardening : ∀ k ∈ (buildKargsList .ostree .grub2 disable32 nosmt unstable).1,
    k ∈ hardeningKargs := fun _ hk =>
  (add_remove_perm disable32 nosmt unstable).subset (List.mem_append_left _ hk)

end

/-- The audit expects each of these arguments, and its report notes none of them as missing. -/
def Found (report : Report) (kargs : List Text) : Prop :=
  ∀ k ∈ kargs, ∃ e, kargsExpected.get k = some e ∧ missingNote k e ∉ report.notes

/-- The argument is absent, or it is in force: none of the same name but another value follows. -/
def NotOverridden (init : List Text) (k : Text) : Prop :=
  k ∈ init → effective init (splitKarg k).1 = some (splitKarg k).2

instance (init : List Text) (k : Text) : Decidable (NotOverridden init k) :=
  inferInstanceAs (Decidable (_ → _))

/-- After the setter, the audit notes an added argument exactly when it was there and overridden. -/
theorem audit_applied {runOption : Text → List Text → List Text} (hr : RpmOstreeSpec runOption)
    {init : List Text} (hinit : ∀ t ∈ init, t ≠ [] ∧ Plain t) (disable32 nosmt unstable : Bool) :
    let kargs := buildKargsList .ostree .grub2 disable32 nosmt unstable
    let final := runCommand runOption (applyKargs .ostree .grub2 kargs.1 kargs.2) init
    ∃ report, auditKargs ([' '].intercalate final) = .ok report ∧
      ∀ k ∈ kargs.1, ∃ e, kargsExpected.get k = some e ∧
        (missingNote k e ∉ report.notes ↔ NotOverridden init k) := by
  intro kargs final
  have hfinal : ∀ t ∈ final, t ≠ [] ∧ Plain t := fun t ht =>
    (mem_applied hr ht).elim (hinit t) fun h =>
      hardening_plain t (add_hardening disable32 nosmt unstable t h)
  obtain ⟨report, hreport, hnote⟩ := audit_join hfinal
  refine ⟨report, hreport, fun k hk => ?_⟩
  obtain ⟨e, he⟩ := Option.isSome_iff_exists.mp
    (hardening_expected (add_hardening disable32 nosmt unstable k hk))
  have heff := effective_applied hr init (nodup_names_add disable32 nosmt unstable)
    (names_disjoint disable32 nosmt unstable) hk
  refine ⟨e, he, ?_⟩
  rw [hnote k e he, not_not, heff, NotOverridden]
  rcases em (k ∈ init) with hi | hi
  · rw [if_pos hi, forall_prop_of_true hi]
  · rw [if_neg hi, forall_prop_of_false hi, eq_self_iff_true]

/-- CORRECT: on a system without quoted arguments, the audit after the setter finds every argument
    that was to be added iff none of them was already present and overridden. -/
theorem applied_kargs_found_iff {runOption : Text → List Text → List Text}
    (hr : RpmOstreeSpec runOption) {init : List Text} (hinit : ∀ t ∈ init, t ≠ [] ∧ Plain t)
    (disable32 nosmt unstable : Bool) :
    let kargs := buildKargsList .ostree .grub2 disable32 nosmt unstable
    let final := runCommand runOption (applyKargs .ostree .grub2 kargs.1 kargs.2) init
    ∃ report, auditKargs ([' '].intercalate final) = .ok report ∧
      (Found report kargs.1 ↔ ∀ k ∈ kargs.1, NotOverridden init k) := by
  intro kargs final
  obtain ⟨report, hreport, hnote⟩ := audit_applied hr hinit disable32 nosmt unstable
  refine ⟨report, hreport, forall₂_congr fun k hk => ?_⟩
  obtain ⟨e, he, hiff⟩ := hnote k hk
  rw [← hiff]
  constructor
  · rintro ⟨e', he', hn⟩
    rwa [Option.some.inj (he'.symm.trans he)] at hn
  · exact fun hn => ⟨e, he, hn⟩

/-- The two options on a list of kernel arguments. -/
def rpmOstreeOption (o : Text) (l : List Text) : List Text :=
  match startsWith o "--append-if-missing=", startsWith o "--delete-if-present=" with
  | true, _ =>
    let k := removePrefix o "--append-if-missing="
    if k ∈ l then l else l ++ [k]
  | false, true => l.filter (· ≠ removePrefix o "--delete-if-present=")
  | false, false => l

theorem rpmOstreeOption_spec : RpmOstreeSpec rpmOstreeOption where
  appendIfMissing k l := by
    have hp : startsWith (appendArg k) "--append-if-missing=" = true :=
      startsWith_append ("--append-if-missing=" : Text) k
    have hk : removePrefix (appendArg k) "--append-if-missing=" = k :=
      removePrefix_append ("--append-if-missing=" : Text) k
    simp only [rpmOstreeOption, hp, hk]
  deleteIfPresent k l := by
    have hn : startsWith (deleteArg k) "--append-if-missing=" = false := rfl
    have hp : startsWith (deleteArg k) "--delete-if-present=" = true :=
      startsWith_append ("--delete-if-present=" : Text) k
    have hk : removePrefix (deleteArg k) "--delete-if-present=" = k :=
      removePrefix_append ("--delete-if-present=" : Text) k
    simp only [rpmOstreeOption, hn, hp, hk]

theorem applied_kargs_found_quiet :
    let kargs := buildKargsList .ostree .grub2 true false false
    let init : List Text := ["quiet", "lockdown=integrity", "pti=on"]
    let final := runCommand rpmOstreeOption (applyKargs .ostree .grub2 kargs.1 kargs.2) init
    ∃ report, auditKargs ([' '].intercalate final) = .ok report ∧
      (Found report kargs.1 ↔ ∀ k ∈ kargs.1, NotOverridden init k) :=
  applied_kargs_found_iff rpmOstreeOption_spec (by decide +kernel) true false false

/-- `lockdown=none` behind an earlier `lockdown=confidentiality`. -/
def overriddenLockdown : List Text := ["lockdown=confidentiality", "lockdown=none"]

/-- The setter appends nothing for the overridden argument, and the audit still misses it. -/
theorem overridden_karg_reported :
    let kargs := buildKargsList .ostree .grub2 false false false
    let final := runCommand rpmOstreeOption (applyKargs .ostree .grub2 kargs.1 kargs.2)
      overriddenLockdown
    ∃ report, auditKargs ([' '].intercalate final) = .ok report ∧ ¬ Found report kargs.1 := by
  intro kargs final
  have hinit : ∀ t ∈ overriddenLockdown, t ≠ [] ∧ Plain t := by decide +kernel
  have hk : ("lockdown=confidentiality" : Text) ∈ kargs.1 := by decide +kernel
  have hover : ¬ NotOverridden overriddenLockdown ("lockdown=confidentiality" : Text) := by
    decide +kernel
  obtain ⟨report, hreport, hnote⟩ := audit_applied rpmOstreeOption_spec hinit false false false
  refine ⟨report, hreport, fun hfound => ?_⟩
  obtain ⟨e, he, hiff⟩ := hnote _ hk
  obtain ⟨e', he', hn⟩ := hfound _ hk
  rw [Option.some.inj (he'.symm.trans he)] at hn
  exact hover (hiff.mp hn)

end Kargs
