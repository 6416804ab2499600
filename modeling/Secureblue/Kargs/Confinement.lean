import Secureblue.Kargs.UkiAddons

/-! Where the privileged worker of `inner/set_kargs_uki.py` creates, overwrites and deletes files.

    The arguments to add are checked against the available addons; those to remove are not, and their
    text goes into a path: `../x` leads out of the addons directory. `main_confined_iff` says exactly
    when the steps that are reached stay inside; the first that raises, such as one whose name the
    system refuses, is the last. -/

namespace Kargs.Uki
open Py FileSystem Path Kargs.Uki.Script

/-! ### The steps of a request -/

/-- A change that the worker makes to the file system. -/
inductive FileOp where
  | mkdir
  | load (karg : Text)
  | unload (karg : Text)

/-- The addon that is copied. -/
def source (karg : Text) : Path := availAddonsPath.join (addonFromKarg karg)

/-- Where it is copied to. -/
def destination (karg : Text) : Path := loadedAddonsPath ++ [(source karg).getLast?.getD []]

/-- The addon that is deleted. -/
def target (karg : Text) : Path := loadedAddonsPath.join (addonFromKarg karg)

def FileOp.apply (fs : FileSystem) : FileOp → Except Exn FileSystem
  | .mkdir => fs.mkdir loadedAddonsPath
  | .load karg => fs.copyInto (source karg) loadedAddonsPath
  | .unload karg => fs.unlink (target karg)

/-- Changes one after another, until one raises. -/
def run (fs : FileSystem) : List FileOp → Except Exn Unit × FileSystem
  | [] => (.ok (), fs)
  | op :: ops =>
    match op.apply fs with
    | .ok fs' => run fs' ops
    | .error e => (.error e, fs)

/-- The changes that are reached, each with the file system it finds. -/
def steps (fs : FileSystem) : List FileOp → List (FileOp × FileSystem)
  | [] => []
  | op :: ops => (op, fs) ::
    match op.apply fs with
    | .ok fs' => steps fs' ops
    | .error _ => []

/-- `add_kargs` -/
def addOps (kargs : List Text) : List FileOp := .mkdir :: kargs.map .load

/-- `remove_kargs` -/
def removeOps (kargs : List Text) : List FileOp := kargs.map .unload

/-- `main` -/
def mainOps (request : SetKargs) (w : World) : List FileOp :=
  match (exec getAvailKargs w).1 with
  | .ok availKargs =>
    if request.add.toFinset \ availKargs ≠ ∅ then [] else addOps request.add ++ removeOps request.remove
  | .error _ => []

/-- The steps of `main` on a request. -/
def mainSteps (request : SetKargs) (w : World) : List (FileOp × FileSystem) :=
  steps w.fs (mainOps request w)

/-! ### Files -/

/-- The files that a change creates, overwrites or deletes. -/
def FileOp.Touches (fs : FileSystem) : FileOp → Path → Prop
  | .mkdir, _ => False
  | .load karg, p => ∃ s d r, fs.resolve (source karg) = .ok s ∧ fs.resolve (destination karg) = .ok d ∧
      fs.copyError s d = none ∧ p = d ++ r ∧ (fs.file (s ++ r)).isSome
  | .unload karg, p => fs.resolve (target karg) = .ok p ∧ (fs.file p).isSome

/-- The files that `main` creates, overwrites or deletes. -/
def Touched (request : SetKargs) (w : World) (p : Path) : Prop :=
  ∃ step ∈ mainSteps request w, step.1.Touches step.2 p

/-- A direct child of the addons directory that is named as an addon. -/
def Confined (p : Path) : Prop := ∃ name, p = loadedAddonsPath ++ [name] ∧ endsWith name addonSuffix

/-- The addon to load is no directory with a file in it, unless its name is taken; the path of the
    addon to unload, with each `..` worked out, is directly in the addons directory, or has no file. -/
def FileOp.Contained (fs : FileSystem) : FileOp → Prop
  | .mkdir => True
  | .load karg => (fs.get (destination karg)).isSome ∨
      ∀ s, fs.resolve (source karg) = .ok s → ∀ r, (fs.file (s ++ r)).isSome → r = []
  | .unload karg => (normalize (target karg)).dropLast = loadedAddonsPath ∨
      ∀ p, fs.resolve (target karg) = .ok p → fs.file p = none

/-! ### The names -/

theorem join_addonFromKarg (dir : Path) (karg : Text) :
    ∃ front rest, dir.join (addonFromKarg karg) = front ++ [rest ++ addonSuffix] :=
  Path.join_append dir _ (by decide) (by decide) (by decide)

theorem suffixed_ne (rest : Text) {t : Text} (ht : t.length < 10) : rest ++ addonSuffix ≠ t := by
  rintro rfl
  rw [List.length_append] at ht
  exact absurd ht (Nat.not_lt.mpr (Nat.le_add_left ..))

theorem suffixed_ne_up (rest : Text) : rest ++ addonSuffix ≠ up := suffixed_ne rest (by decide)

theorem suffixed_not_mem (rest : Text) : rest ++ addonSuffix ∉ loadedAddonsPath := by
  intro h
  have hshort : ∀ c ∈ loadedAddonsPath, c.length < 10 := by decide
  exact suffixed_ne rest (hshort _ h) rfl

theorem endsWith_suffixed (rest : Text) : endsWith (rest ++ addonSuffix) addonSuffix :=
  endsWith_iff.mpr (List.suffix_append ..)

theorem normalize_loaded : normalize loadedAddonsPath = loadedAddonsPath := by decide

theorem normalize_destination {karg rest : Text}
    (h : destination karg = loadedAddonsPath ++ [rest ++ addonSuffix]) :
    normalize (destination karg) = loadedAddonsPath ++ [rest ++ addonSuffix] := by
  rw [h, normalize_concat _ (suffixed_ne_up rest), normalize_loaded]

/-- An addon keeps its name when it is copied. -/
theorem source_destination (karg : Text) : ∃ front rest,
    source karg = front ++ [rest ++ addonSuffix] ∧
      destination karg = loadedAddonsPath ++ [rest ++ addonSuffix] := by
  obtain ⟨front, rest, h⟩ := join_addonFromKarg availAddonsPath karg
  refine ⟨front, rest, h, ?_⟩
  rw [destination, show source karg = _ from h, List.getLast?_concat, Option.getD_some]

theorem confined_append {rest : Text} {r : Path} :
    Confined (loadedAddonsPath ++ [rest ++ addonSuffix] ++ r) ↔ r = [] := by
  constructor
  · rintro ⟨name, h, -⟩
    rw [List.append_assoc] at h
    exact (List.cons.inj (List.append_cancel_left h)).2
  · rintro rfl
    exact ⟨_, List.append_nil _, endsWith_suffixed rest⟩

/-! ### One step -/

/-- What a copy does, in its own terms. -/
theorem load_eq_ok {karg : Text} {fs fs' : FileSystem} (h : (FileOp.load karg).apply fs = .ok fs') :
    fs.copy (source karg) (destination karg) = .ok fs' := by
  obtain ⟨front, rest, hs, hd⟩ := source_destination karg
  rw [hd, hs]
  rwa [FileOp.apply, copyInto, hs, List.getLast?_concat] at h

/-- The addons directory stays, and `mkdir` leaves it. -/
theorem apply_dir {fs fs' : FileSystem} : ∀ {op : FileOp}, op.apply fs = .ok fs' →
    fs.get loadedAddonsPath = some .dir ∨ op = .mkdir → fs'.get loadedAddonsPath = some .dir
  | .mkdir, h, _ => normalize_loaded ▸ (fs.mkdir_eq_ok h).1
  | .load karg, h, hdir => by
      obtain ⟨front, rest, hs, hd⟩ := source_destination karg
      obtain ⟨s, d, -, hres, hnone, rfl⟩ := fs.copy_eq_ok (load_eq_ok h)
      have hout : ¬ d <+: loadedAddonsPath := by
        rw [fs.resolve_eq_ok hres, normalize_destination hd]
        exact fun hpre => suffixed_not_mem rest (hpre.subset (by simp))
      exact (fs.get_graftNodes_outside hout).trans (hdir.resolve_right nofun)
  | .unload karg, h, hdir => by
      have hdir := hdir.resolve_right nofun
      rcases fs.unlink_eq_ok h with rfl | ⟨q, -, hfile, hget⟩
      · exact hdir
      · rw [hget, if_neg ?_, hdir]
        rintro rfl
        rw [fs.file_dir hdir] at hfile
        exact absurd hfile (by simp)

/-- A regular file that a change does not touch stays as it is. -/
theorem apply_frame {fs fs' : FileSystem} {p : Path} : ∀ {op : FileOp}, op.apply fs = .ok fs' →
    fs'.file p ≠ fs.file p → op.Touches fs p
  | .mkdir, h, hne => hne ((fs.mkdir_eq_ok h).2 p)
  | .load karg, h, hne => by
      obtain ⟨s, d, hs, hd, hnone, rfl⟩ := fs.copy_eq_ok (load_eq_ok h)
      obtain ⟨r, hr, hfile⟩ := fs.graft_file hne
      exact ⟨s, d, r, hs, hd, hnone, hr, hfile⟩
  | .unload karg, h, hne => by
      rcases fs.unlink_eq_ok h with rfl | ⟨q, hq, hfile, hget⟩
      · exact absurd rfl hne
      · rcases eq_or_ne p q with rfl | hp
        · exact ⟨hq, hfile⟩
        · exact absurd (file_congr (by rw [hget, if_neg hp])) hne

theorem load_confined_iff {fs : FileSystem} (hdir : fs.get loadedAddonsPath = some .dir) (karg : Text) :
    (∀ p, (FileOp.load karg).Touches fs p → Confined p) ↔ (FileOp.load karg).Contained fs := by
  obtain ⟨front, rest, hsrc, hdst⟩ := source_destination karg
  constructor
  · intro h
    rw [FileOp.Contained, or_iff_not_imp_left, Option.not_isSome_iff_eq_none]
    intro hfree s hs r hfile
    have hsome : (fs.get s).isSome := by
      obtain ⟨content, hcontent⟩ := Option.isSome_iff_exists.mp hfile
      rw [file_eq_some] at hcontent
      rcases eq_or_ne r [] with rfl | hr
      · rw [← List.append_nil s, hcontent]
        rfl
      · rw [fs.get_ancestor hcontent hr]
        rfl
    have hpre : ¬ s <+: destination karg := by
      intro hpre
      obtain rfl := fs.resolve_eq_ok hs
      rw [hdst] at hpre hfree
      rcases List.prefix_concat_iff.mp hpre with he | hpre
      · rw [he, hfree] at hsome
        exact absurd hsome (by simp)
      · rw [hsrc, normalize_concat _ (suffixed_ne_up rest)] at hpre
        exact suffixed_not_mem rest (hpre.subset (by simp))
    -- the name has been stored with the source, so it can be at the destination
    obtain ⟨n, hn⟩ : ∃ n, fs.get (normalize front ++ [rest ++ addonSuffix]) = some n := by
      rw [← normalize_concat _ (suffixed_ne_up rest), ← hsrc, ← fs.resolve_eq_ok hs]
      exact Option.isSome_iff_exists.mp hsome
    have hname : fs.Stores (loadedAddonsPath ++ [rest ++ addonSuffix]) :=
      fs.stores_concat.mpr (fs.stored hn)
    have haccepts : fs.Accepts (loadedAddonsPath ++ [rest ++ addonSuffix]) :=
      fs.accepts_of_get hn (fs.accepts_of_short (by decide +kernel) (by decide +kernel)) (by decide +kernel)
    have hres : fs.resolve (destination karg) = .ok (loadedAddonsPath ++ [rest ++ addonSuffix]) := by
      rw [hdst, fs.resolve_child hdir (by decide) (suffixed_ne_up rest) haccepts]
    have hnone : fs.copyError s (destination karg) = none := by
      rw [copyError, if_neg hpre, hfree, hdst, List.dropLast_concat, hdir, if_pos rfl, if_pos hname]
      rcases hg : fs.get s with _ | _ | _
      · rw [hg] at hsome
        exact absurd hsome (by simp)
      · rfl
      · rfl
    have hc := h _ ⟨s, _, r, hs, hres, hdst ▸ hnone, rfl, hfile⟩
    exact confined_append.mp hc
  · rintro h p ⟨s, d, r, hs, hd, hnone, rfl, hfile⟩
    obtain rfl : d = loadedAddonsPath ++ [rest ++ addonSuffix] :=
      (fs.resolve_eq_ok hd).trans (normalize_destination hdst)
    refine confined_append.mpr ?_
    rcases h with htaken | hleaf
    · by_contra hr
      obtain ⟨content, hcontent⟩ := Option.isSome_iff_exists.mp hfile
      rw [file_eq_some] at hcontent
      rw [hdst, (fs.copyError_eq_none hnone).2.2 (fs.get_ancestor hcontent hr)] at htaken
      exact absurd htaken (by simp)
    · exact hleaf s hs r hfile

theorem unload_confined_iff (fs : FileSystem) (karg : Text) :
    (∀ p, (FileOp.unload karg).Touches fs p → Confined p) ↔ (FileOp.unload karg).Contained fs := by
  obtain ⟨front, rest, h⟩ := join_addonFromKarg loadedAddonsPath karg
  have htarget : normalize (target karg) = normalize front ++ [rest ++ addonSuffix] := by
    rw [target, h, normalize_concat _ (suffixed_ne_up rest)]
  constructor
  · intro hall
    rw [FileOp.Contained, or_iff_not_imp_left]
    intro hout p hp
    by_contra hfile
    obtain ⟨name, hname, -⟩ := hall p ⟨hp, Option.ne_none_iff_isSome.mp hfile⟩
    rw [← fs.resolve_eq_ok hp, hname, List.dropLast_concat] at hout
    exact hout rfl
  · rintro hcontained p ⟨hp, hfile⟩
    rcases hcontained with hin | hnone
    · rw [fs.resolve_eq_ok hp]
      rw [htarget, List.dropLast_concat] at hin
      exact ⟨_, by rw [htarget, hin], endsWith_suffixed rest⟩
    · rw [hnone p hp] at hfile
      exact absurd hfile (by simp)

/-- One change stays inside exactly when it is contained. -/
theorem touches_confined_iff {fs : FileSystem} : ∀ {op : FileOp},
    fs.get loadedAddonsPath = some .dir ∨ op = .mkdir →
      ((∀ p, op.Touches fs p → Confined p) ↔ op.Contained fs)
  | .mkdir, _ => ⟨fun _ => trivial, fun _ _ => False.elim⟩
  | .load karg, hdir => load_confined_iff (hdir.resolve_right nofun) karg
  | .unload karg, _ => unload_confined_iff fs karg

/-! ### All steps -/

theorem steps_frame {p : Path} : ∀ {ops : List FileOp} {fs : FileSystem},
    (run fs ops).2.file p ≠ fs.file p → ∃ step ∈ steps fs ops, step.1.Touches step.2 p
  | [], _, h => absurd rfl h
  | op :: ops, fs, h => by
      rw [run] at h
      rw [steps]
      split at h
      · next fs' hop =>
        rcases eq_or_ne (fs'.file p) (fs.file p) with he | hne
        · rw [← he] at h
          obtain ⟨step, hstep, htouches⟩ := steps_frame h
          exact ⟨step, List.mem_cons_of_mem _ hstep, htouches⟩
        · exact ⟨_, List.mem_cons_self, apply_frame hop hne⟩
      · exact absurd rfl h

/-- From the creation of the addons directory on, every change finds it. -/
theorem steps_dir : ∀ {ops : List FileOp} {fs : FileSystem},
    fs.get loadedAddonsPath = some .dir ∨ ops.head? = some .mkdir →
      ∀ step ∈ steps fs ops, step.2.get loadedAddonsPath = some .dir ∨ step.1 = .mkdir
  | [], _, _, _, hstep => absurd hstep List.not_mem_nil
  | op :: ops, fs, h, step, hstep => by
      have hop : fs.get loadedAddonsPath = some .dir ∨ op = .mkdir := h.imp_right Option.some.inj
      rw [steps] at hstep
      rcases List.mem_cons.mp hstep with rfl | hstep
      · exact hop
      · split at hstep
        · next fs' hfs' => exact steps_dir (.inl (apply_dir hfs' hop)) step hstep
        · exact absurd hstep List.not_mem_nil

theorem run_append (ops' : List FileOp) : ∀ (ops : List FileOp) (fs : FileSystem),
    run fs (ops ++ ops') = match run fs ops with
      | (.ok _, fs') => run fs' ops'
      | (.error e, fs') => (.error e, fs')
  | [], _ => rfl
  | op :: ops, fs => by
      rw [List.cons_append, run, run]
      split
      · exact run_append ops' ops _
      · rfl

/-! ### The worker -/

theorem exec_bind_error {α β : Type} {m : Script α} {f : α → Script β} {w w' : World} {e : Exn}
    (h : exec m w = (.error e, w')) : exec (m >>= f) w = (.error e, w') := by
  simp only [exec, ExceptT.run_bind, StateT.run_bind] at h ⊢
  rw [h]
  rfl

/-- A loop over the changes is their run. -/
theorem exec_ops : ∀ (ops : List FileOp) (w : World),
    exec (forM ops fun op => onFs fun fs => op.apply fs) w
      = ((run w.fs ops).1, { w with fs := (run w.fs ops).2 })
  | [], _ => rfl
  | op :: ops, w => by
      rw [run, List.forM_cons]
      split
      · next fs' h => exact (exec_bind (exec_onFs h)).trans (exec_ops ops { w with fs := fs' })
      · next e h =>
        refine exec_bind_error ?_
        have hop : exec (liftM (op.apply w.fs) : Script FileSystem) w = (.error e, w) := by rw [h]; rfl
        exact (exec_bind (m := get) rfl).trans (exec_bind_error hop)

theorem addKargs_eq (kargs : List Text) :
    addKargs kargs = forM (addOps kargs) fun op => onFs fun fs => op.apply fs := by
  rw [addKargs, addOps, List.forM_cons, List.forM_map, List.forM_map]
  rfl

theorem removeKargs_eq (kargs : List Text) :
    removeKargs kargs = forM (removeOps kargs) fun op => onFs fun fs => op.apply fs := by
  rw [removeKargs, removeOps, List.forM_map, List.forM_map]
  rfl

/-- What `main` leaves is what its changes leave: the rest of it only looks and prints. -/
theorem exec_main_fs (request : SetKargs) (w : World) :
    (exec (main request) w).2.fs = (run w.fs (mainOps request w)).2 := by
  obtain ⟨avail, havail, -⟩ := exec_getKargs availAddonsPath w
  change exec getAvailKargs w = _ at havail
  rw [mainOps, havail, main, exec_bind havail]
  dsimp only
  split
  · rfl
  · rw [addKargs_eq, removeKargs_eq, run_append]
    have hadd := exec_ops (addOps request.add) w
    rcases hrun : run w.fs (addOps request.add) with ⟨_ | _, mid⟩ <;> rw [hrun] at hadd
    · rw [exec_bind_error hadd]
    · rw [exec_bind hadd]
      have hremove := exec_ops (removeOps request.remove) { w with fs := mid }
      dsimp only at hremove ⊢
      rcases hrun' : run mid (removeOps request.remove) with ⟨_ | _, fs'⟩ <;> rw [hrun'] at hremove
      · rw [exec_bind_error hremove]
      · rw [exec_bind hremove]
        obtain ⟨loaded, hloaded, -⟩ := exec_getKargs loadedAddonsPath { w with fs := fs' }
        change exec getLoadedKargs _ = _ at hloaded
        rw [exec_bind hloaded]
        dsimp only
        split <;> split <;> rfl

theorem mainSteps_dir (request : SetKargs) (w : World) : ∀ step ∈ mainSteps request w,
    step.2.get loadedAddonsPath = some .dir ∨ step.1 = .mkdir := by
  obtain ⟨avail, havail, -⟩ := exec_getKargs availAddonsPath w
  change exec getAvailKargs w = _ at havail
  rw [mainSteps, mainOps, havail]
  dsimp only
  split
  · exact fun step h => absurd h List.not_mem_nil
  · exact steps_dir (.inr rfl)

/-- CORRECT: a regular file that is not the same after the worker as before was touched by one of its
    steps; these touch addons of the addons directory only, exactly when each step is contained. -/
theorem main_confined_iff (request : SetKargs) (w : World) :
    (∀ p, (exec (main request) w).2.fs.file p ≠ w.fs.file p → Touched request w p) ∧
    ((∀ p, Touched request w p → Confined p) ↔
      ∀ step ∈ mainSteps request w, step.1.Contained step.2) := by
  refine ⟨fun p hp => ?_, ?_⟩
  · rw [exec_main_fs] at hp
    exact steps_frame hp
  · constructor
    · intro h step hstep
      exact (touches_confined_iff (mainSteps_dir request w step hstep)).mp fun p hp =>
        h p ⟨step, hstep, hp⟩
    · rintro h p ⟨step, hstep, hp⟩
      exact (touches_confined_iff (mainSteps_dir request w step hstep)).mpr (h step hstep) p hp

/-- The addons directory is empty; a file named as an addon is beside it. -/
def besideAddons : FileSystem := ofNodes (Dict.ofList [([], .dir), (["boot"], .dir),
  (["boot", "loader"], .dir), (loadedAddonsPath, .dir),
  (["boot", "loader", "x.addon.efi"], .file [1])]) (by decide +kernel) (by decide +kernel)

/-- A name that the system refuses ends the worker before the rest of the request. -/
example : (run besideAddons (removeOps [List.replicate 300 'a', "../x"])).1 = .error .osError := by decide +kernel

/-- Removing `../x` deletes the file beside the addons directory. -/
theorem main_escapes :
    let request : SetKargs := ⟨[], ["../x"]⟩
    let w : World := ⟨besideAddons, []⟩
    let p : Path := ["boot", "loader", "x.addon.efi"]
    (w.fs.file p).isSome ∧ (exec (main request) w).2.fs.file p = none ∧
      ¬ ∀ q, Touched request w q → Confined q := by
  intro request w p
  have hbefore : (w.fs.file p).isSome := by decide +kernel
  have hafter : (exec (main request) w).2.fs.file p = none := by
    rw [exec_main_fs]
    decide +kernel
  refine ⟨hbefore, hafter, fun h => ?_⟩
  have htouched : Touched request w p := by
    refine steps_frame ?_
    rw [← exec_main_fs, hafter]
    exact (Option.ne_none_iff_isSome.mpr hbefore).symm
  obtain ⟨name, hname, -⟩ := h p htouched
  have hlen := congrArg List.length hname
  rw [List.length_append, List.length_singleton] at hlen
  exact absurd hlen (by decide)

end Kargs.Uki
