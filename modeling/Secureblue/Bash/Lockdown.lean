import Secureblue.Auditor.Report
import Secureblue.FileTree
import Secureblue.Py.Bytes
import Secureblue.Run

/-! Locking the bash environment (`toggle-bash-environment-lockdown`), and the audit of the lock
    (`audit_bash_env_lockdown`).

    What is there before goes to a directory that is named after the time of the run. Where something is
    already there, `mv` writes over it or puts the file into it. -/

namespace Bash.Lockdown
open FileTree
open Py (Text Bytes)

/-- A path below the home directory. -/
abbrev Path := List Text

/-- The home directory. -/
abbrev Home := Tree Text Bytes

/-! ### The paths -/

def bashrc : Path := [".bashrc"]

/-- `BASH_ENV_FILES` -/
def bashEnvFiles : List Path :=
  [bashrc, [".bash_profile"], [".profile"], [".bash_logout"], [".bash_login"], [".config", "bash_completion"]]

/-- `BASH_ENV_DIRS` -/
def bashEnvDirs : List Path := [[".bashrc.d"], [".config", "environment.d"]]

def envPaths : List Path := bashEnvFiles ++ bashEnvDirs

/-- The name of the directory of all backups. -/
def backups : Text := "bash_env_files"

def backupDest (currentTime : Text) : Path := [backups, currentTime]

def backupFile (currentTime : Text) (envPath : Path) : Path := backupDest currentTime ++ envPath

/-! ### The script -/

inductive Pending where | locked | unlocked
  deriving DecidableEq

/-- Whether the attributes that `lsattr` lists have an `i`: of a file, or of what is in a directory and not
    hidden. -/
def lsattr (home : Home) (path : Path) : List Bool :=
  match home.node path with
  | none => []
  | some (.file _) => [home.immutable path]
  | some .dir =>
    (home.paths.filter fun p => p.dropLast = path ∧ p.getLast?.any fun name => name.head? ≠ some '.').map
      home.immutable

def pendingStatus (home : Home) : Pending := if true ∈ lsattr home bashrc then .unlocked else .locked

def existingPaths (home : Home) : List Path := envPaths.filter fun envPath => (home.node envPath).isSome

/-- `run0 chattr -R -i`, if there is anything. -/
def unlock (home : Home) : Option Home :=
  if existingPaths home ≠ [] then home.chattr false (existingPaths home) else some home

/-- The backup of one path. -/
def backup (currentTime : Text) (home : Home) (envPath : Path) : Option Home :=
  if (home.node envPath).isSome then
    (home.mkdirs (backupFile currentTime envPath).dropLast).bind fun home =>
      home.mv envPath (backupFile currentTime envPath)
  else some home

/-- The contents of `origin_path`: a file below /etc/skel, or else /dev/null. -/
def origin (skel : Path → Option Bytes) (envPath : Path) : Bytes := (skel envPath).getD []

def lock (currentTime : Text) (skel : Path → Option Bytes) (home : Home) : Option Home := do
  let home ← home.mkdirs (backupDest currentTime)
  let home ← envPaths.foldlM (backup currentTime) home
  let home ← bashEnvDirs.foldlM Tree.mkdirs home
  let home ← bashEnvFiles.foldlM (fun home envPath => home.install (origin skel envPath) envPath) home
  home.chattr true envPaths

/-- `toggle-bash-environment-lockdown` with approval, or `none` where a command fails. -/
def toggleBashEnvironmentLockdown (currentTime : Text) (skel : Path → Option Bytes) (home : Home) :
    Option (Pending × Home) :=
  if home.node [] = some .dir then
    (unlock home).bind fun unlocked => match pendingStatus home with
      | .locked => (lock currentTime skel unlocked).map fun locked => (.locked, locked)
      | .unlocked => some (.unlocked, unlocked)
  else none

/-! ### The audit -/

/-- `bash_env_paths` -/
def bashEnvPaths : List Path :=
  [bashrc, [".bash_profile"], [".profile"], [".bash_logout"], [".bash_login"], [".bashrc.d"],
    [".config", "bash_completion"], [".config", "environment.d"]]

/-- The paths that are missing or not immutable. -/
def unlockedFiles (home : Home) : List Path :=
  bashEnvPaths.filter fun path => !((home.node path).isSome && home.immutable path)

/-- `str(path)` -/
def pathText (homeDir : Text) (path : Path) : Text := homeDir ++ path.flatMap fun name => '/' :: name

/-- `rec_lines` -/
def recLines (homeDir : Text) (paths : List Path) : List Text :=
  ("Bash environment is not locked down." : Text) ::
    ("The following files do not appear to be immutable or do not exist:" : Text) ::
    paths.map (pathText homeDir) ++
    ([("To fix this, run:" : Text), ("$ ujust toggle-bash-environment-lockdown" : Text)] : List Text)

def auditBashEnvLockdown (homeDir : Text) (home : Home) : Auditor.Report where
  description := "Ensuring current user's bash environment is locked down"
  status := if unlockedFiles home ≠ [] then .fail else .pass
  notes := []
  recs :=
    if unlockedFiles home ≠ [] then [⟨['\n'].intercalate (recLines homeDir (unlockedFiles home)), none⟩]
    else []

/-! ### What a run should do -/

/-- All is locked; what was there is in the backup, and nothing else is lost. -/
structure Preserves (currentTime : Text) (before after : Home) : Prop where
  locked : ∀ path ∈ bashEnvPaths, (after.node path).isSome ∧ after.immutable path
  audit : ∀ homeDir, (auditBashEnvLockdown homeDir after).status = .pass
  preserved : ∀ envPath ∈ envPaths, (before.node envPath).isSome →
    ∀ r, after.node (backupFile currentTime envPath ++ r) = before.node (envPath ++ r)
  kept : ∀ path n, before.node path = some n → (∀ envPath ∈ envPaths, ¬envPath <+: path) →
    after.node path = some n

/-- For all that is there, there is nothing in its place in the backup, or the same file. -/
def Vacant (currentTime : Text) (home : Home) : Prop :=
  ∀ envPath ∈ envPaths, ∀ n, home.node envPath = some n →
    home.node (backupFile currentTime envPath) = none ∨
      home.node (backupFile currentTime envPath) = some n ∧ n ≠ .dir

/-! ### Paths that have nothing to do with each other -/

/-- Neither is below the other. -/
def Apart (p q : Path) : Prop := ¬p <+: q ∧ ¬q <+: p

section
variable {currentTime : Text} {p q r : Path}

theorem bashEnvPaths_subset : bashEnvPaths ⊆ envPaths := by decide

theorem pairwise_apart : envPaths.Pairwise Apart := by
  unfold Apart
  decide +kernel

/-- No path of the environment is below or above the backups. -/
theorem head_ne {envPath : Path} (h : envPath ∈ envPaths) :
    ∃ name rest, envPath = name :: rest ∧ name ≠ backups := by
  have hall : ∀ envPath ∈ envPaths, envPath.head?.any fun name => name ≠ backups := by decide +kernel
  have hany := hall envPath h
  cases envPath with
  | nil => cases hany
  | cons name rest => exact ⟨name, rest, rfl, by simpa using hany⟩

theorem ne_nil (hp : p ∈ envPaths) : p ≠ [] := by
  obtain ⟨name, rest, rfl, -⟩ := head_ne hp
  exact List.cons_ne_nil name rest

theorem not_prefix_backups (hp : p ∈ envPaths) {l : Path} : ¬p <+: backups :: l := by
  obtain ⟨name, rest, rfl, hname⟩ := head_ne hp
  exact fun hpre => hname (List.cons_prefix_cons.mp hpre).1

theorem backups_not_prefix (hp : p ∈ envPaths) {l : Path} (r : Path) : ¬backups :: l <+: p ++ r := by
  obtain ⟨name, rest, rfl, hname⟩ := head_ne hp
  exact fun hpre => hname (List.cons_prefix_cons.mp hpre).1.symm

/-- What the backup of a path leaves alone. -/
structure Clear (currentTime : Text) (envPath q : Path) : Prop where
  source : ¬envPath <+: q
  target : ¬backupFile currentTime envPath <+: q
  above : ¬q <+: (backupFile currentTime envPath).dropLast

theorem Apart.symm (h : Apart p q) : Apart q p := And.symm h

theorem Apart.not_prefix (h : Apart p q) (r : Path) : ¬p <+: q ++ r := fun hp =>
  (List.prefix_or_prefix_of_prefix hp (List.prefix_append q r)).elim h.1 h.2

theorem clear_source (hq : q ∈ envPaths) (h : Apart p q) (r : Path) :
    Clear currentTime p (q ++ r) := by
  refine ⟨h.not_prefix r, backups_not_prefix hq r, fun hpre => ?_⟩
  have hq' : q <+: backupFile currentTime p := (List.prefix_append q r).trans (hpre.trans (List.dropLast_prefix _))
  exact not_prefix_backups hq hq'

theorem clear_target (hp : p ∈ envPaths) (h : Apart p q) (r : Path) :
    Clear currentTime p (backupFile currentTime q ++ r) := by
  have hapart : Apart (backupFile currentTime p) (backupFile currentTime q) :=
    ⟨fun hpre => h.1 ((List.prefix_append_right_inj _).mp hpre),
      fun hpre => h.2 ((List.prefix_append_right_inj _).mp hpre)⟩
  refine ⟨not_prefix_backups hp, hapart.not_prefix r, fun hpre => hapart.2 ?_⟩
  exact (List.prefix_append _ r).trans (hpre.trans (List.dropLast_prefix _))

/-! ### One backup -/

/-- What the backup of a path that is there does. -/
structure Moved (currentTime : Text) (p : Path) (home home' : Home) : Prop where
  moved : home.node (backupFile currentTime p) ≠ some .dir →
    ∀ r, home'.node (backupFile currentTime p ++ r) = home.node (p ++ r)
  nested : home.node (backupFile currentTime p) = some .dir → home'.node (backupFile currentTime p) = some .dir ∧
    ∃ name, ∀ r, home'.node (backupFile currentTime p ++ name :: r) = home.node (p ++ r)
  kind : ∀ content, home.node (backupFile currentTime p) = some (.file content) → home.node p ≠ some .dir
  clear : ∀ q, Clear currentTime p q → home'.node q = home.node q
  kept : ∀ q n, home.node q = some n → ¬p <+: q → ¬backupFile currentTime p <+: q → home'.node q = some n

variable {home home' : Home}

theorem not_prefix_dropLast (r : Path) :
    ¬backupFile currentTime p ++ r <+: (backupFile currentTime p).dropLast := by
  intro h
  have hle := h.length_le
  simp [backupFile, backupDest] at hle

theorem moved_backup (hp : p ∈ envPaths) (hsome : (home.node p).isSome)
    (h : backup currentTime home p = some home') : Moved currentTime p home home' := by
  rw [backup, if_pos hsome] at h
  obtain ⟨u, hu, hmv⟩ := Option.bind_eq_some_iff.mp h
  have hmade := Tree.made_mkdirs hu
  have hup : ∀ r, u.node (p ++ r) = home.node (p ++ r) := fun r => hmade.same _ fun hmem =>
    not_prefix_backups hp
      ((List.prefix_append p r).trans (((List.mem_inits _ _).mp hmem).trans (List.dropLast_prefix _)))
  have hub : ∀ r, u.node (backupFile currentTime p ++ r) = home.node (backupFile currentTime p ++ r) := fun r =>
    hmade.same _ fun hmem => not_prefix_dropLast r ((List.mem_inits _ _).mp hmem)
  have hub₀ : u.node (backupFile currentTime p) = home.node (backupFile currentTime p) := by simpa using hub []
  rw [Tree.mv, hub₀] at hmv
  obtain ⟨base, -, hmv⟩ := Option.bind_eq_some_iff.mp hmv
  have hnode := Tree.node_rename hmv
  have hkind := Tree.replaces_of_rename hmv
  have hrest : ∀ q, ¬p <+: q → ¬backupFile currentTime p <+: q → home'.node q = u.node q := by
    intro q hpq hbq
    have hdest : ¬(if home.node (backupFile currentTime p) = some .dir then backupFile currentTime p ++ [base]
        else backupFile currentTime p) <+: q := by
      split
      · exact fun hpre => hbq ((List.prefix_append _ _).trans hpre)
      · exact hbq
    rw [hnode, if_neg hdest, if_neg hpq]
  refine ⟨fun hdir r => ?_, fun hdir => ⟨?_, base, fun r => ?_⟩, fun content hfile hdir => ?_, fun q hq => ?_,
    fun q n hn hpq hbq => ?_⟩
  · rw [if_neg hdir] at hnode
    rw [hnode, if_pos (List.prefix_append _ r), List.drop_left, hup]
  · rw [if_pos hdir] at hnode
    have hlong : ¬backupFile currentTime p ++ [base] <+: backupFile currentTime p := fun hpre => by
      simpa using hpre.length_le
    have hself : ¬p <+: backupFile currentTime p := not_prefix_backups hp
    rw [hnode, if_neg hlong, if_neg hself, hub₀, hdir]
  · rw [if_pos hdir] at hnode
    rw [List.append_cons, hnode, if_pos (List.prefix_append _ r), List.drop_left, hup]
  · rw [if_neg (by rw [hfile]; simp), hub₀, hfile] at hkind
    have hup₀ : u.node p = home.node p := by simpa using hup []
    rw [hup₀, hdir] at hkind
    cases hkind
  · rw [hrest q hq.source hq.target]
    exact hmade.same q fun hmem => hq.above ((List.mem_inits _ _).mp hmem)
  · rw [hrest q hpq hbq]
    exact hmade.kept q n hn

/-! ### All backups -/

variable {ps : List Path}

/-- A path that is not there is left out. -/
theorem eq_of_backup_none (hnone : (home.node p).isSome = false) (h : backup currentTime home p = some home') :
    home' = home := by
  rw [backup, hnone, if_neg (by simp)] at h
  exact (Option.some.inj h).symm

theorem clear_backup (hp : p ∈ envPaths) (h : backup currentTime home p = some home')
    (hq : Clear currentTime p q) : home'.node q = home.node q := by
  cases hsome : (home.node p).isSome with
  | false => rw [eq_of_backup_none hsome h]
  | true => exact (moved_backup hp hsome h).clear q hq

theorem clear_backups (hps : ps ⊆ envPaths) (h : ps.foldlM (backup currentTime) home = some home')
    (hq : ∀ p ∈ ps, Clear currentTime p q) : home'.node q = home.node q :=
  Run.foldlM_invariant (I := fun u : Home => u.node q = home.node q)
    (fun p hp _ _ hu hn => (clear_backup (hps hp) hu (hq p hp)).trans hn) rfl h

/-- What no backup moves or meets is still there. -/
theorem kept_backups (hps : ps ⊆ envPaths) (hapart : ps.Pairwise Apart)
    (h : ps.foldlM (backup currentTime) home = some home') {n : Node Bytes} (hn : home.node q = some n)
    (hq : ∀ p ∈ ps, (home.node p).isSome → ¬p <+: q ∧ ¬backupFile currentTime p <+: q) :
    home'.node q = some n := by
  induction ps generalizing home with
  | nil =>
    obtain rfl := Option.some.inj h
    exact hn
  | cons p ps ih =>
    rw [List.foldlM_cons] at h
    obtain ⟨u, hu, h⟩ := Option.bind_eq_some_iff.mp h
    have hp := hps List.mem_cons_self
    obtain ⟨hhead, htail⟩ := List.pairwise_cons.mp hapart
    have hun : u.node q = some n := by
      cases hsome : (home.node p).isSome with
      | false => rw [eq_of_backup_none hsome hu, hn]
      | true =>
        obtain ⟨hpq, hbq⟩ := hq p List.mem_cons_self hsome
        exact (moved_backup hp hsome hu).kept q n hn hpq hbq
    refine ih (fun _ h => hps (List.mem_cons_of_mem p h)) htail h hun fun p' hp' hsome => ?_
    have hclear := @clear_source currentTime p p' (hps (List.mem_cons_of_mem p hp')) (hhead p' hp') []
    rw [List.append_nil] at hclear
    rw [clear_backup hp hu hclear] at hsome
    exact hq p' (List.mem_cons_of_mem p hp') hsome

/-- Each backup finds what was there at first, and stays as it is. -/
theorem moved_backups (hps : ps ⊆ envPaths) (hapart : ps.Pairwise Apart)
    (h : ps.foldlM (backup currentTime) home = some home') (hp : p ∈ ps) (hsome : (home.node p).isSome) :
    ∃ u v, Moved currentTime p u v ∧ (∀ r, u.node (p ++ r) = home.node (p ++ r)) ∧
      (∀ r, u.node (backupFile currentTime p ++ r) = home.node (backupFile currentTime p ++ r)) ∧
      ∀ r, home'.node (backupFile currentTime p ++ r) = v.node (backupFile currentTime p ++ r) := by
  obtain ⟨pre, post, rfl⟩ := List.append_of_mem hp
  rw [List.foldlM_append] at h
  obtain ⟨u, hu, h⟩ := Option.bind_eq_some_iff.mp h
  rw [List.foldlM_cons] at h
  obtain ⟨v, hv, h⟩ := Option.bind_eq_some_iff.mp h
  obtain ⟨-, hpost, hpre⟩ := List.pairwise_append.mp hapart
  have hpenv := hps hp
  have hpreenv : ∀ p' ∈ pre, p' ∈ envPaths := fun p' h => hps (List.mem_append_left _ h)
  have hpostenv : ∀ p' ∈ post, p' ∈ envPaths := fun p' h =>
    hps (List.mem_append_right _ (List.mem_cons_of_mem p h))
  have hapre : ∀ p' ∈ pre, Apart p' p := fun p' h => hpre p' h p List.mem_cons_self
  have hapost : ∀ p' ∈ post, Apart p' p := fun p' h => ((List.pairwise_cons.mp hpost).1 p' h).symm
  have hsource : ∀ r, u.node (p ++ r) = home.node (p ++ r) := fun r =>
    clear_backups hpreenv hu fun p' h => clear_source hpenv (hapre p' h) r
  have hsome' : (u.node p).isSome := by
    have h := hsource []
    rw [List.append_nil] at h
    rwa [h]
  refine ⟨u, v, moved_backup hpenv hsome' hv, hsource, fun r => ?_, fun r => ?_⟩
  · exact clear_backups hpreenv hu fun p' h => clear_target (hpreenv p' h) (hapre p' h) r
  · exact clear_backups hpostenv h fun p' h => clear_target (hpostenv p' h) (hapost p' h) r

/-! ### What is made anew -/

variable {skel : Path → Option Bytes}

/-- The directories and the files that are put in place. -/
def installAll (skel : Path → Option Bytes) (home : Home) : Option Home :=
  (bashEnvDirs.foldlM Tree.mkdirs home).bind fun home =>
    bashEnvFiles.foldlM (fun home envPath => home.install (origin skel envPath) envPath) home

/-- What no path of the environment is below stays. -/
theorem same_installAll (hq : ∀ p ∈ envPaths, ¬q <+: p) (h : installAll skel home = some home') :
    home'.node q = home.node q := by
  obtain ⟨u, hu, h⟩ := Option.bind_eq_some_iff.mp h
  have hdirs : u.node q = home.node q :=
    Run.foldlM_invariant (I := fun u : Home => u.node q = home.node q)
      (fun p hp _ _ hu hn => ((Tree.made_mkdirs hu).same q fun hmem =>
        hq p (List.mem_append_right _ hp) ((List.mem_inits _ _).mp hmem)).trans hn) rfl hu
  exact Run.foldlM_invariant (I := fun u : Home => u.node q = home.node q)
    (fun p hp _ _ hu hn => (Tree.node_install hu (hq p (List.mem_append_left _ hp))).trans hn) hdirs h

/-- And whatever was there, apart from these paths. -/
theorem kept_installAll (hq : q ∉ bashEnvFiles) {n : Node Bytes} (hn : home.node q = some n)
    (h : installAll skel home = some home') : home'.node q = some n := by
  obtain ⟨u, hu, h⟩ := Option.bind_eq_some_iff.mp h
  have hdirs : u.node q = some n :=
    Run.foldlM_invariant (I := fun u : Home => u.node q = some n)
      (fun p hp _ _ hu hn => (Tree.made_mkdirs hu).kept q n hn) hn hu
  exact Run.foldlM_invariant (I := fun u : Home => u.node q = some n)
    (fun p hp _ _ hu hn => Tree.kept_install hu (ne_of_mem_of_not_mem hp hq).symm hn) hdirs h

/-! ### A locking run -/

theorem lock_eq_some (h : lock currentTime skel home = some home') :
    ∃ u v w, home.mkdirs (backupDest currentTime) = some u ∧ envPaths.foldlM (backup currentTime) u = some v ∧
      installAll skel v = some w ∧ w.chattr true envPaths = some home' := by
  obtain ⟨u, hu, h⟩ := Option.bind_eq_some_iff.mp h
  obtain ⟨v, hv, h⟩ := Option.bind_eq_some_iff.mp h
  obtain ⟨x, hx, h⟩ := Option.bind_eq_some_iff.mp h
  obtain ⟨w, hw, h⟩ := Option.bind_eq_some_iff.mp h
  exact ⟨u, v, w, hu, hv, Option.bind_eq_some_iff.mpr ⟨x, hx, hw⟩, h⟩

theorem node_unlock (h : unlock home = some home') (q : Path) : home'.node q = home.node q := by
  rw [unlock] at h
  split at h
  · exact Tree.node_chattr h q
  · rw [Option.some.inj h]

theorem toggle_locked (h : toggleBashEnvironmentLockdown currentTime skel home = some (.locked, home')) :
    ∃ u, unlock home = some u ∧ lock currentTime skel u = some home' := by
  rw [toggleBashEnvironmentLockdown] at h
  split at h
  · obtain ⟨u, hu, h⟩ := Option.bind_eq_some_iff.mp h
    refine ⟨u, hu, ?_⟩
    cases hstatus : pendingStatus home with
    | locked =>
      rw [hstatus] at h
      obtain ⟨locked, hlock, heq⟩ := Option.map_eq_some_iff.mp h
      rw [hlock, (Prod.mk.inj heq).2]
    | unlocked =>
      rw [hstatus] at h
      cases h
  · cases h

/-- What a locking run does to a path that is there. -/
structure Locked (currentTime : Text) (p : Path) (home home' : Home) : Prop where
  moved : home.node (backupFile currentTime p) ≠ some .dir →
    ∀ r, home'.node (backupFile currentTime p ++ r) = home.node (p ++ r)
  nested : home.node (backupFile currentTime p) = some .dir → home'.node (backupFile currentTime p) = some .dir ∧
    ∃ name, ∀ r, home'.node (backupFile currentTime p ++ name :: r) = home.node (p ++ r)
  kind : ∀ content, home.node (backupFile currentTime p) = some (.file content) → home.node p ≠ some .dir

section
variable (h : toggleBashEnvironmentLockdown currentTime skel home = some (.locked, home'))
include h

theorem locked_toggle (hp : p ∈ envPaths) (hsome : (home.node p).isSome) : Locked currentTime p home home' := by
  obtain ⟨u, hu, hlock⟩ := toggle_locked h
  obtain ⟨v, w, x, hv, hw, hx, hlast⟩ := lock_eq_some hlock
  have hmade := Tree.made_mkdirs hv
  -- before the backups, nothing has changed but the directory of the backups
  have hsource : ∀ r, v.node (p ++ r) = home.node (p ++ r) := fun r => by
    rw [hmade.same, node_unlock hu]
    exact fun hmem => not_prefix_backups hp ((List.prefix_append p r).trans ((List.mem_inits _ _).mp hmem))
  have htarget : ∀ r, v.node (backupFile currentTime p ++ r) = home.node (backupFile currentTime p ++ r) := by
    intro r
    rw [hmade.same, node_unlock hu]
    intro hmem
    have hpre : backupDest currentTime ++ (p ++ r) <+: backupDest currentTime ++ [] := by
      simpa [backupFile] using (List.mem_inits _ _).mp hmem
    exact ne_nil hp (List.append_eq_nil_iff.mp (List.prefix_nil.mp ((List.prefix_append_right_inj _).mp hpre))).1
  -- and after them, nothing below it
  have hafter : ∀ r, home'.node (backupFile currentTime p ++ r) = w.node (backupFile currentTime p ++ r) := by
    intro r
    rw [Tree.node_chattr hlast, same_installAll _ hx]
    intro p' hp' hpre
    exact backups_not_prefix hp' [] (by rwa [List.append_nil])
  have hp₀ : v.node p = home.node p := by simpa using hsource []
  obtain ⟨y, z, hmoved, hy, hyb, hz⟩ := moved_backups (List.Subset.refl _) pairwise_apart hw hp (by rwa [hp₀])
  have hyb₀ : y.node (backupFile currentTime p) = home.node (backupFile currentTime p) := by
    have h := (hyb []).trans (htarget [])
    rwa [List.append_nil] at h
  have hy₀ : y.node p = home.node p := by
    have h := (hy []).trans (hsource [])
    rwa [List.append_nil] at h
  have hz₀ : home'.node (backupFile currentTime p) = z.node (backupFile currentTime p) := by
    have h := (hafter []).trans (hz [])
    rwa [List.append_nil] at h
  refine ⟨fun hdir r => ?_, fun hdir => ?_, fun content hfile => ?_⟩
  · rw [hafter, hz, hmoved.moved (by rwa [hyb₀]), hy, hsource]
  · obtain ⟨hnested, base, hbase⟩ := hmoved.nested (by rwa [hyb₀])
    refine ⟨by rw [hz₀, hnested], base, fun r => ?_⟩
    rw [hafter, hz, hbase, hy, hsource]
  · rw [← hy₀]
    exact hmoved.kind content (by rw [hyb₀, hfile])

/-- What is neither moved nor met by a backup is kept. -/
theorem kept_toggle {n : Node Bytes} (hn : home.node q = some n) (hsource : ∀ p ∈ envPaths, ¬p <+: q)
    (htarget : ∀ p ∈ envPaths, (home.node p).isSome → ¬backupFile currentTime p <+: q) :
    home'.node q = some n := by
  obtain ⟨u, hu, hlock⟩ := toggle_locked h
  obtain ⟨v, w, x, hv, hw, hx, hlast⟩ := lock_eq_some hlock
  have hmade := Tree.made_mkdirs hv
  have hv' : v.node q = some n := hmade.kept q n ((node_unlock hu q).trans hn)
  have hw' : w.node q = some n := by
    refine kept_backups (List.Subset.refl _) pairwise_apart hw hv' fun p hp hsome =>
      ⟨hsource p hp, htarget p hp ?_⟩
    rw [hmade.same, node_unlock hu] at hsome
    · exact hsome
    · exact fun hmem => not_prefix_backups hp ((List.mem_inits _ _).mp hmem)
  have hx' : x.node q = some n := by
    refine kept_installAll (fun hmem => ?_) hw' hx
    exact hsource q (List.mem_append_left _ hmem) (List.prefix_refl q)
  rw [Tree.node_chattr hlast, hx']

theorem immutable_toggle (hp : p ∈ envPaths) : (home'.node p).isSome ∧ home'.immutable p := by
  obtain ⟨u, -, hlock⟩ := toggle_locked h
  obtain ⟨v, w, x, -, -, -, hlast⟩ := lock_eq_some hlock
  exact ⟨Tree.isSome_of_chattr hlast hp, Tree.immutable_chattr hlast hp⟩

theorem unlockedFiles_toggle : unlockedFiles home' = [] := by
  rw [unlockedFiles, List.filter_eq_nil_iff]
  intro path hpath
  obtain ⟨hsome, himmutable⟩ := immutable_toggle h (bashEnvPaths_subset hpath)
  simp [hsome, himmutable]

/-- If nothing is in the way, all is preserved. -/
theorem preserves_of_vacant (hvacant : Vacant currentTime home) : Preserves currentTime home home' := by
  have hdir : ∀ p ∈ envPaths, (home.node p).isSome → home.node (backupFile currentTime p) ≠ some .dir := by
    intro p hp hsome hdir
    obtain ⟨n, hn⟩ := Option.isSome_iff_exists.mp hsome
    rcases hvacant p hp n hn with hnone | ⟨hsame, hne⟩
    · rw [hdir] at hnone
      cases hnone
    · exact hne (Option.some.inj (hsame.symm.trans hdir))
  have hpreserved : ∀ p ∈ envPaths, (home.node p).isSome →
      ∀ r, home'.node (backupFile currentTime p ++ r) = home.node (p ++ r) := fun p hp hsome =>
    (locked_toggle h hp hsome).moved (hdir p hp hsome)
  refine ⟨fun path hpath => immutable_toggle h (bashEnvPaths_subset hpath), fun homeDir => ?_, hpreserved,
    fun q n hn hsource => ?_⟩
  · have hstatus : (auditBashEnvLockdown homeDir home').status
        = if unlockedFiles home' ≠ [] then .fail else .pass := rfl
    rw [hstatus, unlockedFiles_toggle h, if_neg (by simp)]
  · by_cases htarget : ∀ p ∈ envPaths, (home.node p).isSome → ¬backupFile currentTime p <+: q
    · exact kept_toggle h hn hsource htarget
    · -- the path is the place of a backup, where the same file was
      push Not at htarget
      obtain ⟨p, hp, hsome, r, rfl⟩ := htarget
      obtain ⟨m, hm⟩ := Option.isSome_iff_exists.mp hsome
      by_cases hr : r = []
      · have hback := hpreserved p hp hsome []
        rw [List.append_nil] at hback
        rw [hr, List.append_nil] at hn ⊢
        rcases hvacant p hp m hm with hnone | ⟨hsame, -⟩
        · rw [hnone] at hn
          cases hn
        · rw [hback, List.append_nil, hm, ← hsame, hn]
      · rw [home.node_below (hdir p hp hsome) hr] at hn
        cases hn

/-- And if all is preserved, nothing was in the way. -/
theorem vacant_of_preserves (hpreserves : Preserves currentTime home home') : Vacant currentTime home := by
  intro p hp n hn
  have hsome : (home.node p).isSome := by rw [hn]; rfl
  have hlocked := locked_toggle h hp hsome
  have hpreserved := hpreserves.preserved p hp hsome
  have hback : home'.node (backupFile currentTime p) = some n := by simpa [hn] using hpreserved []
  cases hplace : home.node (backupFile currentTime p) with
  | none => exact .inl rfl
  | some m =>
    cases m with
    | file content =>
      have hkept : home'.node (backupFile currentTime p) = some (.file content) :=
        hpreserves.kept _ _ hplace fun p' hp' => not_prefix_backups hp'
      rw [hback] at hkept
      exact .inr ⟨hkept.symm, fun hdir => by rw [hdir] at hkept; cases hkept⟩
    | dir =>
      -- the path would be below itself again and again
      obtain ⟨hdir, name, hname⟩ := hlocked.nested hplace
      have hrepeat : ∀ k, home'.node (backupFile currentTime p ++ List.replicate k name) = some .dir := by
        intro k
        induction k with
        | zero => simpa using hdir
        | succ k ih => rw [List.replicate_succ, hname, ← hpreserved, ih]
      obtain ⟨k, hk⟩ := home'.exists_replicate_none (backupFile currentTime p) name
      rw [hrepeat k] at hk
      cases hk

end

end

/-- CORRECT: a locking run that completes locks everything, and preserves everything exactly if there is
    nothing in the way of the backups. -/
theorem preserves_iff {currentTime : Text} {skel : Path → Option Bytes} {home home' : Home}
    (h : toggleBashEnvironmentLockdown currentTime skel home = some (.locked, home')) :
    Preserves currentTime home home' ↔ Vacant currentTime home :=
  ⟨vacant_of_preserves h, preserves_of_vacant h⟩

/-! ### Two runs -/

def runTime : Text := "Thu_Jan__1_10:00:00_UTC_2026"

/-- A home directory with nothing in it but a `.bashrc`. -/
def bashrcHome : Home := Tree.root.put bashrc ⟨.file [1], false⟩ (by decide +kernel) (by decide +kernel)

theorem preserves_bashrcHome : ∃ home', toggleBashEnvironmentLockdown runTime (fun _ => none) bashrcHome
    = some (.locked, home') ∧ Preserves runTime bashrcHome home' := by
  have hlocked : (toggleBashEnvironmentLockdown runTime (fun _ => none) bashrcHome).map Prod.fst
      = some .locked := by decide +kernel
  have hnone : ∀ p ∈ envPaths, bashrcHome.node (backupFile runTime p) = none := by decide +kernel
  obtain ⟨⟨status, home'⟩, h, rfl⟩ := Option.map_eq_some_iff.mp hlocked
  exact ⟨home', h, (preserves_iff h).mpr fun p hp n _ => .inl (hnone p hp)⟩

/-- A backup of the same time has another `.bashrc`. -/
def occupiedHome : Home :=
  (((bashrcHome.put [backups] ⟨.dir, false⟩ (by decide +kernel) (by decide +kernel)).put
    (backupDest runTime) ⟨.dir, false⟩ (by decide +kernel) (by decide +kernel)).put
    (backupFile runTime bashrc) ⟨.file [2], false⟩ (by decide +kernel) (by decide +kernel))

/-- It is lost. -/
theorem not_preserves_occupiedHome : ∃ home', toggleBashEnvironmentLockdown runTime (fun _ => none) occupiedHome
    = some (.locked, home') ∧ ¬Preserves runTime occupiedHome home' := by
  have hlocked : (toggleBashEnvironmentLockdown runTime (fun _ => none) occupiedHome).map Prod.fst
      = some .locked := by decide +kernel
  have hplace : occupiedHome.node bashrc = some (.file [1]) ∧
      occupiedHome.node (backupFile runTime bashrc) = some (.file [2]) := by decide +kernel
  obtain ⟨⟨status, home'⟩, h, rfl⟩ := Option.map_eq_some_iff.mp hlocked
  refine ⟨home', h, fun hpreserves => ?_⟩
  rcases vacant_of_preserves h hpreserves bashrc (by decide +kernel) _ hplace.1 with hnone | ⟨hsame, -⟩
  · rw [hplace.2] at hnone
    cases hnone
  · rw [hplace.2] at hsame
    exact absurd hsame (by decide)

end Bash.Lockdown
