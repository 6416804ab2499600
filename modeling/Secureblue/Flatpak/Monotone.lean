import Mathlib.Data.List.Basic
import Mathlib.Order.MinMax
import Secureblue.Flatpak.Checks

/-! The audit is monotone: an app that asks for more is not reported better.

    The checks run one after the other over one state. Two runs are compared state by state
    (`Below`): each check adds to the second run at least the notes it adds to the first, and the flag
    that the last check reads is set in the second run if it is in the first. The status carries no
    information of its own, it is the most severe status of the notes (`Graded`). -/

namespace Flatpak
open Py Auditor
open scoped List

/-- A relation between two accumulators that holds after a common entry, and after an entry of the
    second list alone, holds after the whole lists. -/
theorem foldl_sublist {α β : Type*} {r : β → β → Prop} {f : β → α → β}
    (hboth : ∀ s s' a, r s s' → r (f s a) (f s' a)) (hright : ∀ s s' a, r s s' → r s (f s' a))
    {l l' : List α} (h : l <+ l') : ∀ {s s'}, r s s' → r (l.foldl f s) (l'.foldl f s') := by
  induction h with
  | slnil => exact fun hs => hs
  | cons a _ ih => exact fun hs => ih (hright _ _ a hs)
  | cons_cons a _ ih => exact fun hs => ih (hboth _ _ a hs)

/-! ### The status is the most severe one of the notes -/

/-- The most severe of the statuses, `PASS` when there are none. -/
def mostSevere (statuses : List Status) : Status := statuses.foldr max .pass

theorem mostSevere_concat (a : Status) : ∀ l, mostSevere (l ++ [a]) = max (mostSevere l) a
  | [] => max_comm _ _
  | b :: l => by
      have ih := mostSevere_concat a l
      simp only [mostSevere, List.cons_append, List.foldr_cons] at ih ⊢
      rw [ih, max_assoc]

theorem mostSevere_mono {l l' : List Status} (h : l <+ l') : mostSevere l ≤ mostSevere l' := by
  induction h with
  | slnil => exact le_rfl
  | cons a _ ih => exact ih.trans (le_max_right _ _)
  | cons_cons a _ ih => exact max_le_max le_rfl ih

/-- The status of a state is the most severe status of its notes. -/
def Graded (s : FlatpakPermissionsState) : Prop :=
  s.status = mostSevere (s.notes.filterMap Note.status)

theorem Graded.update {s : FlatpakPermissionsState} (h : Graded s) (note : Note)
    (rec : Option Recommendation) : Graded (s.update note rec) := by
  obtain ⟨text, status⟩ := note
  simp only [Graded, FlatpakPermissionsState.update, List.filterMap_append]
  cases status with
  | none => exact h.trans (congrArg mostSevere (List.append_nil _).symm)
  | some status =>
    exact (Status.downgradeTo_eq_max _ _).trans
      ((congrArg (max · status) h).trans (mostSevere_concat status _).symm)

/-! ### Two runs side by side -/

/-- The second state reports at least what the first one does. -/
structure Below (s s' : FlatpakPermissionsState) : Prop where
  name : s.name = s'.name
  notes : s.notes <+ s'.notes
  arbitraryPermissions : s.arbitraryPermissions → s'.arbitraryPermissions
  graded : Graded s
  graded' : Graded s'

namespace Below
variable {s s' : FlatpakPermissionsState}

theorem status (h : Below s s') : s.status ≤ s'.status := by
  rw [h.graded, h.graded']
  exact mostSevere_mono (h.notes.filterMap _)

theorem init (name : Text) : Below { name } { name } :=
  ⟨rfl, .slnil, fun h => h, rfl, rfl⟩

theorem update (h : Below s s') (note : Note) (rec rec' : Option Recommendation) :
    Below (s.update note rec) (s'.update note rec') :=
  ⟨h.name, h.notes.append_right [note], h.arbitraryPermissions, h.graded.update .., h.graded'.update ..⟩

theorem updateRight (h : Below s s') (note : Note) (rec : Option Recommendation) :
    Below s (s'.update note rec) :=
  ⟨h.name, h.notes.trans (List.sublist_append_left _ _), h.arbitraryPermissions, h.graded,
    h.graded'.update ..⟩

theorem withArbitrary (h : Below s s') {a a' : Bool} (ha : a → a') :
    Below { s with arbitraryPermissions := a } { s' with arbitraryPermissions := a' } :=
  ⟨h.name, h.notes, ha, h.graded, h.graded'⟩

/-- Setting the flag in the second state only. -/
theorem withArbitraryRight (h : Below s s') {a' : Bool} (ha : s.arbitraryPermissions → a') :
    Below s { s' with arbitraryPermissions := a' } := h.withArbitrary ha

/-- The flag after a check that grants arbitrary permissions if `b`. -/
theorem orArbitrary (h : Below s s') (b : Bool) :
    Below { s with arbitraryPermissions := s.arbitraryPermissions || b }
      { s' with arbitraryPermissions := s'.arbitraryPermissions || b } := by
  apply h.withArbitrary
  rw [Bool.or_eq_true, Bool.or_eq_true]
  exact Or.imp_left h.arbitraryPermissions

theorem orArbitraryRight (h : Below s s') (b : Bool) :
    Below s { s' with arbitraryPermissions := s'.arbitraryPermissions || b } := by
  apply h.withArbitraryRight
  intro hs
  rw [h.arbitraryPermissions hs, Bool.true_or]

end Below

/-! ### What one check adds -/

/-- Permissions `perms'` that ask for everything `perms` asks for, with the same file system and
    environment. -/
structure Extends (perms perms' : Permissions) : Prop where
  lists : ∀ c, c ≠ .filesystems → permissionList perms c <+ permissionList perms' c
  filesystems : permissionList perms .filesystems = permissionList perms' .filesystems
  environment : perms.environment = perms'.environment
  sessionBusTalk : perms.sessionBusTalk <+ perms'.sessionBusTalk
  systemBusTalk : perms.systemBusTalk <+ perms'.systemBusTalk

section Checks
variable {perms perms' : Permissions} {s s' : FlatpakPermissionsState}

/-- What a check that applies adds. -/
def report (state : FlatpakPermissionsState) (check : PermissionCheck) : FlatpakPermissionsState :=
  let state := state.update (check.note state.name) (some (check.recommendation state.name))
  { state with arbitraryPermissions := state.arbitraryPermissions || check.arbitraryPermissions }

theorem Below.report (h : Below s s') (check : PermissionCheck) :
    Below (Flatpak.report s check) (Flatpak.report s' check) := by
  rw [Flatpak.report, Flatpak.report, h.name]
  exact (h.update _ _ _).orArbitrary _

theorem Below.reportRight (h : Below s s') (check : PermissionCheck) :
    Below s (Flatpak.report s' check) :=
  (h.updateRight _ _).orArbitraryRight _

theorem checkPredefined_eq (state : FlatpakPermissionsState) (perms : Permissions)
    (bluetoothLoaded ptraceAllowed : Bool) :
    checkPredefinedFlatpakPermissions state perms bluetoothLoaded ptraceAllowed
      = (flatpakPermissionChecks.filter
          (predefinedCheckApplies · perms bluetoothLoaded ptraceAllowed)).foldl report state :=
  (List.foldl_filter ..).symm

theorem relevant_mono : ∀ f b d {bl bl' pa pa' : Bool}, (bl → bl') → (pa → pa') →
    (!(f && (b && !bl || d && !pa))) = true → (!(f && (b && !bl' || d && !pa'))) = true := by
  decide

/-- A check that applies to the smaller set of permissions applies to the larger one. -/
theorem predefinedCheckApplies_mono (h : Extends perms perms') {bl bl' pa pa' : Bool}
    (hbl : bl → bl') (hpa : pa → pa') {check : PermissionCheck} (hc : check.category ≠ .filesystems)
    (happlies : predefinedCheckApplies check perms bl pa) :
    predefinedCheckApplies check perms' bl' pa' := by
  rw [predefinedCheckApplies_eq, Bool.and_eq_true] at happlies ⊢
  obtain ⟨hrelevant, hmem⟩ := happlies
  exact ⟨relevant_mono _ _ _ hbl hpa hrelevant,
    decide_eq_true ((h.lists _ hc).subset (of_decide_eq_true hmem))⟩

theorem flatpakPermissionChecks_category :
    ∀ check ∈ flatpakPermissionChecks, check.category ≠ .filesystems := by
  decide

theorem Below.checkPredefined (h : Below s s') (hext : Extends perms perms') {bl bl' pa pa' : Bool}
    (hbl : bl → bl') (hpa : pa → pa') :
    Below (checkPredefinedFlatpakPermissions s perms bl pa)
      (checkPredefinedFlatpakPermissions s' perms' bl' pa') := by
  rw [checkPredefined_eq, checkPredefined_eq]
  refine foldl_sublist (fun _ _ check h => h.report check) (fun _ _ check h => h.reportRight check)
    ?_ h
  -- the checks that apply are among those that apply to the larger set
  have hfilter : flatpakPermissionChecks.filter (predefinedCheckApplies · perms bl pa)
      = (flatpakPermissionChecks.filter (predefinedCheckApplies · perms' bl' pa')).filter
          (predefinedCheckApplies · perms bl pa) := by
    rw [List.filter_filter]
    refine List.filter_congr fun check hmem => ?_
    rw [Bool.eq_iff_iff, Bool.and_eq_true]
    exact ⟨fun ha => ⟨ha, predefinedCheckApplies_mono hext hbl hpa
      (flatpakPermissionChecks_category check hmem) ha⟩, And.left⟩
  rw [hfilter]
  exact List.filter_sublist

theorem Below.checkHardenedMallocAccess (h : Below s s') (fs : FilesystemPerms) :
    Below (checkHardenedMallocAccess s fs) (checkHardenedMallocAccess s' fs) := by
  rw [Flatpak.checkHardenedMallocAccess, Flatpak.checkHardenedMallocAccess, h.name]
  split
  · exact h.update _ _ _
  · exact h

/-- The flag set in both states, with the one name they have. -/
theorem Below.set (h : Below s s') :
    Below { s with arbitraryPermissions := true }
      { s' with name := s.name, arbitraryPermissions := true } :=
  ⟨rfl, h.notes, fun _ => rfl, h.graded, h.graded'⟩

theorem Below.checkOverridesAccess (h : Below s s') (fs : FilesystemPerms) :
    Below (checkOverridesAccess s fs) (checkOverridesAccess s' fs) := by
  simp only [Flatpak.checkOverridesAccess, ← h.name]
  split
  · exact h
  · cases fs.get overridePath with
    | none => exact h
    | some perm =>
      dsimp only
      split
      · exact h
      · exact h.set.update _ _ _

theorem Below.checkDangerousDirs (h : Below s s') (fs : FilesystemPerms) :
    Below (checkDangerousDirs s fs) (checkDangerousDirs s' fs) := by
  refine foldl_sublist ?_ ?_ (List.Sublist.refl _) h
  · intro s s' d h
    cases fs.get d.permission with
    | none => exact h
    | some perm => exact h.report _
  · intro s s' d h
    cases fs.get d.permission with
    | none => exact h
    | some perm => exact h.reportRight _

theorem Below.checkFsPermissions (h : Below s s') (hext : Extends perms perms') :
    Below (checkFsPermissions s perms) (checkFsPermissions s' perms') := by
  rw [checkFsPermissions_eq, checkFsPermissions_eq, hext.filesystems]
  exact ((h.checkHardenedMallocAccess _).checkOverridesAccess _).checkDangerousDirs _

theorem Below.handleFlatpakBuses (h : Below s s') (hext : Extends perms perms') :
    Below (handleFlatpakBuses s perms) (handleFlatpakBuses s' perms') := by
  have hbuses := ((hext.sessionBusTalk.filter (busGrantsArbitraryPermissions · true)).map
    (·, true)).append ((hext.systemBusTalk.filter (busGrantsArbitraryPermissions · false)).map
    (·, false))
  refine foldl_sublist ?_ ?_ hbuses h
  · intro s s' e h
    simp only [← h.name]
    split
    · exact h.set
    · exact h.set.update _ _ _
  · intro s s' e h
    have hset : Below s { s' with arbitraryPermissions := true } :=
      h.withArbitraryRight fun _ => rfl
    dsimp only
    split
    · exact hset
    · exact hset.updateRight _ _

theorem Below.checkLdPreload (h : Below s s') (hext : Extends perms perms') :
    Below (checkLdPreload s perms) (checkLdPreload s' perms') := by
  simp only [Flatpak.checkLdPreload, hext.environment, ← h.name]
  cases perms'.environment.get "LD_PRELOAD" with
  | none =>
    simp only [List.not_mem_nil, if_false]
    exact h.update _ _ _
  | some ldPreload =>
    dsimp only
    split_ifs
    · exact h
    · exact (h.update _ _ _).update _ _ _
    · exact (h.update _ _ _).update _ _ _
    · exact h.update _ _ _

theorem Below.handleArbitraryPermissions (h : Below s s') :
    Below (handleArbitraryPermissions s) (handleArbitraryPermissions s') := by
  simp only [Flatpak.handleArbitraryPermissions, ← h.name]
  cases harb : s.arbitraryPermissions with
  | true =>
    rw [if_pos rfl, if_pos (h.arbitraryPermissions harb)]
    split
    · exact h.update _ _ _
    · exact h.update _ _ _
  | false =>
    rw [if_neg Bool.false_ne_true]
    split_ifs
    · exact h.updateRight _ _
    · exact h.updateRight _ _
    · exact h

theorem Below.check (name : Text) (hext : Extends perms perms') {bl bl' pa pa' : Bool}
    (hbl : bl → bl') (hpa : pa → pa') :
    Below (checkFlatpakPermissions name perms bl pa)
      (checkFlatpakPermissions name perms' bl' pa') :=
  (((((Below.init name).checkPredefined hext hbl hpa).checkFsPermissions hext).handleFlatpakBuses
    hext).checkLdPreload hext).handleArbitraryPermissions

end Checks

theorem Extends.refl (perms : Permissions) : Extends perms perms :=
  ⟨fun _ _ => .refl _, rfl, rfl, .refl _, .refl _⟩

/-- CORRECT: permissions that ask for more get every note, a status at least as severe and the flag;
    and the status of every result is the most severe one of its notes. -/
theorem check_monotone (name : Text) :
    (∀ (perms perms' : Permissions)
        (bluetoothLoaded bluetoothLoaded' ptraceAllowed ptraceAllowed' : Bool),
      Extends perms perms' → (bluetoothLoaded → bluetoothLoaded') → (ptraceAllowed → ptraceAllowed') →
      let result := checkFlatpakPermissions name perms bluetoothLoaded ptraceAllowed
      let result' := checkFlatpakPermissions name perms' bluetoothLoaded' ptraceAllowed'
      result.notes <+ result'.notes ∧ result.status ≤ result'.status ∧
        (result.arbitraryPermissions → result'.arbitraryPermissions)) ∧
    ∀ (perms : Permissions) (bluetoothLoaded ptraceAllowed : Bool),
      let result := checkFlatpakPermissions name perms bluetoothLoaded ptraceAllowed
      result.status = mostSevere (result.notes.filterMap Note.status) := by
  constructor
  · intro perms perms' bl bl' pa pa' hext hbl hpa
    have h := Below.check name hext hbl hpa
    exact ⟨h.notes, h.status, h.arbitraryPermissions⟩
  · intro perms bl pa
    exact (Below.check name (.refl perms) id id).graded

/-- An app with a bus name more, run once `ptrace` is allowed. -/
theorem check_monotone_bus :
    let perms : Permissions := { permissions := .ofList [("features", ["devel"])] }
    let perms' : Permissions := { permissions := .ofList [("features", ["bluetooth", "devel"])]
                                  sessionBusTalk := ["org.kde.*"] }
    (checkFlatpakPermissions "app" perms false false).notes
      <+ (checkFlatpakPermissions "app" perms' false true).notes := by
  intro perms perms'
  have hext : Extends perms perms' := by
    refine ⟨fun c _ => ?_, by decide +kernel, rfl, by decide +kernel, by decide +kernel⟩
    cases c <;> decide +kernel
  exact ((check_monotone "app").1 perms perms' false false false true hext id fun _ => rfl).1

end Flatpak
