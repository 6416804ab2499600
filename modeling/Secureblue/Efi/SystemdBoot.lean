import Secureblue.Interrupt
import Secureblue.Py.Bytes

/-! Updating the copies of systemd-boot in the EFI system partition (`update_systemd_boot`).

    `BOOTX64.EFI` is replaced if it is a copy of `systemd-bootx64.efi`, which is found out by comparing
    the two; but the latter is replaced first. A run that is interrupted in between leaves two different
    files, and the next one takes `BOOTX64.EFI` for one of another system. `recovers_iff` says for which
    interruptions the next run makes up. -/

namespace Efi
open Py Interrupt

/-- The files in the EFI system partition: `BOOTLOADER_ESP_BOOT` and `BOOTLOADER_ESP_SYSTEMD`. -/
structure Esp where
  boot : Option Bytes
  systemd : Option Bytes
  deriving DecidableEq

/-- `shutil.copy(SYSTEMD_BOOT_NEW, BOOTLOADER_ESP_SYSTEMD)` -/
def copySystemd (new : Bytes) : Write Esp Bytes where
  complete esp := { esp with systemd := some new }
  torn left esp := { esp with systemd := some left }

/-- `shutil.copy(SYSTEMD_BOOT_NEW, BOOTLOADER_ESP_BOOT)` -/
def copyBoot (new : Bytes) : Write Esp Bytes where
  complete esp := { esp with boot := some new }
  torn left esp := { esp with boot := some left }

section
variable (sha256 : Bytes → Bytes) (new : Bytes)

/-- `update_systemd_boot`, for the content of `SYSTEMD_BOOT_NEW`: the digests are all taken before the
    first copy. -/
def updateSystemdBoot : Program Esp Bytes Exn := fun esp =>
  match esp.systemd with
  | none => .ok []
  | some systemd =>
    match esp.boot with
    | none => .error .fileNotFoundError
    | some boot =>
      let newSystemd := sha256 new
      let espBoot := sha256 boot
      let espSystemd := sha256 systemd
      if newSystemd ≠ espSystemd then
        .ok (copySystemd new :: if espBoot = espSystemd then [copyBoot new] else [])
      else .ok []

end

/-- What a run is for: `systemd-bootx64.efi` is the new one, and so is `BOOTX64.EFI` if it was a copy. -/
def updated (new boot systemd : Bytes) : Esp := ⟨some (if boot = systemd then new else boot), some new⟩

/-- The same where one of the two files, or both, may not be there. -/
def Esp.renewed (new : Bytes) (esp : Esp) : Esp :=
  match esp.boot, esp.systemd with
  | some boot, some systemd => updated new boot systemd
  | _, _ => esp

/-- `BOOTX64.EFI`, which is opened wherever systemd-boot is detected, is there. -/
def Esp.Complete (esp : Esp) : Prop := esp.systemd.isSome → esp.boot.isSome

instance (esp : Esp) : Decidable esp.Complete := inferInstanceAs (Decidable (_ → _))

/-- The interruptions after which `BOOTX64.EFI` is no more known to be a copy, or is wrongly taken for
    one: within the first copy, after it, and within the second one. -/
def Loses (new boot systemd : Bytes) : Stop Bytes → Prop
  | .after n => n = 1 ∧ boot = systemd
  | .within n left =>
    (n = 0 ∧ if boot = systemd then left ≠ systemd else left = boot ∧ boot ≠ new) ∨
    (n = 1 ∧ boot = systemd ∧ left ≠ new)

/-- The digests tell the new boot loader and the two files apart, as far as they are compared. -/
structure Distinguishes (sha256 : Bytes → Bytes) (new : Bytes) (esp : Esp) : Prop where
  new_systemd : ∀ systemd ∈ esp.systemd, sha256 new = sha256 systemd → new = systemd
  boot_systemd : ∀ boot ∈ esp.boot, ∀ systemd ∈ esp.systemd, sha256 boot = sha256 systemd → boot = systemd

section
variable {sha256 : Bytes → Bytes} {new boot systemd : Bytes}

theorem updateSystemdBoot_current (h : new = systemd) :
    updateSystemdBoot sha256 new ⟨some boot, some systemd⟩ = .ok [] := by
  simp [updateSystemdBoot, h]

theorem updateSystemdBoot_copy (h : sha256 new ≠ sha256 systemd) (hcopy : boot = systemd) :
    updateSystemdBoot sha256 new ⟨some boot, some systemd⟩ = .ok [copySystemd new, copyBoot new] := by
  simp [updateSystemdBoot, h, hcopy]

theorem updateSystemdBoot_other (h : sha256 new ≠ sha256 systemd) (hcopy : sha256 boot ≠ sha256 systemd) :
    updateSystemdBoot sha256 new ⟨some boot, some systemd⟩ = .ok [copySystemd new] := by
  simp [updateSystemdBoot, h, hcopy]

/-- What an uninterrupted run leaves. -/
theorem run_updated (h : Distinguishes sha256 new ⟨some boot, some systemd⟩) :
    run (updateSystemdBoot sha256 new) ⟨some boot, some systemd⟩ = .ok (updated new boot systemd) := by
  by_cases hnew : new = systemd
  · rw [Interrupt.run_eq (updateSystemdBoot_current hnew)]
    by_cases hcopy : boot = systemd <;> simp [carryOut, updated, hnew, hcopy]
  · have hdigest : sha256 new ≠ sha256 systemd := fun heq => hnew (h.new_systemd systemd rfl heq)
    by_cases hcopy : boot = systemd
    · rw [Interrupt.run_eq (updateSystemdBoot_copy hdigest hcopy)]
      simp [carryOut, copySystemd, copyBoot, updated, hcopy]
    · have hother : sha256 boot ≠ sha256 systemd := fun heq => hcopy (h.boot_systemd boot rfl systemd rfl heq)
      rw [Interrupt.run_eq (updateSystemdBoot_other hdigest hother)]
      simp [carryOut, copySystemd, updated, hcopy]

theorem run_renewed {esp : Esp} (hdigests : Distinguishes sha256 new esp) (h : esp.Complete) :
    run (updateSystemdBoot sha256 new) esp = .ok (esp.renewed new) := by
  obtain ⟨boot, systemd⟩ := esp
  cases systemd with
  | none => cases boot <;> rfl
  | some systemd =>
    cases boot with
    | none => exact absurd (h rfl) Bool.false_ne_true
    | some boot => exact run_updated hdigests

theorem run_incomplete {esp : Esp} (h : ¬esp.Complete) :
    run (updateSystemdBoot sha256 new) esp = .error .fileNotFoundError := by
  obtain ⟨boot, systemd⟩ := esp
  cases systemd with
  | none => exact absurd nofun h
  | some systemd =>
    cases boot with
    | none => rfl
    | some boot => exact absurd (fun _ => rfl) h

theorem renewed_incomplete {esp : Esp} (h : ¬esp.Complete) : esp.renewed new = esp := by
  obtain ⟨boot, systemd⟩ := esp
  cases boot with
  | none => rfl
  | some boot => exact absurd (fun _ => rfl) h

variable (hsha : Function.Injective sha256)
include hsha

theorem run_updateSystemdBoot (new boot systemd : Bytes) :
    run (updateSystemdBoot sha256 new) ⟨some boot, some systemd⟩ = .ok (updated new boot systemd) :=
  run_updated ⟨fun _ _ heq => hsha heq, fun _ _ _ _ heq => hsha heq⟩

/-- The next run leaves the same files if it comes to the same `BOOTX64.EFI`. -/
theorem run_eq_run_iff (boot' systemd' : Bytes) :
    run (updateSystemdBoot sha256 new) ⟨some boot', some systemd'⟩
        = run (updateSystemdBoot sha256 new) ⟨some boot, some systemd⟩ ↔
      (if boot' = systemd' then new else boot') = if boot = systemd then new else boot := by
  rw [run_updateSystemdBoot hsha, run_updateSystemdBoot hsha, Except.ok.injEq, updated, updated, Esp.mk.injEq,
    Option.some.injEq, and_iff_left rfl]

/-- Interruptions of a run that updates both files. -/
theorem recovers_copy_iff (h : new ≠ boot) (stop : Stop Bytes) :
    Recovers (updateSystemdBoot sha256 new) ⟨some boot, some boot⟩ stop ↔ ¬ Loses new boot boot stop := by
  have hplan := updateSystemdBoot_copy (hsha.ne h) rfl
  cases stop with
  | after n =>
    obtain rfl | rfl | rfl | hn : n = 0 ∨ n = 1 ∨ n = 2 ∨ 2 < n := by omega
    · exact iff_of_true (recovers_before _ _) (by simp [Loses])
    · rw [Interrupt.recovers_iff hplan]
      simp [stopped, carryOut, copySystemd, Loses, run_eq_run_iff hsha, Ne.symm h]
    · refine iff_of_true (recovers_done hplan rfl ?_) (by simp [Loses])
      simp [carryOut, copySystemd, copyBoot, run_updateSystemdBoot hsha, updated]
    · refine iff_of_true (recovers_beyond hplan hn) ?_
      rintro ⟨rfl, -⟩
      omega
  | within n left =>
    obtain rfl | rfl | hn : n = 0 ∨ n = 1 ∨ 2 ≤ n := by omega
    · have hboot : (if boot = left then new else boot) = new ↔ left = boot := by
        split
        · next heq => exact iff_of_true rfl heq.symm
        · next hne => exact iff_of_false (Ne.symm h) (Ne.symm hne)
      rw [Interrupt.recovers_iff hplan]
      simp [stopped, carryOut, copySystemd, Loses, run_eq_run_iff hsha, hboot]
    · rw [Interrupt.recovers_iff hplan]
      simp [stopped, carryOut, copySystemd, copyBoot, Loses, run_eq_run_iff hsha]
    · refine iff_of_true (recovers_within_beyond hplan hn left) ?_
      rintro (⟨rfl, -⟩ | ⟨rfl, -⟩)
      · omega
      · omega

/-- Interruptions of a run that leaves `BOOTX64.EFI` alone. -/
theorem recovers_other_iff (h : new ≠ systemd) (hother : boot ≠ systemd) (stop : Stop Bytes) :
    Recovers (updateSystemdBoot sha256 new) ⟨some boot, some systemd⟩ stop ↔
      ¬ Loses new boot systemd stop := by
  have hplan := updateSystemdBoot_other (hsha.ne h) (hsha.ne hother)
  cases stop with
  | after n =>
    have hloses : ¬ Loses new boot systemd (.after n) := fun hl => hother hl.2
    obtain rfl | rfl | hn : n = 0 ∨ n = 1 ∨ 1 < n := by omega
    · exact iff_of_true (recovers_before _ _) hloses
    · refine iff_of_true (recovers_done hplan rfl ?_) hloses
      by_cases hnew : boot = new <;> simp [carryOut, copySystemd, run_updateSystemdBoot hsha, updated, hnew]
    · exact iff_of_true (recovers_beyond hplan hn) hloses
  | within n left =>
    obtain rfl | hn : n = 0 ∨ 1 ≤ n := by omega
    · have hboot : (if boot = left then new else boot) = boot ↔ ¬ (left = boot ∧ boot ≠ new) := by
        split
        · next heq => simp [heq, eq_comm]
        · next hne => simp [Ne.symm hne]
      rw [Interrupt.recovers_iff hplan]
      simp only [stopped, carryOut, copySystemd, Loses, hother, if_false, List.take_zero, List.foldl_nil,
        List.getElem?_cons_zero, Option.map_some, Option.some.injEq, forall_eq', run_eq_run_iff hsha, hboot]
      simp
    · refine iff_of_true (recovers_within_beyond hplan hn left) ?_
      rintro (⟨rfl, -⟩ | ⟨-, hcopy, -⟩)
      · omega
      · exact hother hcopy

/-- CORRECT: for every content of the three files and every interruption, the next run leaves the files as
    an uninterrupted one would have if and only if the copy was current, or the interruption is none of
    those after which `BOOTX64.EFI` is misjudged. -/
theorem update_recovers_iff (new boot systemd : Bytes) (stop : Stop Bytes) :
    Recovers (updateSystemdBoot sha256 new) ⟨some boot, some systemd⟩ stop ↔
      new = systemd ∨ ¬ Loses new boot systemd stop := by
  by_cases h : new = systemd
  · have hplan : updateSystemdBoot sha256 new ⟨some boot, some systemd⟩ = .ok [] :=
      updateSystemdBoot_current h
    simp only [h, true_or, iff_true]
    subst h
    rw [Interrupt.recovers_iff hplan]
    intro s' hs'
    cases stop with
    | after n =>
      rw [stopped] at hs'
      split at hs'
      · cases hs'
        simp [carryOut]
      · cases hs'
    | within n left => simp [stopped] at hs'
  · rw [or_iff_right h]
    by_cases hcopy : boot = systemd
    · subst hcopy
      exact recovers_copy_iff hsha h stop
    · exact recovers_other_iff hsha h hcopy stop

end

/-- Interrupted between its two copies, a run leaves `BOOTX64.EFI` at the old version for good. -/
theorem not_recovers_between :
    ¬ Recovers (updateSystemdBoot id [2]) ⟨some [1], some [1]⟩ (.after 1) := by
  rw [recovers_copy_iff Function.injective_id (by decide)]
  simp [Loses]

/-- A file of another system survives an interruption. -/
theorem update_recovers_dualBoot :
    Recovers (updateSystemdBoot id [2]) ⟨some [3], some [1]⟩ (.within 0 [7]) :=
  (update_recovers_iff Function.injective_id [2] [3] [1] (.within 0 [7])).mpr (.inr (by simp [Loses]))

end Efi
