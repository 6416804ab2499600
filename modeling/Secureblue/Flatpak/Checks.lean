import Secureblue.Auditor.Report
import Secureblue.Flatpak.Permissions

/-! Auditing the permissions of an app (`check_flatpak_permissions` in `audit_flatpak/__init__.py`,
    `audit_flatpak/filesystem.py`).

    The checks see the permissions only through the lists of five categories, absent and empty lists
    being the same to them, the environment and the names the app can talk to (`check_congr`). -/

namespace Flatpak
open Py Auditor

/-! ### Checks of single permissions -/

/-- The keys of `FLATPAK_OVERRIDE_OPTIONS`. -/
inductive Category where | shared | sockets | devices | features | filesystems
  deriving DecidableEq

namespace Category

def key : Category → Text
  | shared => "shared"
  | sockets => "sockets"
  | devices => "devices"
  | features => "features"
  | filesystems => "filesystems"

/-- The values of `FLATPAK_OVERRIDE_OPTIONS`. -/
def overrideOptions : Category → Text × Text
  | shared => ("share", "unshare")
  | sockets => ("socket", "nosocket")
  | devices => ("device", "nodevice")
  | features => ("allow", "disallow")
  | filesystems => ("filesystem", "nofilesystem")

end Category

/-- A flatpak permission to be checked, and how it's reported if present. -/
structure PermissionCheck where
  category : Category
  permission : Text
  status : Status
  description : Option Text := none
  comment : Option Text := none
  endnote : Option Text := none
  sandboxEscape : Bool := false
  arbitraryPermissions : Bool := false

/-- `t or ""` -/
def orEmpty (t : Option Text) : Text := t.getD []

def replacingLine : Text := "(replacing \"com.example.Example\" with the flatpak app ID)"

def removeLine : Text := "To remove this permission from an app, use Flatseal or run:"

/-- `"\n".join(lines)` -/
def joinLines (lines : List Text) : Text := ['\n'].intercalate lines

namespace PermissionCheck

/-- `default_description` -/
def defaultDescription (self : PermissionCheck) : Text :=
  self.category.overrideOptions.1 ++ "=" ++ self.permission ++ " permission"

/-- `self.description or self.default_description()` -/
def shownDescription (self : PermissionCheck) : Text :=
  if orEmpty self.description = [] then self.defaultDescription else orEmpty self.description

def note (self : PermissionCheck) (name : Text) : Note :=
  ⟨name ++ " has " ++ self.shownDescription, some self.status⟩

def recommendation (self : PermissionCheck) (name : Text) : Recommendation :=
  let sandboxEscapeNote : Text :=
    if self.sandboxEscape then "This may also be used as a sandbox escape vector." else ""
  let option := self.category.overrideOptions.2
  let recLines : List Text :=
    ["The following flatpak app(s) have " ++ self.shownDescription ++ ":", namesPlaceholder,
      orEmpty self.comment, sandboxEscapeNote, removeLine,
      "$ flatpak override -u --" ++ option ++ "=" ++ self.permission ++ " com.example.Example",
      replacingLine, orEmpty self.endnote]
  ⟨joinLines ((recLines.map strip).filter (· ≠ [])), some name⟩

end PermissionCheck

/-- `FLATPAK_PERMISSION_CHECKS` -/
def flatpakPermissionChecks : List PermissionCheck :=
  [{ category := .shared, permission := "network", status := .info
     description := some "network access" },
   { category := .shared, permission := "ipc", status := .info
     description := some "inter-process communications access"
     comment := some "This is only necessary for better X11 performance." },
   { category := .sockets, permission := "x11", status := .fail
     description := some "X11 access"
     comment := some "X11 apps can monitor and modify each other's graphics and inputs." },
   { category := .sockets, permission := "pulseaudio", status := .warn
     description := some "access to the PulseAudio socket"
     comment := some ("\n            This grants access to all audio input and output streams.\n" ++
       "            However, this is necessary for most apps to play sound.\n        ") },
   { category := .sockets, permission := "session-bus", status := .fail
     description := some "access to the D-Bus session bus" },
   { category := .sockets, permission := "system-bus", status := .fail
     description := some "access to the D-Bus system bus" },
   { category := .sockets, permission := "ssh-auth", status := .warn
     description := some "access to the SSH agent" },
   { category := .sockets, permission := "gpg-agent", status := .fail
     description := some "access to the GPG agent"
     comment := some "For more info, see: https://github.com/flatpak/flatpak/issues/6564"
     sandboxEscape := true },
   { category := .devices, permission := "all", status := .fail
     description := some "access to all devices"
     comment := some "This includes input devices, GPUs, raw USB, and virtualization."
     sandboxEscape := true
     endnote := some "If GPU access is required, allow device=dri instead." },
   { category := .devices, permission := "input", status := .info
     description := some "access to input devices"
     comment := some "This is required for game controllers." },
   { category := .devices, permission := "kvm", status := .warn
     description := some "access to kernel-based virtualization" },
   { category := .devices, permission := "shm", status := .fail
     description := some "access to shared memory."
     sandboxEscape := true },
   { category := .devices, permission := "usb", status := .warn
     description := some "raw access to USB devices."
     sandboxEscape := true },
   { category := .features, permission := "bluetooth", status := .warn
     description := some "bluetooth access" },
   { category := .features, permission := "devel", status := .warn
     description := some "ptrace access" }]

/-- `ARBITRARY_PERMISSIONS_EXPECTED` -/
def arbitraryPermissionsExpected : List Text :=
  ["com.github.tchx84.Flatseal", "io.github.kolunmi.Bazaar"]

/-- The state of a flatpak's permissions. -/
structure FlatpakPermissionsState where
  name : Text
  notes : List Note := []
  recs : List Recommendation := []
  status : Status := .pass
  arbitraryPermissions : Bool := false
  deriving DecidableEq

/-- Add note and recommendation, and adjust status. -/
def FlatpakPermissionsState.update (self : FlatpakPermissionsState) (note : Note)
    (rec : Option Recommendation) : FlatpakPermissionsState :=
  { self with
    notes := self.notes ++ [note]
    status := match note.status with
      | some status => self.status.downgradeTo status
      | none => self.status
    recs := self.recs ++ rec.toList }

/-- `_predefined_check_applies` -/
def predefinedCheckApplies (check : PermissionCheck) (perms : Permissions)
    (bluetoothLoaded ptraceAllowed : Bool) : Bool :=
  let isIrrelevantPermission := decide (check.category = .features) &&
    (decide (check.permission = "bluetooth".toList) && !bluetoothLoaded ||
      decide (check.permission = "devel".toList) && !ptraceAllowed)
  !isIrrelevantPermission && match perms.permissions.get check.category.key with
    | some permissions => decide (check.permission ∈ permissions)
    | none => false

/-- `_check_predefined_flatpak_permissions` -/
def checkPredefinedFlatpakPermissions (state : FlatpakPermissionsState) (perms : Permissions)
    (bluetoothLoaded ptraceAllowed : Bool) : FlatpakPermissionsState :=
  flatpakPermissionChecks.foldl (fun state check =>
    if predefinedCheckApplies check perms bluetoothLoaded ptraceAllowed then
      let state := state.update (check.note state.name) (some (check.recommendation state.name))
      { state with
        arbitraryPermissions := state.arbitraryPermissions || check.arbitraryPermissions }
    else state) state

/-! ### Checks of the file system -/

/-- `ALIASES` -/
def aliases : List (Text × Text) :=
  [("xdg-cache", "~/.cache"), ("xdg-config", "~/.config"), ("xdg-data", "~/.local/share"),
    ("xdg-desktop", "~/Desktop"), ("xdg-documents", "~/Documents"),
    ("xdg-downloads", "~/Downloads"), ("xdg-music", "~/Music"), ("xdg-pictures", "~/Pictures"),
    ("xdg-public-share", "~/Public"), ("xdg-templates", "~/Templates"),
    ("xdg-videos", "~/Videos"), ("home", "~")]

/-- A fully parsed filesystem permission. -/
structure Filesystem where
  canonPath : Text
  aliasedPath : Text
  isAliased : Bool
  negated : Bool
  readonly : Bool
  deriving DecidableEq

/-- `Filesystem(perm)` -/
def Filesystem.ofPerm (perm : Text) : Filesystem :=
  let path :=
    if endsWith perm ":ro" then removeSuffix perm ":ro"
    else if endsWith perm ":rw" then removeSuffix perm ":rw"
    else if endsWith perm ":create" then removeSuffix perm ":create"
    else perm
  let path := (removePrefix path "!").rdropWhile (· = '/')
  let found := aliases.find? fun e => startsWith path e.2
  { readonly := endsWith perm ":ro"
    negated := startsWith perm "!"
    aliasedPath := path
    isAliased := found.isSome
    -- the first occurrence of the alias is the one the path starts with
    canonPath := match found with
      | some (name, replaced) => name ++ removePrefix path replaced
      | none => path }

abbrev FilesystemPerms := Dict Text Filesystem

/-- `_check_hardened_malloc_access` -/
def checkHardenedMallocAccess (state : FlatpakPermissionsState)
    (filesystemPerms : FilesystemPerms) : FlatpakPermissionsState :=
  if (filesystemPerms.get "host-os").isNone then
    state.update ⟨state.name ++ " is missing host-os:ro permission", some .warn⟩
      (some ⟨joinLines ["The following flatpak app(s) are missing host-os:ro permission:",
        namesPlaceholder, "This is required to load hardened_malloc.",
        "To add this permission to an app, use Flatseal or run:",
        "$ flatpak override -u --filesystem=host-os:ro com.example.Example", replacingLine],
        some state.name⟩)
  else state

def overridePath : Text := "xdg-data/flatpak/overrides"

def grantsArbitraryLine : Text := "This grants the ability to acquire arbitrary permissions."

/-- `_check_overrides_access` -/
def checkOverridesAccess (state : FlatpakPermissionsState) (filesystemPerms : FilesystemPerms) :
    FlatpakPermissionsState :=
  if state.name ∈ arbitraryPermissionsExpected then state
  else match filesystemPerms.get overridePath with
    | none => state
    | some setPermission =>
      if setPermission.readonly then state
      else
        { state with arbitraryPermissions := true }.update
          ⟨state.name ++ " can modify flatpak permissions.", some .fail⟩
          (some ⟨joinLines ["The following flatpak app(s) can modify flatpak permissions:",
            namesPlaceholder, grantsArbitraryLine, removeLine,
            "$ flatpak override -u --nofilesystem=" ++ setPermission.aliasedPath ++
              " com.example.Example", replacingLine], some state.name⟩)

/-- `DirectoryCheck(path, status, comment, ...)`: the comment is what access is granted to. -/
def directoryCheck (path : Text) (status : Status) (comment : Text)
    (sandboxEscape : Bool := false) (arbitraryPermissions : Bool := false) : PermissionCheck where
  category := .filesystems
  permission := path
  status := status
  comment := some ("This grants access to " ++ comment ++ ".")
  sandboxEscape := sandboxEscape
  arbitraryPermissions := arbitraryPermissions

/-- `DANGEROUS_DIRECTORY_CHECKS` -/
def dangerousDirectoryChecks : List PermissionCheck :=
  [directoryCheck "host-root" .fail "all system files" true true,
    directoryCheck "host" .fail "all system files",
    directoryCheck "home" .fail "all user files",
    directoryCheck "/var/home" .fail "all user files",
    directoryCheck "xdg-config" .fail "other applications' configuration files",
    directoryCheck "xdg-config/autostart" .fail "user autostart configuration files",
    directoryCheck "xdg-config/environment.d" .fail "user environment configuration files",
    directoryCheck "xdg-config/systemd" .fail "user systemd configuration files",
    directoryCheck "xdg-config/systemd/user" .fail "user systemd configuration files",
    directoryCheck "xdg-cache" .fail "other applications' cache files",
    directoryCheck "home/.local" .fail "other applications' data files",
    directoryCheck "xdg-data" .fail "other applications' data files",
    directoryCheck "xdg-data/flatpak" .fail "other flatpak applications' installation files" true
      true,
    directoryCheck "home/.var" .fail "other flatpak applications' data files",
    directoryCheck "home/.var/app" .fail "other flatpak applications' data files",
    directoryCheck "home/.bashrc" .fail "user shell configuration files",
    directoryCheck "home/.bashrc.d" .fail "user shell configuration files",
    directoryCheck "home/.bash_login" .fail "user shell configuration files",
    directoryCheck "home/.bash_logout" .fail "user shell configuration files",
    directoryCheck "home/.bash_profile" .fail "user shell configuration files",
    directoryCheck "home/.profile" .fail "user shell configuration files",
    directoryCheck "xdg-config/bash_completion" .fail "user shell configuration files"]

/-- `_check_dangerous_dirs` -/
def checkDangerousDirs (state : FlatpakPermissionsState) (filesystemPerms : FilesystemPerms) :
    FlatpakPermissionsState :=
  dangerousDirectoryChecks.foldl (fun state d =>
    match filesystemPerms.get d.permission with
    | none => state
    | some perm =>
      let dirCheck := if perm.isAliased then { d with permission := perm.aliasedPath } else d
      let state := state.update (dirCheck.note state.name) (some (dirCheck.recommendation state.name))
      { state with
        arbitraryPermissions := state.arbitraryPermissions || dirCheck.arbitraryPermissions }) state

/-- The permissions that are not negated, by their canonical path. -/
def filesystemPermsOf (permStrings : List Text) : FilesystemPerms :=
  permStrings.foldl (fun filesystemPerms permString =>
    let perm := Filesystem.ofPerm permString
    if perm.negated then filesystemPerms else filesystemPerms.set perm.canonPath perm) ∅

/-- `check_fs_permissions` -/
def checkFsPermissions (state : FlatpakPermissionsState) (perms : Permissions) :
    FlatpakPermissionsState :=
  match perms.permissions.get Category.filesystems.key with
  | none => checkHardenedMallocAccess state ∅
  | some permStrings =>
    let filesystemPerms := filesystemPermsOf permStrings
    checkDangerousDirs (checkOverridesAccess (checkHardenedMallocAccess state filesystemPerms)
      filesystemPerms) filesystemPerms

/-! ### Checks of buses and the environment -/

/-- `_bus_grants_arbitrary_permissions` -/
def busGrantsArbitraryPermissions (name : Text) (isSession : Bool) : Bool :=
  let busPrefixes : List Text := ["org.freedesktop.Flatpak.", "org.freedesktop.DBus."]
  let busNames : List Text :=
    ["org.freedesktop.*", "org.gnome.*", "org.kde.*", "org.freedesktop.DBus",
      "org.freedesktop.systemd1", "org.freedesktop.login1", "org.kde.KWin", "org.kde.plasmashell"]
  let sessionBusNames : List Text :=
    ["org.freedesktop.Flatpak", "org.freedesktop.impl.portal.PermissionStore"]
  busPrefixes.any (startsWith name) || decide (name ∈ busNames) ||
    isSession && decide (name ∈ sessionBusNames)

/-- `_handle_flatpak_buses` -/
def handleFlatpakBuses (state : FlatpakPermissionsState) (perms : Permissions) :
    FlatpakPermissionsState :=
  let presentDangerousBuses :=
    (perms.sessionBusTalk.filter (busGrantsArbitraryPermissions · true)).map (·, true) ++
      (perms.systemBusTalk.filter (busGrantsArbitraryPermissions · false)).map (·, false)
  presentDangerousBuses.foldl (fun state e =>
    let state := { state with arbitraryPermissions := true }
    if state.name ∈ arbitraryPermissionsExpected then state
    else
      let bus : Text := if e.2 then "session" else "system"
      let option : Text := if e.2 then "no-talk-name" else "system-no-talk-name"
      state.update ⟨state.name ++ " can talk to " ++ e.1 ++ " on the " ++ bus ++ " bus.", some .fail⟩
        (some ⟨joinLines
          ["The following flatpak app(s) can talk to " ++ e.1 ++ " on the " ++ bus ++ " bus:",
            namesPlaceholder, grantsArbitraryLine, removeLine,
            "$ flatpak override -u --" ++ option ++ "=" ++ e.1 ++ " com.example.Example",
            replacingLine], some state.name⟩)) state

/-- `_check_ld_preload` -/
def checkLdPreload (state : FlatpakPermissionsState) (perms : Permissions) :
    FlatpakPermissionsState :=
  let ldPreloadFiles : List Text := match perms.environment.get "LD_PRELOAD" with
    | none => []
    | some ldPreload => (words ldPreload).map (List.rtakeWhile (· ≠ '/'))
  if "libhardened_malloc.so".toList ∈ ldPreloadFiles then state
  else
    let requesting (library : Text) : Note := ⟨state.name ++ " is requesting " ++ library, some .info⟩
    let (status, extraNote) : Status × Option Note :=
      if "libhardened_malloc-light.so".toList ∈ ldPreloadFiles then
        (.info, some (requesting "hardened_malloc-light"))
      else if "libhardened_malloc-pkey.so".toList ∈ ldPreloadFiles then
        (.info, some (requesting "hardened_malloc-pkey"))
      else (.warn, none)
    let state := state.update ⟨state.name ++ " is not requesting hardened_malloc", some status⟩
      (some ⟨joinLines ["The following flatpak app(s) are not requesting hardened_malloc:",
        namesPlaceholder, "To enable it for an app, run:",
        "$ ujust harden-flatpak com.example.Example", replacingLine], some state.name⟩)
    match extraNote with
    | none => state
    | some note => state.update note none

/-- `_handle_arbitrary_permissions` -/
def handleArbitraryPermissions (state : FlatpakPermissionsState) : FlatpakPermissionsState :=
  if state.arbitraryPermissions then
    let note : Text := state.name ++ " can acquire arbitrary permissions."
    if state.name ∈ arbitraryPermissionsExpected then
      state.update ⟨note ++ "\nHowever, this is required for its functionality.", some .info⟩ none
    else state.update ⟨note, some .fail⟩ none
  else state

/-- `check_flatpak_permissions` -/
def checkFlatpakPermissions (name : Text) (perms : Permissions)
    (bluetoothLoaded ptraceAllowed : Bool) : FlatpakPermissionsState :=
  let state := checkPredefinedFlatpakPermissions { name } perms bluetoothLoaded ptraceAllowed
  let state := checkFsPermissions state perms
  let state := handleFlatpakBuses state perms
  let state := checkLdPreload state perms
  handleArbitraryPermissions state

/-! ### What the checks see -/

/-- The list of a category; an absent one is empty. -/
def permissionList (perms : Permissions) (category : Category) : List Text :=
  (perms.permissions.get category.key).getD []

/-- Whether a check applies depends on the list of its category only. -/
theorem predefinedCheckApplies_eq (check : PermissionCheck) (perms : Permissions)
    (bluetoothLoaded ptraceAllowed : Bool) :
    predefinedCheckApplies check perms bluetoothLoaded ptraceAllowed
      = (!(decide (check.category = .features) &&
          (decide (check.permission = "bluetooth".toList) && !bluetoothLoaded ||
            decide (check.permission = "devel".toList) && !ptraceAllowed)) &&
        decide (check.permission ∈ permissionList perms check.category)) := by
  rw [predefinedCheckApplies, permissionList]
  congr 1
  cases perms.permissions.get check.category.key with
  | none => exact (decide_eq_false List.not_mem_nil).symm
  | some permissions => rfl

theorem predefinedCheckApplies_congr {perms perms' : Permissions}
    (h : ∀ c, permissionList perms c = permissionList perms' c) (check : PermissionCheck)
    (bluetoothLoaded ptraceAllowed : Bool) :
    predefinedCheckApplies check perms bluetoothLoaded ptraceAllowed
      = predefinedCheckApplies check perms' bluetoothLoaded ptraceAllowed := by
  rw [predefinedCheckApplies_eq, predefinedCheckApplies_eq, h]

/-- Without a filesystem permission, the checks after the first find nothing. -/
theorem checkFsPermissions_eq (state : FlatpakPermissionsState) (perms : Permissions) :
    checkFsPermissions state perms
      = let filesystemPerms := filesystemPermsOf (permissionList perms .filesystems)
        checkDangerousDirs (checkOverridesAccess (checkHardenedMallocAccess state filesystemPerms)
          filesystemPerms) filesystemPerms := by
  rw [checkFsPermissions, permissionList]
  cases perms.permissions.get Category.filesystems.key with
  | some permStrings => rfl
  | none =>
    have hoverrides : ∀ st, checkOverridesAccess st ∅ = st := fun st => ite_self st
    have hdirs : ∀ st, checkDangerousDirs st ∅ = st := fun st => List.foldl_fixed _
    exact ((hdirs _).trans (hoverrides _)).symm

/-- The report depends on the five lists, the environment and the names talked to. -/
theorem check_congr {perms perms' : Permissions}
    (hlists : ∀ c, permissionList perms c = permissionList perms' c)
    (henv : perms.environment = perms'.environment)
    (hsession : perms.sessionBusTalk = perms'.sessionBusTalk)
    (hsystem : perms.systemBusTalk = perms'.systemBusTalk) (name : Text)
    (bluetoothLoaded ptraceAllowed : Bool) :
    checkFlatpakPermissions name perms bluetoothLoaded ptraceAllowed
      = checkFlatpakPermissions name perms' bluetoothLoaded ptraceAllowed := by
  have hpredefined : ∀ state, checkPredefinedFlatpakPermissions state perms bluetoothLoaded ptraceAllowed
      = checkPredefinedFlatpakPermissions state perms' bluetoothLoaded ptraceAllowed := by
    intro state
    simp only [checkPredefinedFlatpakPermissions, predefinedCheckApplies_congr hlists]
  have hfs : ∀ state, checkFsPermissions state perms = checkFsPermissions state perms' := by
    intro state
    simp only [checkFsPermissions_eq, hlists]
  have hbuses : ∀ state, handleFlatpakBuses state perms = handleFlatpakBuses state perms' := by
    intro state
    rw [handleFlatpakBuses, hsession, hsystem]
    rfl
  have hpreload : ∀ state, checkLdPreload state perms = checkLdPreload state perms' := by
    intro state
    rw [checkLdPreload, henv]
    rfl
  rw [checkFlatpakPermissions, hpredefined, hfs, hbuses, hpreload]
  rfl

end Flatpak
