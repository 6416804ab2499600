import Secureblue.Dns.GlobalDns

/-! The arguments of the toggle scripts (`parse_basic_toggle_args`, `shared/utils.py`): `on`, `off`,
    `status` or `help`, or a question when there is none. -/

namespace Toggle
open Py Dns.Selector

/-- Valid mode for toggle script: 'on', 'off', 'status', or 'help'. -/
inductive ToggleMode where | on | off | status | help
  deriving DecidableEq

/-- What comes of the arguments and the lines that the user enters. -/
inductive Parsed where
  | mode (m : ToggleMode) (left : List Line)
  /-- `CommandUsageError` -/
  | usage (msg : Text)
  /-- the input ended, or was interrupted: exit code 130 -/
  | interrupted

/-- `ToggleMode(mode)` -/
def ToggleMode.ofText (mode : Text) : Option ToggleMode :=
  if mode = "on" then some on
  else if mode = "off" then some off
  else if mode = "status" then some status
  else if mode = "help" then some help
  else none

/-- Parse command-line arguments into a ToggleMode; `prompt` says whether there is one. -/
def parseBasicToggleArgs (casefold : Text → Text) (prompt : Bool) (args : List Text) (lines : List Line) : Parsed :=
  match args with
  | [] =>
    if prompt then
      match askYesNo casefold lines with
      | some (true, left) => .mode .on left
      | some (false, left) => .mode .off left
      | none => .interrupted
    else .usage "Too many options specified"
  | [arg] =>
    let mode := casefold arg
    if mode = "help" ∨ mode = "-h" ∨ mode = "--help" then .mode .help lines
    else match ToggleMode.ofText mode with
      | some m => .mode m lines
      | none => .usage "Invalid option selected"
  | _ :: _ :: _ => .usage "Too many options specified"

/-- What the scripts print for a usage error. -/
def usageError (msg : Text) : Text := "Usage error: " ++ msg ++ ". See usage with --help."

/-- The mode that is asked for, if there is one. -/
def Parsed.asked : Parsed → Option ToggleMode
  | mode m _ => some m
  | usage _ | interrupted => none

/-- An argument that names a mode is read as this mode, and nothing is asked. -/
theorem parse_ofText {casefold : Text → Text} {prompt : Bool} {arg : Text} {m : ToggleMode} {lines : List Line}
    (h : ToggleMode.ofText (casefold arg) = some m) :
    parseBasicToggleArgs casefold prompt [arg] lines = .mode m lines := by
  rw [parseBasicToggleArgs]
  split_ifs with hhelp
  · rcases hhelp with hhelp | hhelp | hhelp
    · rw [hhelp, show ToggleMode.ofText "help" = some .help by decide] at h
      rw [Option.some.inj h]
    · rw [hhelp, show ToggleMode.ofText "-h" = none by decide] at h
      exact nomatch h
    · rw [hhelp, show ToggleMode.ofText "--help" = none by decide] at h
      exact nomatch h
  · rw [h]

end Toggle
