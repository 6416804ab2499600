import Secureblue.Py.Json
import Secureblue.Py.Script

/-! The privileged worker that sets the DNS configuration (`inner/dns.py`).

    The worker stops NetworkManager and the resolver, changes units and files, and starts both again.
    Units are flags, `is-enabled` meaning enabled and not masked; the calls of `systemctl` succeed.
    An operation on files may fail at any point, as a parameter `fault` says. -/

namespace Dns
open Py Script

/-! ### Units and files -/

inductive SystemdUnit where
  | networkManager | dnsconfd | resolved | unboundSocket | unboundControlSocket
  deriving DecidableEq

def SystemdUnit.name : SystemdUnit → Text
  | networkManager => "NetworkManager.service"
  | dnsconfd => "dnsconfd.service"
  | resolved => "systemd-resolved.service"
  | unboundSocket => "unbound.socket"
  | unboundControlSocket => "unbound-control.socket"

structure UnitState where
  enabled : Bool
  masked : Bool
  active : Bool
  deriving DecidableEq

/-- `systemctl is-enabled` -/
def UnitState.isEnabled (u : UnitState) : Bool := u.enabled && !u.masked

/-- The actions of `SystemdService`. -/
inductive Action where
  | disable | disableNow | enable | enableNow | stop | start | mask | unmask
  deriving DecidableEq

def Action.apply : Action → UnitState → UnitState
  | disable, u => { u with enabled := false }
  | disableNow, u => { u with enabled := false, active := false }
  | enable, u => { u with enabled := true }
  | enableNow, u => { u with enabled := true, active := true }
  | stop, u => { u with active := false }
  | start, u => { u with active := true }
  | mask, u => { u with masked := true }
  | unmask, u => { u with masked := false }

/-- The configuration files other than `/etc/resolv.conf`. -/
inductive ConfigFile where
  | dnsconfdConf | dnsconfdManager | nmGlobalDns | trivalentPolicy
  deriving DecidableEq

def ConfigFile.path : ConfigFile → Text
  | dnsconfdConf => "/etc/dnsconfd.conf"
  | dnsconfdManager => "/etc/NetworkManager/conf.d/dnsconfd.conf"
  | nmGlobalDns => "/etc/NetworkManager/conf.d/global-dns.conf"
  | trivalentPolicy => "/etc/trivalent/policies/managed/10-securedns-browser.json"

/-- What `/etc/resolv.conf` is, when it exists. -/
inductive ResolvConf where
  | regular (content : Text)
  | symlink (target : Text)
  deriving DecidableEq

def resolvedResolvConfPath : Text := "/run/systemd/resolve/stub-resolv.conf"

structure System where
  units : SystemdUnit → UnitState
  /-- the content of each file that exists -/
  files : ConfigFile → Option Text
  resolvConf : Option ResolvConf
  /-- what was printed -/
  messages : List Text

/-- The operations on files that may fail. -/
inductive FileOp where
  | unlink (f : ConfigFile)
  | mkdirParent (f : ConfigFile)
  | writeText (f : ConfigFile) (content : Text)
  | chmod (f : ConfigFile)
  | unlinkResolvConf
  | touchResolvConf
  | chmodResolvConf
  | chownResolvConf
  | symlinkResolvConf (target : Text)
  deriving DecidableEq

/-- What an operation does when nothing from outside makes it fail. -/
def FileOp.apply : FileOp → System → Except Exn System
  | unlink f, s => .ok { s with files := Function.update s.files f none }
  | mkdirParent _, s => .ok s
  | writeText f content, s => .ok { s with files := Function.update s.files f (some content) }
  | chmod f, s => if (s.files f).isSome then .ok s else .error .fileNotFoundError
  | unlinkResolvConf, s => .ok { s with resolvConf := none }
  | touchResolvConf, s => match s.resolvConf with
    | none => .ok { s with resolvConf := some (.regular []) }
    | some _ => .ok s
  | chmodResolvConf, s => if s.resolvConf.isSome then .ok s else .error .fileNotFoundError
  | chownResolvConf, s => if s.resolvConf.isSome then .ok s else .error .fileNotFoundError
  | symlinkResolvConf target, s => match s.resolvConf with
    | none => .ok { s with resolvConf := some (.symlink target) }
    | some _ => .error .fileExistsError

def systemctl (action : Action) (unit : SystemdUnit) : Script System Unit :=
  act fun s => { s with units := Function.update s.units unit (action.apply (s.units unit)) }

def print (text : Text) : Script System Unit := act fun s => { s with messages := s.messages ++ [text] }

/-- `is_enabled` -/
def isEnabled (unit : SystemdUnit) : Script System Bool := do
  let s ← get
  return (s.units unit).isEnabled

/-! ### The code -/

/-- A DNS resolver, such as Unbound or systemd-resolved. -/
inductive DNSResolver where | unbound | resolved
  deriving DecidableEq

/-- Gets the systemd service associated with this resolver. -/
def DNSResolver.service : DNSResolver → SystemdUnit
  | unbound => .dnsconfd
  | resolved => .resolved

def restartDevice : Text := "Continuing anyway. You may need to restart your device after this change."

/-- The warnings of `get_current`. -/
def multipleEnabled : Text := "Warning: multiple DNS resolvers are enabled.\n" ++ restartDevice

def noneEnabled : Text := "Warning: dnsconfd.service and systemd-resolved.service are disabled.\n" ++ restartDevice

/-- Gets the resolver whose systemd service is enabled. -/
def DNSResolver.getCurrent : Script System DNSResolver := do
  let unboundEnabled ← isEnabled DNSResolver.unbound.service
  let resolvedEnabled ← isEnabled DNSResolver.resolved.service
  if unboundEnabled && resolvedEnabled then
    print multipleEnabled
    return .unbound
  else if !unboundEnabled && !resolvedEnabled then
    print noneEnabled
    return .unbound
  else return if unboundEnabled then .unbound else .resolved

/-- No operation on files fails. -/
def noFault (_ : FileOp) (_ : System) : Option Exn := none

section
variable (fault : FileOp → System → Option Exn)

/-- An operation on files, which fails where `fault` says so. -/
def perform (op : FileOp) : Script System Unit := attempt fun s =>
  match fault op s with
  | some e => .error e
  | none => op.apply s

/-- Sets the DNS resolver (e.g. dnsconfd-unbound, systemd-resolved) to use. -/
def setResolver (resolver : DNSResolver) : Script System Unit :=
  match resolver with
  | .unbound => do
    systemctl .mask DNSResolver.resolved.service
    systemctl .disable DNSResolver.resolved.service
    perform fault (.writeText .dnsconfdManager "[main]\ndns=dnsconfd\n")
    perform fault (.chmod .dnsconfdManager)
    perform fault .unlinkResolvConf
    perform fault .touchResolvConf
    perform fault .chmodResolvConf
    perform fault .chownResolvConf
    systemctl .enableNow .unboundSocket
    systemctl .enableNow .unboundControlSocket
    systemctl .unmask DNSResolver.unbound.service
    systemctl .enable DNSResolver.unbound.service
  | .resolved => do
    systemctl .disable DNSResolver.unbound.service
    systemctl .mask DNSResolver.unbound.service
    systemctl .disableNow .unboundSocket
    systemctl .disableNow .unboundControlSocket
    perform fault (.unlink .dnsconfdManager)
    perform fault .unlinkResolvConf
    perform fault (.symlinkResolvConf resolvedResolvConfPath)
    systemctl .unmask DNSResolver.resolved.service
    systemctl .enable DNSResolver.resolved.service

/-- The file that `set_global_nm_servers` writes. -/
def globalDnsText (servers : Text) : Text :=
  strip (dedent ("\n        [global-dns]\n        resolve-mode=exclusive\n\n        [global-dns-domain-*]\n        servers="
    ++ servers ++ "\n        ")) ++ ['\n']

/-- Set NetworkManager global DNS servers. -/
def setGlobalNmServers (servers : Option Text) : Script System Unit :=
  if servers.getD [] = [] then perform fault (.unlink .nmGlobalDns)
  else do
    perform fault (.mkdirParent .nmGlobalDns)
    perform fault (.writeText .nmGlobalDns (globalDnsText (servers.getD [])))
    perform fault (.chmod .nmGlobalDns)

/-- The file that `set_trivalent_doh_endpoint` writes. -/
def trivalentPolicyText (httpsEndpoint : Text) : Text :=
  Json.dumpsObject [("DnsOverHttpsMode", "secure"), ("DnsOverHttpsTemplates", httpsEndpoint)] ++ ['\n']

/-- Sets Trivalent DNS over HTTPS policy. -/
def setTrivalentDohEndpoint (httpsEndpoint : Option Text) : Script System Unit :=
  if httpsEndpoint.getD [] = [] then perform fault (.unlink .trivalentPolicy)
  else do
    perform fault (.mkdirParent .trivalentPolicy)
    perform fault (.writeText .trivalentPolicy (trivalentPolicyText (httpsEndpoint.getD [])))
    perform fault (.chmod .trivalentPolicy)

/-- Enables/disables local DNSSEC validation by Unbound. -/
def setDnssecEnabled (shouldValidate : Bool) : Script System Unit :=
  if !shouldValidate then perform fault (.unlink .dnsconfdConf)
  else do
    perform fault (.writeText .dnsconfdConf "dnssec_enabled: yes\n")
    perform fault (.chmod .dnsconfdConf)

/-- A command that brings down the network stack. -/
inductive StackCommand where
  | reset
  | setDnssec (dnssecEnabled : Bool)
  | setGlobal (servers : Text) (dnssecEnabled : Bool) (dohUrl : Option Text)
  | setResolver (resolver : DNSResolver)

/-- What `parse_args` accepts. -/
inductive Command where
  | setTrivalentDoh (dohUrl : Text)
  | stack (command : StackCommand)

/-- The `match` of `main`; the result is whether `main` goes on behind it. -/
def configure : StackCommand → Script System Bool
  | .reset => do
    setResolver fault .unbound
    setGlobalNmServers fault none
    setDnssecEnabled fault false
    setTrivalentDohEndpoint fault none
    return true
  | .setDnssec dnssecEnabled => do
    setResolver fault .unbound
    setDnssecEnabled fault dnssecEnabled
    return true
  | .setGlobal servers dnssecEnabled dohUrl => do
    if (← DNSResolver.getCurrent) ≠ .unbound then
      print "Global DNS is only supported with Unbound."
      return false
    else
      setGlobalNmServers fault (some servers)
      setDnssecEnabled fault dnssecEnabled
      setTrivalentDohEndpoint fault dohUrl
      return true
  | .setResolver resolver => do
    setGlobalNmServers fault none
    setDnssecEnabled fault false
    setResolver fault resolver
    return true

/-- The first lines of `main` below "Stop everything". -/
def stopAll : Script System Unit := do
  print "Configuring DNS. Your connection will be reset. Please wait."
  systemctl .stop .networkManager
  let resolver ← DNSResolver.getCurrent
  systemctl .stop resolver.service

/-- The last lines of `main`. -/
def startAll : Script System Unit := do
  let resolver ← DNSResolver.getCurrent
  systemctl .start resolver.service
  systemctl .start .networkManager

/-- Configure DNS according to command-line arguments. -/
def main : Command → Script System Unit
  | .setTrivalentDoh dohUrl => do
    setTrivalentDohEndpoint fault (some dohUrl)
    print "Configured DNS over HTTPS in Trivalent only."
  | .stack command => do
    stopAll
    if ← configure fault command then startAll

end

/-! ### The configuration -/

/-- A unit without its running state. -/
structure Flags where
  enabled : Bool
  masked : Bool
  deriving DecidableEq

def Flags.isEnabled (u : Flags) : Bool := u.enabled && !u.masked

def UnitState.flags (u : UnitState) : Flags := ⟨u.enabled, u.masked⟩

/-- What an action does to the flags. -/
def Action.onFlags : Action → Flags → Flags
  | disable, u | disableNow, u => { u with enabled := false }
  | enable, u | enableNow, u => { u with enabled := true }
  | stop, u | start, u => u
  | mask, u => { u with masked := true }
  | unmask, u => { u with masked := false }

theorem Action.flags_apply (action : Action) (u : UnitState) :
    (action.apply u).flags = action.onFlags u.flags := by
  cases action <;> rfl

/-- What is left of a system when it reboots. -/
@[ext] structure Configuration where
  units : SystemdUnit → Flags
  files : ConfigFile → Option Text
  resolvConf : Option ResolvConf

def System.configuration (s : System) : Configuration :=
  ⟨fun u => (s.units u).flags, s.files, s.resolvConf⟩

/-- The resolver that `get_current` answers. -/
def Configuration.current (c : Configuration) : DNSResolver :=
  if !(c.units .dnsconfd).isEnabled && (c.units .resolved).isEnabled then .resolved else .unbound

def System.current (s : System) : DNSResolver := s.configuration.current

def Configuration.systemctl (c : Configuration) (action : Action) (unit : SystemdUnit) :
    Configuration :=
  { c with units := Function.update c.units unit (action.onFlags (c.units unit)) }

theorem exec_systemctl (action : Action) (unit : SystemdUnit) (s : System) :
    ∃ s', exec (systemctl action unit) s = (.ok (), s') ∧
      s'.configuration = s.configuration.systemctl action unit ∧
      (s'.units unit).active = (action.apply (s.units unit)).active ∧
      ∀ u ≠ unit, s'.units u = s.units u := by
  refine ⟨_, rfl, Configuration.ext ?_ rfl rfl, ?_, fun u hu => Function.update_of_ne hu _ _⟩
  · funext u
    rcases eq_or_ne u unit with rfl | hu
    · simp [System.configuration, Configuration.systemctl, Action.flags_apply]
    · simp [System.configuration, Configuration.systemctl, hu]
  · exact congrArg UnitState.active (Function.update_self _ _ _)

theorem systemctl_start (c : Configuration) (unit : SystemdUnit) : c.systemctl .start unit = c :=
  Configuration.ext (Function.update_eq_self _ _) rfl rfl

theorem systemctl_stop (c : Configuration) (unit : SystemdUnit) : c.systemctl .stop unit = c :=
  Configuration.ext (Function.update_eq_self _ _) rfl rfl

theorem exec_getCurrent (s : System) :
    ∃ messages, exec DNSResolver.getCurrent s = (.ok s.current, { s with messages }) := by
  have hrun : exec DNSResolver.getCurrent s = exec (do
      if (s.units .dnsconfd).isEnabled && (s.units .resolved).isEnabled then
        print multipleEnabled
        return DNSResolver.unbound
      else if !(s.units .dnsconfd).isEnabled && !(s.units .resolved).isEnabled then
        print noneEnabled
        return .unbound
      else return if (s.units .dnsconfd).isEnabled then .unbound else .resolved) s := rfl
  have hcurrent : s.current = if !(s.units .dnsconfd).isEnabled && (s.units .resolved).isEnabled
    then .resolved else .unbound := rfl
  rw [hrun, hcurrent]
  cases (s.units .dnsconfd).isEnabled <;> cases (s.units .resolved).isEnabled <;> exact ⟨_, rfl⟩

/-! ### Whether the network runs again -/

/-- NetworkManager and the service of the enabled resolver are running. -/
def System.Running (s : System) : Prop :=
  (s.units .networkManager).active ∧ (s.units s.current.service).active

instance (s : System) : Decidable s.Running := inferInstanceAs (Decidable (_ ∧ _))

theorem System.running_congr {s s' : System} (h : s'.units = s.units) : s'.Running ↔ s.Running := by
  obtain ⟨units, files, resolvConf, messages⟩ := s
  obtain ⟨units', files', resolvConf', messages'⟩ := s'
  cases h
  rfl

theorem DNSResolver.service_ne_networkManager (r : DNSResolver) : r.service ≠ .networkManager := by
  cases r <;> decide

/-- NetworkManager is down behind the first part of `main`, and nothing is configured yet. -/
theorem exec_stopAll (s : System) :
    ∃ s', exec stopAll s = (.ok (), s') ∧ s'.configuration = s.configuration ∧
      (s'.units .networkManager).active = false := by
  have hne := DNSResolver.service_ne_networkManager
  obtain ⟨s₁, hs₁, hc₁, ha₁, -⟩ := exec_systemctl .stop .networkManager
    { s with messages := s.messages ++ [("Configuring DNS. Your connection will be reset. Please wait." : Text)] }
  obtain ⟨messages, hcurrent⟩ := exec_getCurrent s₁
  obtain ⟨s₂, hs₂, hc₂, -, hu₂⟩ := exec_systemctl .stop s₁.current.service { s₁ with messages }
  refine ⟨s₂, ?_, ?_, ?_⟩
  · refine exec_bind_eq_ok.mpr ⟨(), _, rfl, exec_bind_eq_ok.mpr ⟨(), s₁, hs₁,
      exec_bind_eq_ok.mpr ⟨_, _, hcurrent, hs₂⟩⟩⟩
  · rw [hc₂, systemctl_stop]
    rw [systemctl_stop] at hc₁
    exact hc₁
  · rw [hu₂ _ (hne _).symm]
    exact ha₁

theorem exec_startAll (s : System) :
    ∃ s', exec startAll s = (.ok (), s') ∧ s'.configuration = s.configuration ∧ s'.Running := by
  have hne := DNSResolver.service_ne_networkManager
  obtain ⟨messages, hcurrent⟩ := exec_getCurrent s
  obtain ⟨s₁, hs₁, hc₁, ha₁, -⟩ := exec_systemctl .start s.current.service { s with messages }
  obtain ⟨s₂, hs₂, hc₂, ha₂, hu₂⟩ := exec_systemctl .start .networkManager s₁
  have hc : s₂.configuration = s.configuration := by
    rw [hc₂, systemctl_start, hc₁, systemctl_start]
    rfl
  refine ⟨s₂, exec_bind_eq_ok.mpr ⟨_, _, hcurrent, exec_bind_eq_ok.mpr ⟨(), s₁, hs₁, hs₂⟩⟩, hc, ha₂, ?_⟩
  rw [System.current, hc, ← System.current, hu₂ _ (hne _)]
  exact ha₁

section
variable {fault : FileOp → System → Option Exn} {s s' : System}

theorem units_of_apply {op : FileOp} (h : op.apply s = .ok s') : s'.units = s.units := by
  cases op <;> simp only [FileOp.apply] at h <;> (try split at h) <;> cases h <;> rfl

theorem units_of_perform {op : FileOp} (h : exec (perform fault op) s = (.ok (), s')) :
    s'.units = s.units := by
  rw [perform, exec_attempt_eq_ok] at h
  split at h
  · cases h
  · exact units_of_apply h

theorem units_of_setTrivalentDohEndpoint {httpsEndpoint : Option Text}
    (h : exec (setTrivalentDohEndpoint fault httpsEndpoint) s = (.ok (), s')) :
    s'.units = s.units := by
  rw [setTrivalentDohEndpoint] at h
  split at h
  · exact units_of_perform h
  · obtain ⟨⟨⟩, s₁, h₁, h⟩ := exec_bind_eq_ok.mp h
    obtain ⟨⟨⟩, s₂, h₂, h⟩ := exec_bind_eq_ok.mp h
    rw [units_of_perform h, units_of_perform h₂, units_of_perform h₁]

/-- Whether `main` refuses the command. -/
def StackCommand.refused : StackCommand → DNSResolver → Bool
  | .setGlobal .., resolver => decide (resolver ≠ .unbound)
  | _, _ => false

/-- `main` returns inside the `match` where it refuses the command, and has changed no unit there. -/
theorem exec_configure_eq_ok {command : StackCommand} {goesOn : Bool}
    (h : exec (configure fault command) s = (.ok goesOn, s')) :
    goesOn = !command.refused s.current ∧ (goesOn = false → s'.units = s.units) := by
  cases command with
  | reset =>
    obtain ⟨_, _, -, h⟩ := exec_bind_eq_ok.mp h
    obtain ⟨_, _, -, h⟩ := exec_bind_eq_ok.mp h
    obtain ⟨_, _, -, h⟩ := exec_bind_eq_ok.mp h
    obtain ⟨_, _, -, h⟩ := exec_bind_eq_ok.mp h
    cases h
    exact ⟨rfl, nofun⟩
  | setDnssec dnssecEnabled =>
    obtain ⟨_, _, -, h⟩ := exec_bind_eq_ok.mp h
    obtain ⟨_, _, -, h⟩ := exec_bind_eq_ok.mp h
    cases h
    exact ⟨rfl, nofun⟩
  | setGlobal servers dnssecEnabled dohUrl =>
    obtain ⟨resolver, s₁, hcurrent, h⟩ := exec_bind_eq_ok.mp h
    obtain ⟨messages, hs⟩ := exec_getCurrent s
    cases hs.symm.trans hcurrent
    by_cases hr : s.current = .unbound
    · rw [if_neg (not_not_intro hr)] at h
      obtain ⟨_, _, -, h⟩ := exec_bind_eq_ok.mp h
      obtain ⟨_, _, -, h⟩ := exec_bind_eq_ok.mp h
      obtain ⟨_, _, -, h⟩ := exec_bind_eq_ok.mp h
      cases h
      exact ⟨by simp [StackCommand.refused, hr], nofun⟩
    · rw [if_pos hr] at h
      cases h
      exact ⟨by simp [StackCommand.refused, hr], fun _ => rfl⟩
  | setResolver resolver =>
    obtain ⟨_, _, -, h⟩ := exec_bind_eq_ok.mp h
    obtain ⟨_, _, -, h⟩ := exec_bind_eq_ok.mp h
    obtain ⟨_, _, -, h⟩ := exec_bind_eq_ok.mp h
    cases h
    exact ⟨rfl, nofun⟩

/-- The command leaves the network running: `main` does not refuse it behind `stopAll`, and
    `set-trivalent-doh`, which stops nothing, finds the network running. -/
def Command.KeepsRunning : Command → System → Prop
  | .setTrivalentDoh _, s => s.Running
  | .stack command, s => command.refused s.current = false

end

/-- CORRECT: when `main` returns, the network is running exactly if `main` does not return behind
    `stopAll`. -/
theorem main_running_iff (fault : FileOp → System → Option Exn) (command : Command) (s s' : System)
    (h : exec (main fault command) s = (.ok (), s')) : s'.Running ↔ command.KeepsRunning s := by
  cases command with
  | setTrivalentDoh dohUrl =>
    obtain ⟨⟨⟩, s₁, h₁, h⟩ := exec_bind_eq_ok.mp h
    have hunits := units_of_setTrivalentDohEndpoint h₁
    cases h
    exact System.running_congr hunits
  | stack command =>
    obtain ⟨s₁, hs₁, hc₁, hstopped⟩ := exec_stopAll s
    obtain ⟨⟨⟩, _, h₁, h⟩ := exec_bind_eq_ok.mp h
    cases hs₁.symm.trans h₁
    obtain ⟨goesOn, s₂, h₂, h⟩ := exec_bind_eq_ok.mp h
    obtain ⟨hgoesOn, hunits⟩ := exec_configure_eq_ok h₂
    rw [show s₁.current = s.current from congrArg Configuration.current hc₁] at hgoesOn
    cases goesOn with
    | false =>
      cases h
      have hrefused : command.refused s.current = true := by simpa using hgoesOn
      have hdown : ¬ s'.Running := fun hr => by
        rw [System.Running, hunits rfl, hstopped] at hr
        exact absurd hr.1 Bool.false_ne_true
      simp [Command.KeepsRunning, hrefused, hdown]
    | true =>
      obtain ⟨s₃, hs₃, -, hrunning⟩ := exec_startAll s₂
      cases hs₃.symm.trans h
      have hrefused : command.refused s.current = false := by simpa using hgoesOn
      simp [Command.KeepsRunning, hrefused, hrunning]

/-- A running system as `set-resolver resolved` leaves it. -/
def resolvedSystem : System where
  units
    | .networkManager | .resolved => ⟨true, false, true⟩
    | .dnsconfd => ⟨false, true, false⟩
    | .unboundSocket | .unboundControlSocket => ⟨false, false, false⟩
  files _ := none
  resolvConf := some (.symlink resolvedResolvConfPath)
  messages := []

theorem main_running_reset :
    (exec (main noFault (.stack .reset)) resolvedSystem).2.Running ↔
      (Command.stack .reset).KeepsRunning resolvedSystem :=
  main_running_iff noFault (.stack .reset) resolvedSystem _ rfl

/-- `set-global` takes the network down where systemd-resolved is in use, and returns. -/
theorem main_setGlobal_stops : resolvedSystem.Running ∧
    ∃ s', exec (main noFault (.stack (.setGlobal "1.1.1.1" false none))) resolvedSystem = (.ok (), s') ∧
      ¬ s'.Running ∧ (s'.units .networkManager).active = false :=
  ⟨by decide, _, rfl, by decide, rfl⟩

end Dns
