import Secureblue.Dns.Worker

/-! Runs of the DNS worker, against the settings that its commands are about.

    A user chooses a resolver, global servers, DNSSEC and an endpoint for Trivalent. The units and
    files of a system whose worker was reset once are always the layout of such a choice, and every
    command changes the choice the way its name says; what holds of every layout holds in every run. -/

namespace Dns
open Py Script

/-- What the commands are about. Nothing is chosen beside systemd-resolved but the browser's endpoint. -/
structure Settings where
  resolver : DNSResolver
  globalServers : Option Text
  dnssec : Bool
  dohEndpoint : Option Text
  plain : resolver = .resolved → globalServers = none ∧ dnssec = false

namespace Settings

def default : Settings := ⟨.unbound, none, false, none, nofun⟩

/-- An argument of a command, for which empty means none. -/
def given (text : Option Text) : Option Text := text.filter (· ≠ [])

/-- What a command does to the settings. -/
def after : Command → Settings → Settings
  | .setTrivalentDoh dohUrl, p => { p with dohEndpoint := given (some dohUrl) }
  | .stack .reset, _ => default
  | .stack (.setDnssec dnssecEnabled), p =>
    { p with resolver := .unbound, dnssec := dnssecEnabled, plain := nofun }
  | .stack (.setGlobal servers dnssecEnabled dohUrl), p =>
    if p.resolver = .unbound then ⟨.unbound, given (some servers), dnssecEnabled, given dohUrl, nofun⟩
    else p
  | .stack (.setResolver resolver), p => ⟨resolver, none, false, p.dohEndpoint, fun _ => ⟨rfl, rfl⟩⟩

/-- The units and files of the settings. The worker leaves the flags of NetworkManager and the masks
    of the sockets as it finds them, in `base`. -/
def layout (base : Configuration) (p : Settings) : Configuration where
  units
    | .networkManager => base.units .networkManager
    | .dnsconfd => ⟨p.resolver = .unbound, p.resolver ≠ .unbound⟩
    | .resolved => ⟨p.resolver = .resolved, p.resolver ≠ .resolved⟩
    | .unboundSocket => ⟨p.resolver = .unbound, (base.units .unboundSocket).masked⟩
    | .unboundControlSocket => ⟨p.resolver = .unbound, (base.units .unboundControlSocket).masked⟩
  files
    | .dnsconfdConf => if p.dnssec then some "dnssec_enabled: yes\n" else none
    | .dnsconfdManager => if p.resolver = .unbound then some "[main]\ndns=dnsconfd\n" else none
    | .nmGlobalDns => p.globalServers.map globalDnsText
    | .trivalentPolicy => p.dohEndpoint.map trivalentPolicyText
  resolvConf := match p.resolver with
    | .unbound => some (.regular [])
    | .resolved => some (.symlink resolvedResolvConfPath)

end Settings

/-! ### What the parts of the worker do -/

namespace Configuration

/-- The configuration with other content in a file. -/
def put (c : Configuration) (f : ConfigFile) (content : Option Text) : Configuration :=
  { c with files := Function.update c.files f content }

@[simp] theorem files_put (c : Configuration) (f : ConfigFile) (content : Option Text) :
    (c.put f content).files f = content := by
  simp [put]

/-- The configuration with another resolver. -/
def withResolver (c : Configuration) (resolver : DNSResolver) : Configuration where
  units
    | .networkManager => c.units .networkManager
    | .dnsconfd => ⟨resolver = .unbound, resolver ≠ .unbound⟩
    | .resolved => ⟨resolver = .resolved, resolver ≠ .resolved⟩
    | .unboundSocket => ⟨resolver = .unbound, (c.units .unboundSocket).masked⟩
    | .unboundControlSocket => ⟨resolver = .unbound, (c.units .unboundControlSocket).masked⟩
  files := (c.put .dnsconfdManager
    (if resolver = .unbound then some "[main]\ndns=dnsconfd\n" else none)).files
  resolvConf := match resolver with
    | .unbound => some (.regular [])
    | .resolved => some (.symlink resolvedResolvConfPath)

end Configuration

section
variable {c c' : Configuration} {f : ConfigFile}

theorem takes_print (text : Text) : Takes System.configuration (print text) c () c :=
  Takes.act (g := id) fun _ => rfl

theorem takes_getCurrent : Takes System.configuration DNSResolver.getCurrent c c.current c := by
  rintro s rfl
  obtain ⟨messages, hs⟩ := exec_getCurrent s
  exact ⟨_, hs, rfl⟩

theorem takes_unlink : Takes System.configuration (perform noFault (.unlink f)) c () (c.put f none) :=
  Takes.attempt fun _ hs => ⟨_, rfl, by subst hs; rfl⟩

theorem takes_mkdirParent : Takes System.configuration (perform noFault (.mkdirParent f)) c () c :=
  Takes.attempt fun s hs => ⟨s, rfl, hs⟩

theorem takes_writeText (content : Text) :
    Takes System.configuration (perform noFault (.writeText f content)) c () (c.put f (some content)) :=
  Takes.attempt fun _ hs => ⟨_, rfl, by subst hs; rfl⟩

theorem takes_chmod (h : (c.files f).isSome) :
    Takes System.configuration (perform noFault (.chmod f)) c () c :=
  Takes.attempt fun s hs => ⟨s, if_pos (by subst hs; exact h), hs⟩

/-- What the worker writes into a file, or that it removes it. -/
theorem takes_install (content : Text) : Takes System.configuration (do
      perform noFault (.mkdirParent f)
      perform noFault (.writeText f content)
      perform noFault (.chmod f)) c () (c.put f (some content)) :=
  takes_mkdirParent.bind <| (takes_writeText content).bind <|
    takes_chmod (by simp)

theorem takes_setResolver (resolver : DNSResolver) :
    Takes System.configuration (setResolver noFault resolver) c () (c.withResolver resolver) := by
  rintro s rfl
  cases resolver with
  | unbound =>
    refine ⟨_, rfl, Configuration.ext (funext fun u => ?_) rfl rfl⟩
    cases u <;> rfl
  | resolved =>
    refine ⟨_, rfl, Configuration.ext (funext fun u => ?_) rfl rfl⟩
    cases u <;> rfl

theorem map_given {g : Text → Text} (text : Option Text) :
    (Settings.given text).map g = if text.getD [] = [] then none else some (g (text.getD [])) := by
  cases text with
  | none => rfl
  | some text => by_cases ht : text = [] <;> simp [Settings.given, Option.filter, ht]

theorem takes_setGlobalNmServers (servers : Option Text) :
    Takes System.configuration (setGlobalNmServers noFault servers) c ()
      (c.put .nmGlobalDns ((Settings.given servers).map globalDnsText)) := by
  rw [setGlobalNmServers, map_given]
  split
  · exact takes_unlink
  · exact takes_install _

theorem takes_setTrivalentDohEndpoint (httpsEndpoint : Option Text) :
    Takes System.configuration (setTrivalentDohEndpoint noFault httpsEndpoint) c ()
      (c.put .trivalentPolicy ((Settings.given httpsEndpoint).map trivalentPolicyText)) := by
  rw [setTrivalentDohEndpoint, map_given]
  split
  · exact takes_unlink
  · exact takes_install _

theorem takes_setDnssecEnabled (shouldValidate : Bool) :
    Takes System.configuration (setDnssecEnabled noFault shouldValidate) c ()
      (c.put .dnsconfdConf (if shouldValidate then some "dnssec_enabled: yes\n" else none)) := by
  cases shouldValidate with
  | false => exact takes_unlink
  | true =>
    exact (takes_writeText _).bind <| takes_chmod (by simp)

theorem takes_stopAll : Takes System.configuration stopAll c () c := by
  rintro s rfl
  obtain ⟨s', hs', hc', -⟩ := exec_stopAll s
  exact ⟨s', hs', hc'⟩

theorem takes_startAll : Takes System.configuration startAll c () c := by
  rintro s rfl
  obtain ⟨s', hs', hc', -⟩ := exec_startAll s
  exact ⟨s', hs', hc'⟩

end

/-! ### Commands and settings -/

section
variable (base : Configuration) (p : Settings)

theorem current_layout : (p.layout base).current = p.resolver := by
  obtain ⟨resolver, globalServers, dnssec, dohEndpoint, plain⟩ := p
  cases resolver <;> rfl

theorem layout_layout (q : Settings) : q.layout (p.layout base) = q.layout base := by
  refine Configuration.ext (funext fun u => ?_) rfl rfl
  cases u <;> rfl

/-- Stopping and starting leave the configuration to what is between them. -/
theorem takes_stack {command : StackCommand} {c c' : Configuration} {b : Bool}
    (h : Takes System.configuration (configure noFault command) c b c') :
    Takes System.configuration (main noFault (.stack command)) c () c' := by
  refine takes_stopAll.bind (h.bind ?_)
  cases b with
  | false => exact Takes.pure
  | true => exact takes_startAll

/-- A reset makes the layout of the default settings, whatever there was. -/
theorem takes_reset : Takes System.configuration (main noFault (.stack .reset)) base ()
    (Settings.default.layout base) := by
  have hlayout : (((base.withResolver .unbound).put .nmGlobalDns none).put .dnsconfdConf none).put
      .trivalentPolicy none = Settings.default.layout base := by
    refine Configuration.ext (funext fun u => ?_) (funext fun f => ?_) rfl
    · cases u <;> rfl
    · cases f <;> rfl
  rw [← hlayout]
  exact takes_stack <| (takes_setResolver .unbound).bind <| (takes_setGlobalNmServers none).bind <|
    (takes_setDnssecEnabled false).bind <| (takes_setTrivalentDohEndpoint none).bind <|
    Takes.pure

theorem takes_setDnssec (dnssecEnabled : Bool) :
    Takes System.configuration (main noFault (.stack (.setDnssec dnssecEnabled))) (p.layout base) ()
      ((p.after (.stack (.setDnssec dnssecEnabled))).layout base) := by
  have hlayout : ((p.layout base).withResolver .unbound).put .dnsconfdConf
      (if dnssecEnabled then some "dnssec_enabled: yes\n" else none) =
      (p.after (.stack (.setDnssec dnssecEnabled))).layout base := by
    refine Configuration.ext (funext fun u => ?_) (funext fun f => ?_) rfl
    · cases u <;> rfl
    · cases f <;> rfl
  rw [← hlayout]
  exact takes_stack <| (takes_setResolver .unbound).bind <|
    (takes_setDnssecEnabled dnssecEnabled).bind <| Takes.pure

theorem takes_setGlobal (servers : Text) (dnssecEnabled : Bool) (dohUrl : Option Text) :
    Takes System.configuration (main noFault (.stack (.setGlobal servers dnssecEnabled dohUrl)))
      (p.layout base) () ((p.after (.stack (.setGlobal servers dnssecEnabled dohUrl))).layout base) := by
  obtain ⟨resolver, globalServers, dnssec, dohEndpoint, plain⟩ := p
  have hcurrent := current_layout base ⟨resolver, globalServers, dnssec, dohEndpoint, plain⟩
  cases resolver with
  | unbound =>
    have hlayout : (((Settings.layout base ⟨.unbound, globalServers, dnssec, dohEndpoint, plain⟩).put
        .nmGlobalDns ((Settings.given (some servers)).map globalDnsText)).put .dnsconfdConf
        (if dnssecEnabled then some "dnssec_enabled: yes\n" else none)).put .trivalentPolicy
        ((Settings.given dohUrl).map trivalentPolicyText) =
        Settings.layout base ⟨.unbound, Settings.given (some servers), dnssecEnabled,
          Settings.given dohUrl, nofun⟩ := by
      refine Configuration.ext (funext fun u => ?_) (funext fun f => ?_) rfl
      · cases u <;> rfl
      · cases f <;> rfl
    refine takes_stack (b := true) (takes_getCurrent.bind ?_)
    rw [hcurrent]
    change Takes _ _ _ _ (Settings.layout base ⟨.unbound, _, _, _, _⟩)
    rw [← hlayout]
    exact (takes_setGlobalNmServers _).bind <| (takes_setDnssecEnabled dnssecEnabled).bind <|
      (takes_setTrivalentDohEndpoint dohUrl).bind <| Takes.pure
  | resolved =>
    refine takes_stack (b := false) (takes_getCurrent.bind ?_)
    rw [hcurrent]
    exact (takes_print _).bind Takes.pure

theorem takes_setResolverCommand (resolver : DNSResolver) :
    Takes System.configuration (main noFault (.stack (.setResolver resolver))) (p.layout base) ()
      ((p.after (.stack (.setResolver resolver))).layout base) := by
  have hlayout : (((p.layout base).put .nmGlobalDns none).put .dnsconfdConf none).withResolver resolver =
      (p.after (.stack (.setResolver resolver))).layout base := by
    refine Configuration.ext (funext fun u => ?_) (funext fun f => ?_) rfl
    · cases u <;> rfl
    · cases f <;> rfl
  rw [← hlayout]
  exact takes_stack <| (takes_setGlobalNmServers none).bind <| (takes_setDnssecEnabled false).bind <|
    (takes_setResolver resolver).bind <| Takes.pure

theorem takes_setTrivalentDoh (dohUrl : Text) :
    Takes System.configuration (main noFault (.setTrivalentDoh dohUrl)) (p.layout base) ()
      ((p.after (.setTrivalentDoh dohUrl)).layout base) := by
  have hlayout : (p.layout base).put .trivalentPolicy
      ((Settings.given (some dohUrl)).map trivalentPolicyText) =
      (p.after (.setTrivalentDoh dohUrl)).layout base := by
    refine Configuration.ext rfl (funext fun f => ?_) rfl
    cases f <;> rfl
  rw [← hlayout]
  exact (takes_setTrivalentDohEndpoint (some dohUrl)).bind (takes_print _)

/-- Every command changes the layout as it changes the settings. -/
theorem takes_main (command : Command) : Takes System.configuration (main noFault command)
    (p.layout base) () ((p.after command).layout base) := by
  cases command with
  | setTrivalentDoh dohUrl => exact takes_setTrivalentDoh base p dohUrl
  | stack command =>
    cases command with
    | reset => exact layout_layout base p .default ▸ takes_reset (p.layout base)
    | setDnssec dnssecEnabled => exact takes_setDnssec base p dnssecEnabled
    | setGlobal servers dnssecEnabled dohUrl => exact takes_setGlobal base p servers dnssecEnabled dohUrl
    | setResolver resolver => exact takes_setResolverCommand base p resolver

/-! ### Runs -/

/-- A run of the worker, one command after the other. -/
def session : List Command → Script System Unit
  | [] => pure ()
  | command :: commands => do
    main noFault command
    session commands

theorem takes_session (commands : List Command) : ∀ p : Settings,
    Takes System.configuration (session commands) (p.layout base) ()
      ((commands.foldl (fun p command => p.after command) p).layout base) := by
  induction commands with
  | nil => exact fun p => Takes.pure
  | cons command commands ih => exact fun p => (takes_main base p command).bind (ih (p.after command))

end

/-- The units and files agree on the resolver in use; `base` is the configuration that the worker
    found first. -/
structure Consistent (base c : Configuration) : Prop where
  resolver : (c.units .dnsconfd).isEnabled ∧ c.units .resolved = ⟨false, true⟩ ∨
    (c.units .resolved).isEnabled ∧ c.units .dnsconfd = ⟨false, true⟩
  symlink : (c.units .resolved).isEnabled → c.resolvConf = some (.symlink resolvedResolvConfPath)
  regular : ¬ (c.units .resolved).isEnabled → ∃ content, c.resolvConf = some (.regular content)
  manager : (c.files .dnsconfdManager).isSome = (c.units .dnsconfd).isEnabled
  sockets : ∀ u, u = .unboundSocket ∨ u = .unboundControlSocket →
    c.units u = ⟨(c.units .dnsconfd).isEnabled, (base.units u).masked⟩
  plain : (c.units .resolved).isEnabled → c.files .nmGlobalDns = none ∧ c.files .dnsconfdConf = none

theorem consistent_layout (base : Configuration) (p : Settings) : Consistent base (p.layout base) := by
  obtain ⟨resolver, globalServers, dnssec, dohEndpoint, plain⟩ := p
  cases resolver with
  | unbound =>
    refine ⟨.inl ⟨rfl, rfl⟩, nofun, fun _ => ⟨[], rfl⟩, rfl, ?_, nofun⟩
    rintro u (rfl | rfl) <;> rfl
  | resolved =>
    obtain ⟨rfl, rfl⟩ := plain rfl
    refine ⟨.inr ⟨rfl, rfl⟩, fun _ => rfl, fun h => absurd rfl h, rfl, ?_, fun _ => ⟨rfl, rfl⟩⟩
    rintro u (rfl | rfl) <;> rfl

/-- CORRECT: every run that begins with a reset ends normally in a consistent configuration, from
    which another reset restores what the first one made. -/
theorem session_consistent (s₀ : System) (commands : List Command) :
    ∃ s s' s₁, exec (session (.stack .reset :: commands)) s₀ = (.ok (), s) ∧
      Consistent s₀.configuration s.configuration ∧
      exec (main noFault (.stack .reset)) s₀ = (.ok (), s₁) ∧
      exec (main noFault (.stack .reset)) s = (.ok (), s') ∧ s'.configuration = s₁.configuration := by
  have hreset := takes_reset s₀.configuration
  obtain ⟨s₁, hs₁, hc₁⟩ := hreset s₀ rfl
  have hrun : Takes System.configuration (session (.stack .reset :: commands)) s₀.configuration () _ :=
    hreset.bind (takes_session s₀.configuration commands .default)
  obtain ⟨s, hs, hc⟩ := hrun s₀ rfl
  obtain ⟨s', hs', hc'⟩ := takes_reset s.configuration s rfl
  refine ⟨s, s', s₁, hs, ?_, hs₁, hs', ?_⟩
  · rw [hc]
    exact consistent_layout _ _
  · rw [hc', hc, layout_layout, hc₁]

end Dns
