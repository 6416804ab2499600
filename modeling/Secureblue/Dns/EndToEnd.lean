import Secureblue.Dns.Menu
import Secureblue.Dns.Status
import Secureblue.Auditor.Report

/-! `ujust dns-selector` as a whole: the calls of the tool, the worker that they start, the files that the
    worker leaves, and what the status and the audit (`audit_dns`) make of these files.

    From a reset on, the system is always the layout of some settings, which every call changes by the
    command it asks for (`main_layout`); of such a system the status is the report of the settings
    (`printAllStatus_layout`), and the audit reads the settings out of it (`auditFact_report`). -/

namespace Dns.Selector
open Py Script

/-! ### Reading what the worker wrote -/

/-- `json.load` and what `policy.get` returns; `other` gives the truth and the text of values that are no
    strings. -/
def loadPolicy (other : Json.Value Text → Bool × Text) (content : Text) : Loaded :=
  match Json.loads content with
  | .ok (.object members) => .object fun key => ((Dict.ofList members).get key).map fun v => match v with
    | .string s => .string s
    | v => .other (other v).1 (other v).2
  | .ok _ => .raises
  | .error .decodeError => .invalid
  -- a lone surrogate, which no text of the model has
  | .error .surrogate => .raises

def FileRead.ofContent : Option Text → FileRead
  | none => .missing
  | some content => .text content

/-- The files that the report is about. Both scripts have the same paths for them; what
    `/etc/resolv.conf` reads as is up to the service that it belongs to. -/
def filesOf (readResolvConf : Option ResolvConf → FileRead) (c : Configuration) : Files where
  resolvConf := readResolvConf c.resolvConf
  dnsconfdConf := .ofContent (c.files .dnsconfdConf)
  globalDns := .ofContent (c.files .nmGlobalDns)
  trivalentPolicy := .ofContent (c.files .trivalentPolicy)

/-- What the services do: dnsconfd names its own address in the file that it is given, and the file of
    systemd-resolved names that of its stub. -/
structure Services (readResolvConf : Option ResolvConf → FileRead) : Prop where
  dnsconfd : DNSResolver.detect (readResolvConf (some (.regular []))) = .ok .unbound
  resolved : DNSResolver.detect (readResolvConf (some (.symlink resolvedResolvConfPath))) = .ok .resolved

/-! ### The tool -/

section
variable (u : Unicode) (casefold : Text → Text) (httpsUrl : Text → Option Bool)
  (other : Json.Value Text → Bool × Text) (readResolvConf : Option ResolvConf → FileRead)

/-- `print_all_status` on a system -/
def printStatus (s : System) : Except Raised Output :=
  printAllStatus casefold (loadPolicy other) (filesOf readResolvConf s.configuration)

/-- What a call asks about the resolver in use before it goes on; the menu shows the status first. -/
def resolverFor (arguments : Arguments) (s : System) : Except Raised DNSResolver :=
  match arguments with
  | .interactive => do
    let _ ← printStatus casefold other readResolvConf s
    DNSResolver.detect (readResolvConf s.resolvConf)
  | .dnssec _ => DNSResolver.detect (readResolvConf s.resolvConf)
  | _ => .ok .unknown

/-- Sets DNS configuration. The first part is the final status, if the call gets that far. -/
def main (call : Call) (s : System) : Option (Except Raised Output) × System :=
  match resolverFor casefold other readResolvConf call.arguments s with
  | .error raised => (some (.error raised), s)
  | .ok resolver =>
    match call.request u casefold httpsUrl resolver with
    | .error raised => (raised.map .error, s)
    | .ok none => (some (printStatus casefold other readResolvConf s), s)
    | .ok (some command) =>
      let s' := (exec (Dns.main noFault command) s).2
      (some (printStatus casefold other readResolvConf s'), s')

/-- The calls one after the other. -/
def mains (calls : List Call) (s : System) : System :=
  calls.foldl (fun s call => (main u casefold httpsUrl other readResolvConf call s).2) s

end

/-! ### The audit -/

/-- `audit_dns`; whether a VPN is in use is only asked for beside an Unbound without global DNS. -/
def auditDns (isDesktop usingVpn : Bool) (statusOut : Text) : Auditor.Report :=
  let globalDns := auditFact statusOut .globalDns
  let dnssec := auditFact statusOut .dnssec
  let trivalentDoh := auditFact statusOut .trivalentDoh
  let unbound := auditFact statusOut .unbound
  let advice (wanted : Bool) (status : Auditor.Status) (note : Text) (rec : List Text) :
      List (Auditor.Note × Auditor.Recommendation) :=
    if wanted then [(⟨note, some status⟩, ⟨['\n'].intercalate rec, none⟩)] else []
  let found :=
    advice (!trivalentDoh && isDesktop) .info "DNS over HTTPS in Trivalent is disabled."
      ["Consider using DNS over HTTPS in Trivalent to hide queries.",
        "However, if you use a VPN, this may cause DNS leaks.", "To enable it, run:", "$ ujust dns-selector"] ++
    advice (unbound && !globalDns) .warn "Secure global DNS is not configured."
      ["Consider using secure global DNS.", "However, if you use a VPN, this may cause DNS leaks.",
        "To enable it, run:", "$ ujust dns-selector"] ++
    advice (!unbound) .warn "The secure DNS resolver is not in use, possibly for a VPN."
      ["To view or reset your current DNS configuration, run:", "$ ujust dns-selector"] ++
    advice (unbound && !dnssec) .fail "Local DNSSEC validation is disabled."
      ["You should enable local DNSSEC validation to prevent DNS hijacking.", "To enable it, run:",
        "$ ujust dns-selector dnssec on"] ++
    advice (unbound && !globalDns && usingVpn) .fail
      "Using a VPN alongside Unbound without Global DNS may cause DNS leaks."
      ["If you use a VPN, switch your DNS resolver to systemd-resolved:", "$ ujust dns-selector resolver resolved"]
  { description := "Ensuring system DNS resolution is secure"
    -- of the assignments to `status`, the last one made
    status :=
      if unbound && !globalDns && usingVpn then .fail else if unbound && !dnssec then .fail
      else if !unbound then .warn else if unbound && !globalDns then .warn
      else if !trivalentDoh && isDesktop then .info else .pass
    notes := (found.map Prod.fst).reverse
    recs := (found.map Prod.snd).reverse }

/-! ### Settings -/

/-- The texts of the settings are those of clean commands. -/
structure CleanSettings (p : Settings) : Prop where
  servers : ∀ servers ∈ p.globalServers, IsServerList servers
  endpoint : ∀ url ∈ p.dohEndpoint, url ≠ [] ∧ ∀ c ∈ url, isLineBreak c = false

/-- The facts that the audit goes by, of the settings. -/
def factOf (p : Settings) : Fact → Bool
  | .unbound => decide (p.resolver = .unbound)
  | .dnssec => p.dnssec
  | .globalDns => p.globalServers.isSome
  | .trivalentDoh => p.dohEndpoint.isSome

/-- What the status says of global DNS. -/
def serversReport (p : Settings) : Output :=
  match p.globalServers with
  | none => [statusLine "Global DNS" "disabled"]
  | some servers => globalDnsReport (servers.splitOn ',')

/-- What the status says of the browser. -/
def endpointReport (p : Settings) : Output :=
  match p.dohEndpoint with
  | none => [statusLine "Trivalent DoH" "disabled"]
  | some url => [statusLine "Trivalent DoH" "enabled", statusLine "Trivalent DoH endpoint" url]

/-- The status of a system with the settings. -/
def reportOf (p : Settings) : Output :=
  match p.resolver with
  | .unbound =>
    statusLine "DNS Resolver" "Unbound" :: statusLine "DNSSEC" (if p.dnssec then "enabled" else "disabled") ::
      (serversReport p ++ endpointReport p)
  | .resolved => statusLine "DNS Resolver" "systemd-resolved" :: statusLine "DNSSEC" "unavailable" ::
      statusLine "Global DNS" "unavailable" :: endpointReport p

/-- The resolver as the tool names it. -/
def resolverOf (p : Settings) : DNSResolver :=
  match p.resolver with
  | .unbound => .unbound
  | .resolved => .resolved

section
variable (u : Unicode) (casefold : Text → Text) (httpsUrl : Text → Option Bool)

/-- What a call does to the settings. -/
def serve (p : Settings) (call : Call) : Settings :=
  match call.request u casefold httpsUrl (resolverOf p) with
  | .ok (some command) => p.after command
  | _ => p

/-- What calls ask of the worker is clean. -/
def CleanCalls (calls : List Call) : Prop :=
  ∀ call ∈ calls, ∀ resolver command, call.request u casefold httpsUrl resolver = .ok (some command) → Clean command

end

theorem cleanSettings_default : CleanSettings .default := ⟨nofun, nofun⟩

theorem cleanSettings_after {p : Settings} (hp : CleanSettings p) {command : Command} (h : Clean command) :
    CleanSettings (p.after command) := by
  have hendpoint : ∀ {dohUrl : Option Text}, (∀ url ∈ dohUrl, ∀ c ∈ url, isLineBreak c = false) →
      ∀ url ∈ Settings.given dohUrl, url ≠ [] ∧ ∀ c ∈ url, isLineBreak c = false := by
    intro dohUrl hurl url hmem
    obtain ⟨hmem, hne⟩ := Option.filter_eq_some_iff.mp hmem
    exact ⟨of_decide_eq_true hne, hurl url hmem⟩
  cases command with
  | setTrivalentDoh dohUrl =>
    exact ⟨hp.servers, @hendpoint (some dohUrl) (by rintro _ ⟨⟩; exact h)⟩
  | stack command =>
    cases command with
    | reset => exact cleanSettings_default
    | setDnssec dnssecEnabled => exact ⟨hp.servers, hp.endpoint⟩
    | setResolver resolver => exact ⟨nofun, hp.endpoint⟩
    | setGlobal servers dnssecEnabled dohUrl =>
      obtain ⟨hservers, hurl⟩ := h
      rw [Settings.after]
      split
      · refine ⟨fun t ht => ?_, hendpoint hurl⟩
        obtain ⟨hmem, hne⟩ := Option.filter_eq_some_iff.mp (show Settings.given (some servers) = some t from ht)
        rw [← Option.some.inj hmem] at hne ⊢
        exact hservers.resolve_left (of_decide_eq_true hne)
      · exact hp

/-! ### Lists of servers -/

section
variable {t : Text}

/-- No line of a server is the audit's: it names the protocol. -/
theorem flagOf_server (h : IsServer t) (fact : Fact) : ∀ e ∈ readLines flagOf t, e.1 ≠ fact.key := by
  obtain ⟨rest, rfl⟩ := startsWith_iff.mp h.protocol
  have hlines : splitlines (protocol ++ rest) = [protocol ++ rest] :=
    splitlines_single (fun c hc => (h.clean c hc).1) (List.append_ne_nil_of_left_ne_nil (by decide) rest)
  have hflag : flagOf (protocol ++ rest) = some (strip "dns+tls", strip ("//" ++ rest)) := by
    have hprotocol : protocol = "dns+tls" ++ ':' :: "//" := by decide
    rw [hprotocol, List.append_assoc, List.cons_append, flagOf, partition_append (by decide)]
  rw [readLines, hlines, List.filterMap_cons_some hflag]
  intro e he
  rw [List.mem_singleton.mp he]
  show strip "dns+tls" ≠ fact.key
  cases fact <;> decide

theorem isValue_serverList {servers : Text} (h : IsServerList servers) :
    IsValue servers ∧ (∀ c ∈ servers, isLineBreak c = false ∧ c ≠ '%') := by
  obtain ⟨tokens, hne, htokens, rfl⟩ := h
  have hchars : ∀ c ∈ [','].intercalate tokens, isLineBreak c = false ∧ c ≠ '%' := by
    intro c hc
    rcases mem_join hc with rfl | ⟨t, ht, hc⟩
    · decide
    · exact ⟨((htokens t ht).clean c hc).1, ((htokens t ht).clean c hc).2.1⟩
  obtain ⟨t, rest, rfl⟩ := List.exists_cons_of_ne_nil hne
  obtain ⟨tail, rfl⟩ := startsWith_iff.mp (htokens t List.mem_cons_self).protocol
  have hhead : ∃ text, [','].intercalate ((protocol ++ tail) :: rest) = 'd' :: text := by
    cases rest with
    | nil => exact ⟨_, rfl⟩
    | cons t' rest => exact ⟨_, rfl⟩
  obtain ⟨text, htext⟩ := hhead
  refine ⟨⟨htext ▸ List.cons_ne_nil _ _, fun hc => absurd (hchars _ hc).1 (by decide), ?_, ?_⟩, hchars⟩
  · rw [htext]
    rintro _ ⟨⟩
    rfl
  · refine getLast_join ',' fun t ht => ⟨?_, (htokens t ht).getLast⟩
    rintro rfl
    exact absurd (htokens [] ht).protocol (by decide)

/-- The parts of the list are the servers that it was made of. -/
theorem splitOn_serverList {servers : Text} (h : IsServerList servers) :
    servers.splitOn ',' ≠ [] ∧ ∀ t ∈ servers.splitOn ',', IsServer t := by
  obtain ⟨tokens, hne, htokens, rfl⟩ := h
  rw [List.splitOn_intercalate ',' (fun t ht hc => ((htokens t ht).clean _ hc).2.2 rfl) hne]
  exact ⟨hne, htokens⟩

end

/-! ### The status of a layout -/

section
variable {casefold : Text → Text} {other : Json.Value Text → Bool × Text}
  {readResolvConf : Option ResolvConf → FileRead} (base : Configuration) (p : Settings)

theorem detect_layout (hservices : Services readResolvConf) :
    DNSResolver.detect (filesOf readResolvConf (p.layout base)).resolvConf = .ok (resolverOf p) := by
  obtain ⟨resolver, globalServers, dnssec, dohEndpoint, plain⟩ := p
  cases resolver with
  | unbound => exact hservices.dnsconfd
  | resolved => exact hservices.resolved

/-- The policy is read back as it was meant. -/
theorem loadPolicy_trivalentPolicyText (url : Text) : ∃ get,
    loadPolicy other (universalNewlines (trivalentPolicyText url)) = .object get ∧
      get "DnsOverHttpsMode" = some (.string "secure") ∧ get "DnsOverHttpsTemplates" = some (.string url) := by
  have hreturn : '\r' ∉ trivalentPolicyText url := by
    have hstring : ∀ s : Text, '\r' ∉ Json.dumpsString s := fun s hc =>
      absurd (Json.printable_dumpsString hc).1 (by decide)
    simp [trivalentPolicyText, Json.dumpsObject, List.intercalate_cons_cons, hstring]
  have hloads : Json.loads (trivalentPolicyText url) =
      .ok (Json.stringObject [("DnsOverHttpsMode", "secure"), ("DnsOverHttpsTemplates", url)]) := by
    rw [trivalentPolicyText, ← Json.dumps_stringObject]
    exact Json.loads_dumps (some 4) (Json.noNumber_stringObject _) (by decide)
  rw [universalNewlines_eq_self hreturn, loadPolicy, hloads]
  exact ⟨_, rfl, rfl, rfl⟩

theorem printTrivalentDohStatus_layout (hendpoint : ∀ url ∈ p.dohEndpoint, url ≠ []) :
    printTrivalentDohStatus (loadPolicy other) (filesOf readResolvConf (p.layout base)).trivalentPolicy =
      .ok (endpointReport p) := by
  have hfile : (filesOf readResolvConf (p.layout base)).trivalentPolicy =
      .ofContent (p.dohEndpoint.map trivalentPolicyText) := rfl
  rw [hfile, endpointReport]
  cases hurl : p.dohEndpoint with
  | none => rfl
  | some url =>
    obtain ⟨get, hload, hmode, htemplates⟩ := @loadPolicy_trivalentPolicyText other url
    have htruthy : (some (JsonValue.string url)).filter JsonValue.truthy = some (.string url) := by
      simp [Option.filter, JsonValue.truthy, hendpoint url hurl]
    rw [Option.map_some, FileRead.ofContent, printTrivalentDohStatus, hload]
    simp only [hmode, htemplates, htruthy]
    rfl

theorem printDnssecStatus_layout (hservices : Services readResolvConf) (hyes : casefold "yes" = "yes") :
    printDnssecStatus casefold (filesOf readResolvConf (p.layout base)).resolvConf
      (filesOf readResolvConf (p.layout base)).dnsconfdConf = .ok [statusLine "DNSSEC"
        (if p.resolver = .unbound then if p.dnssec then "enabled" else "disabled" else "unavailable")] := by
  have hfile : (filesOf readResolvConf (p.layout base)).dnsconfdConf =
      .ofContent (if p.dnssec then some "dnssec_enabled: yes\n" else none) := rfl
  have hlines : fileLines ("dnssec_enabled: yes\n" : Text) = [("dnssec_enabled: yes\n" : Text)] := by decide
  have henabled : dnssecEnabledFrom casefold false ["dnssec_enabled: yes\n"] = true := by
    have hline : strip ("dnssec_enabled: yes\n" : Text) = "dnssec_enabled: yes" := by decide
    have hvalue : strip (partition ':' ("dnssec_enabled: yes" : Text)).2.2 = "yes" := by decide
    have hkey : ¬(("dnssec_enabled: yes" : Text) = [] ∨ startsWith ("dnssec_enabled: yes" : Text) ['#']) ∧
        startsWith ("dnssec_enabled: yes" : Text) "dnssec_enabled:" := by decide
    simp only [dnssecEnabledFrom, hline, if_neg hkey.1, if_pos hkey.2, hvalue, hyes, true_or, decide_true]
  have hdetect := detect_layout base p hservices
  unfold printDnssecStatus
  rw [hdetect, hfile]
  obtain ⟨resolver, globalServers, dnssec, dohEndpoint, plain⟩ := p
  cases resolver with
  | resolved => rfl
  | unbound =>
    cases dnssec with
    | false => rfl
    | true =>
      simp only [FileRead.ofContent, if_true, hlines, henabled, resolverOf]
      rfl

theorem printNmGlobaldnsStatus_layout (hservices : Services readResolvConf)
    (hservers : ∀ servers ∈ p.globalServers, IsServerList servers) :
    printNmGlobaldnsStatus (filesOf readResolvConf (p.layout base)).resolvConf
      (filesOf readResolvConf (p.layout base)).globalDns =
      .ok (if p.resolver = .unbound then serversReport p else [statusLine "Global DNS" "unavailable"]) := by
  have hdetect := detect_layout base p hservices
  have hfile : (filesOf readResolvConf (p.layout base)).globalDns =
      .ofContent (p.globalServers.map globalDnsText) := rfl
  obtain ⟨resolver, globalServers, dnssec, dohEndpoint, plain⟩ := p
  cases resolver with
  | resolved =>
    unfold printNmGlobaldnsStatus
    rw [hdetect]
    rfl
  | unbound =>
    rw [hfile, if_pos rfl, serversReport]
    cases globalServers with
    | none =>
      unfold printNmGlobaldnsStatus
      rw [hdetect]
      rfl
    | some servers =>
      have hlist : IsServerList servers := hservers servers rfl
      obtain ⟨hvalue, hchars⟩ := isValue_serverList hlist
      obtain ⟨hne, hparts⟩ := splitOn_serverList hlist
      have hreturn : '\r' ∉ servers := fun hc => absurd (hchars _ hc).1 (by decide)
      refine (printNmGlobaldnsStatus_iff hne).mpr ⟨hdetect, _, readGlobalDns_globalDnsText hvalue hreturn, rfl,
        resolveMode_globalDnsSections servers, ?_⟩
      exact (globalDnsServers_iff hvalue (List.intercalate_splitOn _) (fun t ht => not_mem_of_mem_splitOn ',' ht)
        hne).mpr fun hc => (hchars _ hc).2 rfl

/-- A system with the settings shows the report of the settings. -/
theorem printAllStatus_layout (hservices : Services readResolvConf) (hyes : casefold "yes" = "yes")
    (hp : CleanSettings p) :
    printAllStatus casefold (loadPolicy other) (filesOf readResolvConf (p.layout base)) = .ok (reportOf p) := by
  have hdetect := detect_layout base p hservices
  have hdnssec := printDnssecStatus_layout base p hservices hyes
  have hglobal := printNmGlobaldnsStatus_layout base p hservices hp.servers
  have hdoh : printTrivalentDohStatus (loadPolicy other) (filesOf readResolvConf (p.layout base)).trivalentPolicy =
      .ok (endpointReport p) := printTrivalentDohStatus_layout base p fun url hurl => (hp.endpoint url hurl).1
  have hresolver : printCurrentResolver (filesOf readResolvConf (p.layout base)).resolvConf =
      .ok [statusLine "DNS Resolver" (if p.resolver = .unbound then "Unbound" else "systemd-resolved")] := by
    unfold printCurrentResolver
    rw [hdetect]
    obtain ⟨resolver, globalServers, dnssec, dohEndpoint, plain⟩ := p
    cases resolver <;> rfl
  unfold printAllStatus
  rw [hresolver, hdnssec, hglobal, hdoh]
  obtain ⟨resolver, globalServers, dnssec, dohEndpoint, plain⟩ := p
  cases resolver with
  | resolved => rfl
  | unbound => cases dnssec <;> rfl

/-! ### What the audit makes of it -/

/-- Lines with keys of no fact. -/
def Harmless (l : List (Text × Text)) : Prop := ∀ e ∈ l, ∀ fact : Fact, e.1 ≠ fact.key

theorem harmless_nil : Harmless [] := nofun

theorem lastWins_harmless {l : List (Text × Text)} (h : Harmless l) (fact : Fact) : lastWins l fact.key = none := by
  by_contra hsome
  obtain ⟨e, he, hkey⟩ := List.mem_map.mp (lastWins_isSome.mp (Option.isSome_iff_ne_none.mpr hsome))
  exact h e he fact hkey

theorem flagsOf_serversReport (hservers : ∀ servers ∈ p.globalServers, IsServerList servers) : ∃ v free,
    flagsOf (serversReport p) = (Fact.globalDns.key, v) :: free ∧ Harmless free ∧
      decide (v = Fact.globalDns.value) = p.globalServers.isSome := by
  unfold serversReport
  cases hglobal : p.globalServers with
  | none => exact ⟨"disabled", [], flagsOf_line .globalDns (by decide) [], harmless_nil, by decide⟩
  | some servers =>
    obtain ⟨-, hparts⟩ := splitOn_serverList (hservers servers hglobal)
    refine ⟨"enabled", _, flagsOf_line .globalDns (by decide) _, ?_, decide_eq_true rfl⟩
    have hindent : ∀ server : Text, readLines flagOf ("  " ++ server) = readLines flagOf server := fun server =>
      (readLines_cons_space flagOf_nil flagOf_cons_space (by decide) (' ' :: server)).trans
        (readLines_cons_space flagOf_nil flagOf_cons_space (by decide) server)
    have hheader : readLines flagOf ("Global DNS servers:" : Text) = [(("Global DNS servers" : Text), [])] := by decide
    rw [flagsOf, List.flatMap_cons, List.flatMap_map, hheader]
    simp only [hindent]
    intro e he fact
    rcases List.mem_append.mp he with he | he
    · rw [List.mem_singleton.mp he]
      cases fact <;> decide
    · obtain ⟨t, ht, he⟩ := List.mem_flatMap.mp he
      exact flagOf_server (hparts t ht) fact e he

theorem flagsOf_endpointReport (hendpoint : ∀ url ∈ p.dohEndpoint, url ≠ [] ∧ ∀ c ∈ url, isLineBreak c = false) :
    ∃ v free, flagsOf (endpointReport p) = (Fact.trivalentDoh.key, v) :: free ∧ Harmless free ∧
      decide (v = Fact.trivalentDoh.value) = p.dohEndpoint.isSome := by
  unfold endpointReport
  cases hurl : p.dohEndpoint with
  | none => exact ⟨"disabled", [], flagsOf_line .trivalentDoh (by decide) [], harmless_nil, by decide⟩
  | some url =>
    obtain ⟨hne, hline⟩ := hendpoint url hurl
    refine ⟨"enabled", _, flagsOf_line .trivalentDoh (by decide) _, ?_, decide_eq_true rfl⟩
    have hkey : ':' ∉ endpointKey ∧ (∀ c ∈ endpointKey, isLineBreak c = false) ∧ strip endpointKey = endpointKey := by
      decide
    have hflags : flagsOf [statusLine endpointKey url] = [(endpointKey, strip url)] := by
      rw [flagsOf, List.flatMap_singleton, readLines_statusLine hkey.1 hkey.2.1, hkey.2.2, splitlines_single hline hne]
      rfl
    intro e he fact
    have he : e ∈ flagsOf [statusLine endpointKey url] := he
    rw [hflags, List.mem_singleton] at he
    rw [he]
    show endpointKey ≠ fact.key
    cases fact <;> decide

theorem key_inj {fact fact' : Fact} : fact.key = fact'.key ↔ fact = fact' := ⟨key_injective, congrArg Fact.key⟩

/-- The lines of the report that look like a status. -/
theorem flagsOf_report (hp : CleanSettings p) : ∃ (value : Fact → Text) (free₁ free₂ : List (Text × Text)),
    flagsOf (reportOf p) = [(Fact.unbound.key, value .unbound), (Fact.dnssec.key, value .dnssec)] ++
      ((Fact.globalDns.key, value .globalDns) :: free₁ ++ (Fact.trivalentDoh.key, value .trivalentDoh) :: free₂) ∧
    Harmless free₁ ∧ Harmless free₂ ∧ ∀ fact, decide (value fact = fact.value) = factOf p fact := by
  obtain ⟨global, free₁, hglobal, hfree₁, hfact₁⟩ := flagsOf_serversReport p hp.servers
  obtain ⟨doh, free₂, hdoh, hfree₂, hfact₂⟩ := flagsOf_endpointReport p hp.endpoint
  unfold reportOf
  obtain ⟨resolver, globalServers, dnssec, dohEndpoint, plain⟩ := p
  cases resolver with
  | unbound =>
    refine ⟨fun fact => match fact with
      | .unbound => "Unbound" | .dnssec => if dnssec then "enabled" else "disabled" | .globalDns => global
      | .trivalentDoh => doh, free₁, free₂, ?_, hfree₁, hfree₂, fun fact => ?_⟩
    · have hvalue : ∀ value : Text, value = (if dnssec then ("enabled" : Text) else "disabled") →
          splitlines value = [value] ∧ strip value = value := by
        rintro _ rfl
        cases dnssec <;> decide
      refine (flagsOf_line .unbound (by decide) _).trans (congrArg _ ?_)
      refine (flagsOf_line .dnssec (hvalue _ rfl) _).trans (congrArg _ ?_)
      have hboth := congrArg₂ (· ++ ·) hglobal hdoh
      exact List.flatMap_append.trans hboth
    · cases fact with
      | unbound => rfl
      | dnssec => cases dnssec <;> rfl
      | globalDns => exact hfact₁
      | trivalentDoh => exact hfact₂
  | resolved =>
    obtain ⟨rfl, rfl⟩ := plain rfl
    refine ⟨fun fact => match fact with
      | .unbound => "systemd-resolved" | .dnssec => "unavailable" | .globalDns => "unavailable"
      | .trivalentDoh => doh, [], free₂, ?_, harmless_nil, hfree₂, fun fact => ?_⟩
    · refine (flagsOf_line .unbound (by decide) _).trans (congrArg _ ?_)
      refine (flagsOf_line .dnssec (by decide) _).trans (congrArg _ ?_)
      exact (flagsOf_line .globalDns (by decide) _).trans (congrArg _ hdoh)
    · cases fact with
      | unbound => rfl
      | dnssec => rfl
      | globalDns => rfl
      | trivalentDoh => exact hfact₂

/-- The audit reads the settings out of their report. -/
theorem auditFact_report (hp : CleanSettings p) (fact : Fact) :
    auditFact (commandStdout (reportOf p)) fact = factOf p fact := by
  obtain ⟨value, free₁, free₂, hflags, hfree₁, hfree₂, hfact⟩ := flagsOf_report p hp
  have hget : (flags (commandStdout (reportOf p))).get fact.key = lastWins (flagsOf (reportOf p)) fact.key := by
    rw [flags, Dict.get_ofList, readLines_commandStdout]
    rfl
  have hlast : lastWins (flagsOf (reportOf p)) fact.key = some (value fact) := by
    rw [hflags]
    cases fact <;> simp [lastWins_append, lastWins_cons, lastWins_harmless hfree₁, lastWins_harmless hfree₂, key_inj]
  rw [auditFact, hget, hlast, ← hfact fact]
  simp

/-- The audit passes just if all that the settings can secure is secured. -/
theorem auditDns_report (hp : CleanSettings p) (isDesktop usingVpn : Bool) :
    (auditDns isDesktop usingVpn (commandStdout (reportOf p))).status = .pass ↔
      p.resolver = .unbound ∧ p.dnssec ∧ p.globalServers.isSome ∧ (isDesktop → p.dohEndpoint.isSome) := by
  unfold auditDns
  simp only [auditFact_report p hp, factOf]
  cases hresolver : decide (p.resolver = .unbound) <;> cases p.dnssec <;> cases p.globalServers.isSome <;>
    cases p.dohEndpoint.isSome <;> cases isDesktop <;> cases usingVpn <;> simp_all

end

/-! ### Runs of the tool -/

section
variable {u : Unicode} {casefold : Text → Text} {httpsUrl : Text → Option Bool}
  {other : Json.Value Text → Bool × Text} {readResolvConf : Option ResolvConf → FileRead}

theorem cleanSettings_serve {p : Settings} (hp : CleanSettings p) {call : Call}
    (h : CleanCalls u casefold httpsUrl [call]) : CleanSettings (serve u casefold httpsUrl p call) := by
  unfold serve
  split
  · next command hasked => exact cleanSettings_after hp (h call List.mem_cons_self _ _ hasked)
  · exact hp

/-- Whatever a call asks about the resolver first, it goes on as the settings have it. -/
theorem resolverFor_layout {s : System} {base : Configuration} {p : Settings} (hservices : Services readResolvConf)
    (hyes : casefold "yes" = "yes") (hp : CleanSettings p) (hs : s.configuration = p.layout base) (call : Call) :
    ∃ resolver, resolverFor casefold other readResolvConf call.arguments s = .ok resolver ∧
      call.request u casefold httpsUrl resolver = call.request u casefold httpsUrl (resolverOf p) := by
  have hstatus : printStatus casefold other readResolvConf s = .ok (reportOf p) := by
    rw [printStatus, hs]
    exact printAllStatus_layout base p hservices hyes hp
  have hdetect : DNSResolver.detect (readResolvConf s.resolvConf) = .ok (resolverOf p) := by
    have hfile : s.resolvConf = (p.layout base).resolvConf := congrArg Configuration.resolvConf hs
    rw [hfile]
    exact detect_layout base p hservices
  obtain ⟨arguments, lines⟩ := call
  cases arguments with
  | interactive =>
    refine ⟨resolverOf p, ?_, rfl⟩
    unfold resolverFor
    rw [hstatus]
    exact hdetect
  | dnssec enableDnssec => exact ⟨resolverOf p, hdetect, rfl⟩
  | status => exact ⟨.unknown, rfl, rfl⟩
  | reset => exact ⟨.unknown, rfl, rfl⟩
  | resolver backend => exact ⟨.unknown, rfl, rfl⟩

/-- A call changes the system as it changes the settings, and shows their report unless it ends before. -/
theorem main_layout {s : System} {base : Configuration} {p : Settings} (hservices : Services readResolvConf)
    (hyes : casefold "yes" = "yes") (hp : CleanSettings p) (hs : s.configuration = p.layout base) {call : Call}
    (hcall : CleanCalls u casefold httpsUrl [call]) :
    let after := main u casefold httpsUrl other readResolvConf call s
    let q := serve u casefold httpsUrl p call
    after.2.configuration = q.layout base ∧
      ((∃ command, call.request u casefold httpsUrl (resolverOf p) = .ok command) →
        after.1 = some (.ok (reportOf q))) := by
  have hq := cleanSettings_serve hp hcall
  have hreport : ∀ {s' : System} {q : Settings}, CleanSettings q → s'.configuration = q.layout base →
      printStatus casefold other readResolvConf s' = .ok (reportOf q) := by
    intro s' q hq hs'
    rw [printStatus, hs']
    exact printAllStatus_layout base q hservices hyes hq
  obtain ⟨resolver, hresolver, hrequest⟩ :=
    @resolverFor_layout u casefold httpsUrl other readResolvConf s base p hservices hyes hp hs call
  have hmain : main u casefold httpsUrl other readResolvConf call s =
      match call.request u casefold httpsUrl (resolverOf p) with
      | .error raised => (raised.map .error, s)
      | .ok none => (some (printStatus casefold other readResolvConf s), s)
      | .ok (some command) =>
        let s' := (exec (Dns.main noFault command) s).2
        (some (printStatus casefold other readResolvConf s'), s') := by
    unfold main
    rw [hresolver]
    simp only [hrequest]
  rw [hmain]
  cases hasked : call.request u casefold httpsUrl (resolverOf p) with
  | error raised =>
    have hserve : serve u casefold httpsUrl p call = p := by rw [serve, hasked]
    rw [hserve]
    exact ⟨hs, fun ⟨command, h⟩ => nomatch h⟩
  | ok asked =>
    cases asked with
    | none =>
      have hserve : serve u casefold httpsUrl p call = p := by rw [serve, hasked]
      rw [hserve]
      exact ⟨hs, fun _ => congrArg some (hreport hp hs)⟩
    | some command =>
      have hserve : serve u casefold httpsUrl p call = p.after command := by rw [serve, hasked]
      rw [hserve] at hq ⊢
      obtain ⟨s', hexec, hs'⟩ := takes_main base p command s hs
      simp only [hexec]
      exact ⟨hs', fun _ => congrArg some (hreport hq hs')⟩

/-- Calls change the system as they change the settings. -/
theorem mains_layout {base : Configuration} (hservices : Services readResolvConf) (hyes : casefold "yes" = "yes") :
    ∀ (calls : List Call) {s : System} {p : Settings}, CleanCalls u casefold httpsUrl calls → CleanSettings p →
      s.configuration = p.layout base →
      CleanSettings (calls.foldl (serve u casefold httpsUrl) p) ∧
      (mains u casefold httpsUrl other readResolvConf calls s).configuration =
        (calls.foldl (serve u casefold httpsUrl) p).layout base := by
  intro calls
  induction calls with
  | nil => exact fun _ hp hs => ⟨hp, hs⟩
  | cons call calls ih =>
    intro s p hcalls hp hs
    have hcall : CleanCalls u casefold httpsUrl [call] := fun c hc =>
      List.mem_singleton.mp hc ▸ hcalls call List.mem_cons_self
    exact ih (fun c hc => hcalls c (List.mem_cons_of_mem call hc)) (cleanSettings_serve hp hcall)
      (main_layout hservices hyes hp hs hcall).1

/-- CORRECT: from a reset on, whatever the system was before and whatever is chosen in the menu or on the
    command line, the units and files are those of the settings that the calls came to, the status reports
    these settings, and the audit reads them out of it; it passes just if Unbound validates, with global
    servers and, on a desktop, an endpoint for the browser. -/
theorem selector_runs (hservices : Services readResolvConf) (hyes : casefold "yes" = "yes") (s₀ : System)
    (lines : List Line) (calls : List Call) (hclean : CleanCalls u casefold httpsUrl calls) :
    let p := calls.foldl (serve u casefold httpsUrl) Settings.default
    let s := mains u casefold httpsUrl other readResolvConf (⟨.reset, lines⟩ :: calls) s₀
    s.configuration = p.layout s₀.configuration ∧
    ∃ output, printStatus casefold other readResolvConf s = .ok output ∧ output = reportOf p ∧
      (∀ fact, auditFact (commandStdout output) fact = factOf p fact) ∧
      ∀ isDesktop usingVpn, (auditDns isDesktop usingVpn (commandStdout output)).status = .pass ↔
        p.resolver = .unbound ∧ p.dnssec ∧ p.globalServers.isSome ∧ (isDesktop → p.dohEndpoint.isSome) := by
  intro p s
  obtain ⟨s₁, hexec, hs₁⟩ := takes_reset s₀.configuration s₀ rfl
  have hreset : (main u casefold httpsUrl other readResolvConf ⟨.reset, lines⟩ s₀).2 = s₁ := by
    show (exec (Dns.main noFault (.stack .reset)) s₀).2 = s₁
    rw [hexec]
  obtain ⟨hp, hs⟩ := @mains_layout u casefold httpsUrl other readResolvConf _ hservices hyes calls _ _ hclean
    cleanSettings_default hs₁
  have hsystem : s.configuration = p.layout s₀.configuration := by
    show (mains u casefold httpsUrl other readResolvConf calls
      (main u casefold httpsUrl other readResolvConf ⟨.reset, lines⟩ s₀).2).configuration = _
    rw [hreset]
    exact hs
  refine ⟨hsystem, reportOf p, ?_, rfl, auditFact_report p hp, auditDns_report p hp⟩
  rw [printStatus, hsystem]
  exact printAllStatus_layout _ p hservices hyes hp

end

/-- The files as the services leave them. -/
def localResolvConf : Option ResolvConf → FileRead
  | some (.regular _) => .text "nameserver 127.0.0.1\n"
  | some (.symlink _) => .text "nameserver 127.0.0.53\noptions edns0 trust-ad\n"
  | none => .missing

theorem services_localResolvConf : Services localResolvConf := ⟨rfl, rfl⟩

/-- Global DNS, the third provider, its first server, with validation. -/
def quad9Call : Call :=
  ⟨.interactive, [⟨"4", by decide⟩, ⟨"3", by decide⟩, firstLine, firstLine]⟩

theorem selector_runs_quad9 :
    let s := mains latin1 foldAscii (fun _ => none) (fun _ => (false, [])) localResolvConf [⟨.reset, []⟩, quad9Call]
      resolvedSystem
    ∃ output, printStatus foldAscii (fun _ => (false, [])) localResolvConf s = .ok output ∧
      (auditDns false true (commandStdout output)).status = .pass := by
  intro s
  have hclean : CleanCalls latin1 foldAscii (fun _ => none) [quad9Call] := by
    intro call hcall resolver command h
    rw [List.mem_singleton.mp hcall] at h
    exact clean_request (by decide) h
  obtain ⟨-, output, hstatus, -, -, hpass⟩ := @selector_runs latin1 foldAscii (fun _ => none) (fun _ => (false, []))
    localResolvConf services_localResolvConf (by decide) resolvedSystem [] [quad9Call] hclean
  exact ⟨output, hstatus, (hpass false true).mpr ⟨rfl, rfl, rfl, nofun⟩⟩

end Dns.Selector
