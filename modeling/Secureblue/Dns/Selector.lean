import Secureblue.Py.ConfigParser
import Secureblue.Py.IpAddress

/-! The menu `ujust dns-selector` (`dns_selector.py`): what it reports of the configuration, and its
    dialogue about custom servers.

    The report is what `print` writes to the standard output, one text for each call; messages to
    the standard error are left out. Files hold UTF-8, the encoding of the locale. -/

namespace Dns.Selector
open Py

/-! ### Reading files -/

/-- How a text file can be read. Behind the lines `before`, reading or decoding may fail. -/
inductive FileRead where
  | missing
  | osError (before : List Text)
  | decodeError (before : List Text)
  | text (content : Text)

def FileRead.lines : FileRead → List Text
  | missing => []
  | osError before => before
  | decodeError before => before
  | text content => fileLines content

/-- The exceptions that the report can end with. -/
inductive Raised where
  | valueError
  | unicodeDecodeError
  | config (error : ConfigParser.Error)
  | policy
  deriving DecidableEq, Repr

/-- The calls of `print`. -/
abbrev Output := List Text

/-- `f"{key}: {value}"` -/
def statusLine (key value : Text) : Text := key ++ ':' :: ' ' :: value

/-! ### The report -/

inductive DNSResolver where | unbound | resolved | unknown
  deriving DecidableEq, Repr

/-- The loop of `detect`; none where it ends without a result. -/
def detectFrom : List Text → Except Raised (Option DNSResolver)
  | [] => .ok none
  | rawLine :: lines =>
    if startsWith (strip rawLine) "nameserver" then
      match words (strip rawLine) with
      | _ :: addr :: _ =>
        if addr = "127.0.0.1" then .ok (some .unbound)
        else if addr = "127.0.0.53" then .ok (some .resolved)
        else detectFrom lines
      | _ => .error .valueError
    else detectFrom lines

/-- Returns the current resolver based on the contents of /etc/resolv.conf. -/
def DNSResolver.detect (resolvConf : FileRead) : Except Raised DNSResolver := do
  let found ← detectFrom resolvConf.lines
  return found.getD .unknown

/-- Prints current DNS resolver. -/
def printCurrentResolver (resolvConf : FileRead) : Except Raised Output := do
  match ← DNSResolver.detect resolvConf with
  | .unbound => return [statusLine "DNS Resolver" "Unbound"]
  | .resolved => return [statusLine "DNS Resolver" "systemd-resolved"]
  | .unknown => return [statusLine "DNS Resolver" "unknown/vpn"]

section
variable (casefold : Text → Text)

/-- The loop of `print_dnssec_status`. -/
def dnssecEnabledFrom (dnssecEnabled : Bool) : List Text → Bool
  | [] => dnssecEnabled
  | rawLine :: lines =>
    let line := strip rawLine
    if line = [] ∨ startsWith line ['#'] then dnssecEnabledFrom dnssecEnabled lines
    else if startsWith line "dnssec_enabled:" then
      let value := (partition ':' line).2.2
      dnssecEnabledFrom (decide (casefold (strip value) = "yes" ∨ casefold (strip value) = "true")) lines
    else dnssecEnabledFrom dnssecEnabled lines

/-- Print DNSSEC status. -/
def printDnssecStatus (resolvConf dnsconfdConf : FileRead) : Except Raised Output := do
  if (← DNSResolver.detect resolvConf) ≠ .unbound then return [statusLine "DNSSEC" "unavailable"]
  else match dnsconfdConf with
    | .missing => return [statusLine "DNSSEC" "disabled"]
    | .text content =>
      let dnssecEnabled := dnssecEnabledFrom casefold false (fileLines content)
      return [statusLine "DNSSEC" (if dnssecEnabled then "enabled" else "disabled")]
    | .osError _ => return []
    | .decodeError _ => return []

end

/-- `nm_parser.read`: an `OSError` ends it, what was read before stays. -/
def readGlobalDns : FileRead → Except Raised ConfigParser.Sections
  | .missing => .ok ∅
  | .osError before => match ConfigParser.Reader.init.steps before with
    | .ok r => .ok r.sections
    | .error e => .error (.config e)
  | .decodeError before => match ConfigParser.Reader.init.steps before with
    | .ok _ => .error .unicodeDecodeError
    | .error e => .error (.config e)
  | .text content => (ConfigParser.read (fileLines content)).mapError .config

def globalDnsSection : Text := "global-dns"
def globalDnsDomainSection : Text := "global-dns-domain-*"

/-- `nm_parser[section].get(option)` -/
def getOption (sections : ConfigParser.Sections) (name option : Text) : Except Raised (Option Text) :=
  (sections.get? name option).mapError .config

/-- The servers that `print_nm_globaldns_status` prints. -/
def globalDnsServers (sections : ConfigParser.Sections) : Except Raised (List Text) :=
  if sections.hasSection globalDnsDomainSection then do
    let servers := (← getOption sections globalDnsDomainSection "servers").getD []
    return if servers = [] then [] else servers.splitOn ','
  else return []

def printServers (servers : List Text) : Output :=
  if servers = [] then [] else "Global DNS servers:" :: servers.map fun server => "  " ++ server

/-- Print global DNS enablement status and indented server list to STDOUT. -/
def printNmGlobaldnsStatus (resolvConf globalDns : FileRead) : Except Raised Output := do
  if (← DNSResolver.detect resolvConf) ≠ .unbound then return [statusLine "Global DNS" "unavailable"]
  else
    let sections ← readGlobalDns globalDns
    if !sections.hasSection globalDnsSection then return [statusLine "Global DNS" "disabled"]
    else
      let resolveMode ← getOption sections globalDnsSection "resolve-mode"
      let servers ← globalDnsServers sections
      let resolveStatus : Text := if resolveMode = some ("exclusive" : Text) then "enabled" else "disabled"
      return statusLine "Global DNS" resolveStatus :: printServers servers

/-- A value in a JSON document: a string, or another value with its truth and its `str`. -/
inductive JsonValue where
  | string (s : Text)
  | other (truthy : Bool) (str : Text)

def JsonValue.truthy : JsonValue → Bool
  | string s => decide (s ≠ [])
  | other truthy _ => truthy

def JsonValue.str : JsonValue → Text
  | string s => s
  | other _ str => str

/-- What `json.load` makes of a file: an object, an error that says so, or else an exception, of
    itself or of `policy.get` on what is no object. -/
inductive Loaded where
  | object (get : Text → Option JsonValue)
  | invalid
  | raises

/-- `value == "secure"` -/
def isSecure : Option JsonValue → Bool
  | some (.string mode) => decide (mode = "secure")
  | _ => false

/-- Print Trivalent DNS over HTTPS enablement status and endpoint. -/
def printTrivalentDohStatus (load : Text → Loaded) : FileRead → Except Raised Output
  | .missing => .ok [statusLine "Trivalent DoH" "disabled"]
  | .osError _ => .ok []
  | .decodeError _ => .ok []
  | .text content => match load (universalNewlines content) with
    | .invalid => .ok []
    | .raises => .error .policy
    | .object get =>
      let dohMode := get "DnsOverHttpsMode"
      match (get "DnsOverHttpsTemplates").filter JsonValue.truthy with
      | none => .ok [statusLine "Trivalent DoH" "disabled"]
      | some dohEndpoint =>
        .ok [statusLine "Trivalent DoH" (if isSecure dohMode then "enabled" else "disabled"),
          statusLine "Trivalent DoH endpoint" dohEndpoint.str]

/-- The files that the report is about. -/
structure Files where
  resolvConf : FileRead
  dnsconfdConf : FileRead
  globalDns : FileRead
  trivalentPolicy : FileRead

/-- Prints the entire DNS state tracked by `ujust dns-selector` for audit. -/
def printAllStatus (casefold : Text → Text) (load : Text → Loaded) (files : Files) :
    Except Raised Output := do
  let resolver ← printCurrentResolver files.resolvConf
  let dnssec ← printDnssecStatus casefold files.resolvConf files.dnsconfdConf
  let globalDns ← printNmGlobaldnsStatus files.resolvConf files.globalDns
  let trivalent ← printTrivalentDohStatus load files.trivalentPolicy
  return resolver ++ dnssec ++ globalDns ++ trivalent

end Dns.Selector
