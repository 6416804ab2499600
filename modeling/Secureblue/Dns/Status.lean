import Secureblue.Dns.Selector

/-! What the audit (`audit_dns`) reads out of the status that `dns_selector.py status` prints.

    The status is a list of lines `key: value`, and the audit keeps the last value of every key. Among
    the lines are texts from configuration files, the servers and the endpoint; the facts come through
    exactly if no line of such a text says otherwise. -/

namespace Dns.Selector
open Py

/-! ### The audit -/

/-- `key, value = line.split(":", 1)`, both stripped; none without a colon. -/
def flagOf (line : Text) : Option (Text × Text) :=
  match partition ':' line with
  | (_, [], _) => none
  | (key, _, value) => some (strip key, strip value)

/-- The `flags` of `audit_dns`. -/
def flags (statusOut : Text) : Dict Text Text := Dict.ofList (readLines flagOf statusOut)

/-- `command_stdout`: what was printed, with its line ends unified and its ends stripped. -/
def commandStdout (output : Output) : Text :=
  strip (universalNewlines (output.flatMap fun text => text ++ ['\n']))

/-- The facts that `audit_dns` goes by. -/
inductive Fact where | unbound | dnssec | globalDns | trivalentDoh
  deriving DecidableEq

/-- The key of the lines that state the fact. -/
def Fact.key : Fact → Text
  | unbound => "DNS Resolver"
  | dnssec => "DNSSEC"
  | globalDns => "Global DNS"
  | trivalentDoh => "Trivalent DoH"

/-- The value that makes the fact true. -/
def Fact.value : Fact → Text
  | unbound => "Unbound"
  | dnssec | globalDns | trivalentDoh => "enabled"

/-- `unbound`, `dnssec`, `global_dns` and `trivalent_doh` of `audit_dns`. -/
def auditFact (statusOut : Text) (fact : Fact) : Bool :=
  decide ((flags statusOut).get fact.key = some fact.value)

/-! ### The facts in the files -/

namespace Files
section
variable (casefold : Text → Text) (load : Text → Loaded) (files : Files)

def resolver : DNSResolver :=
  match DNSResolver.detect files.resolvConf with
  | .ok resolver => resolver
  | .error _ => .unknown

def dnssec : Bool := decide (files.resolver = .unbound) &&
  match files.dnsconfdConf with
  | .text content => dnssecEnabledFrom casefold false (fileLines content)
  | _ => false

/-- The global-DNS file, where it is read. -/
def sections : ConfigParser.Sections :=
  match files.resolver, readGlobalDns files.globalDns with
  | .unbound, .ok sections => sections
  | _, _ => ∅

def globalDnsEnabled : Bool := files.sections.hasSection globalDnsSection &&
  match getOption files.sections globalDnsSection "resolve-mode" with
  | .ok resolveMode => decide (resolveMode = some ("exclusive" : Text))
  | .error _ => false

/-- The servers that are listed. -/
def servers : List Text :=
  match files.sections.hasSection globalDnsSection, globalDnsServers files.sections with
  | true, .ok servers => servers
  | _, _ => []

/-- The policy, where it can be read; there is nothing in it if there is no file. -/
def policy : Option (Text → Option JsonValue) :=
  match files.trivalentPolicy with
  | .missing => some fun _ => none
  | .text content => match load (universalNewlines content) with
    | .object get => some get
    | _ => none
  | _ => none

def endpoint : Option JsonValue :=
  (files.policy load).bind fun get => (get "DnsOverHttpsTemplates").filter JsonValue.truthy

def trivalentDoh : Bool :=
  (files.endpoint load).isSome && isSecure ((files.policy load).bind fun get => get "DnsOverHttpsMode")

/-- The facts that the four print functions compute. -/
def fact : Fact → Bool
  | .unbound => decide (files.resolver = .unbound)
  | .dnssec => files.dnssec casefold
  | .globalDns => files.globalDnsEnabled
  | .trivalentDoh => files.trivalentDoh load

/-- The lines of the servers that look like a status. -/
def serverFlags : List (Text × Text) := files.servers.flatMap (readLines flagOf)

/-- The lines of the endpoint that look like a status, behind its first line. -/
def endpointFlags : List (Text × Text) :=
  match files.endpoint load with
  | some endpoint => (splitlines endpoint.str).tail.filterMap flagOf
  | none => []

/-- The lines of servers and endpoint that come where the audit takes them for the fact's own. The
    policy is reported behind the servers, if it is. -/
def freeFlags : Fact → List (Text × Text)
  | .trivalentDoh => if (files.policy load).isSome then files.endpointFlags load else files.serverFlags
  | _ => files.serverFlags ++ files.endpointFlags load

/-- The last of the lines that look like the fact's own agrees with it. -/
def Agrees (fact : Fact) : Prop :=
  ∀ value, lastWins (files.freeFlags load fact) fact.key = some value →
    decide (value = fact.value) = files.fact casefold load fact

end
end Files

/-! ### Lines that look like a status -/

theorem flagOf_nil : flagOf [] = none := rfl

theorem flagOf_cons_space (c : Char) (l : Text) (hc : isSpace c) : flagOf (c :: l) = flagOf l := by
  have hne : c ≠ ':' := by rintro rfl; exact absurd hc (by decide)
  rw [flagOf, partition_cons hne, flagOf]
  obtain ⟨key, sep, value⟩ := partition ':' l
  cases sep with
  | nil => rfl
  | cons _ _ => simp only [strip_cons_of_space hc]

theorem flagOf_concat_space (c : Char) (l : Text) (hc : isSpace c) : flagOf (l ++ [c]) = flagOf l := by
  have hne : c ≠ ':' := by rintro rfl; exact absurd hc (by decide)
  by_cases hl : ':' ∈ l
  · obtain ⟨key, value, rfl, hkey⟩ := List.eq_append_cons_of_mem hl
    rw [flagOf, List.append_assoc, List.cons_append, partition_append hkey, flagOf, partition_append hkey]
    simp only [strip_append_of_space hc]
  · have hlc : ':' ∉ l ++ [c] := by simp [hl, hne.symm]
    rw [flagOf, partition_of_not_mem hlc, flagOf, partition_of_not_mem hl]

/-- The audit reads every text that was printed by itself. -/
theorem readLines_commandStdout (output : Output) :
    readLines flagOf (commandStdout output) = output.flatMap (readLines flagOf) := by
  rw [commandStdout, readLines_strip flagOf_nil flagOf_cons_space flagOf_concat_space,
    readLines_universalNewlines, readLines_flatMap flagOf_nil]

theorem readLines_statusLine {key : Text} (hkey : ':' ∉ key) (hbreak : ∀ c ∈ key, isLineBreak c = false)
    (value : Text) : readLines flagOf (statusLine key value) =
      (strip key, strip ((splitlines value).headD [])) :: (splitlines value).tail.filterMap flagOf := by
  have hp : ∀ c ∈ key ++ [':', ' '], isLineBreak c = false := by
    intro c hc
    rcases List.mem_append.mp hc with hc | hc
    · exact hbreak c hc
    · rcases List.mem_pair.mp hc with rfl | rfl <;> decide
  have hline : statusLine key value = (key ++ [':', ' ']) ++ value := by simp [statusLine]
  have hflag : flagOf ((key ++ [':', ' ']) ++ (splitlines value).headD []) =
      some (strip key, strip ((splitlines value).headD [])) := by
    rw [flagOf, List.append_assoc, List.cons_append, List.singleton_append, partition_append hkey]
    simp only [strip_cons_of_space (show isSpace ' ' by decide)]
  rw [readLines, hline, splitlines_append (by simp) hp, List.filterMap_cons_some hflag]

/-! ### The report, as the audit reads it -/

section
variable {casefold : Text → Text} {load : Text → Loaded} {files : Files} {output : Output}

/-- The flags of a report. -/
def flagsOf (output : Output) : List (Text × Text) := output.flatMap (readLines flagOf)

/-- The lines of a report that state a fact, if there is one, followed by other lines. -/
def States (fact : Fact) (holds : Bool) (l free : List (Text × Text)) : Prop :=
  ∃ value : Option Text, l = value.toList.map (fact.key, ·) ++ free ∧
    decide (value = some fact.value) = holds

theorem flagsOf_line (fact : Fact) {value : Text} (hvalue : splitlines value = [value] ∧ strip value = value)
    (out : Output) : flagsOf (statusLine fact.key value :: out) = (fact.key, value) :: flagsOf out := by
  have hkey : ':' ∉ fact.key ∧ (∀ c ∈ fact.key, isLineBreak c = false) ∧ strip fact.key = fact.key := by
    cases fact <;> decide
  rw [flagsOf, List.flatMap_cons, readLines_statusLine hkey.1 hkey.2.1, hvalue.1, hkey.2.2]
  simp [hvalue.2, flagsOf]

theorem states_line {fact : Fact} {holds : Bool} {value : Text} {out : Output}
    (hvalue : splitlines value = [value] ∧ strip value = value)
    (hholds : decide (value = fact.value) = holds) :
    States fact holds (flagsOf (statusLine fact.key value :: out)) (flagsOf out) :=
  ⟨some value, flagsOf_line fact hvalue out, by simpa using hholds⟩

theorem states_nothing {fact : Fact} : States fact false (flagsOf []) [] := ⟨none, rfl, rfl⟩

theorem states_printCurrentResolver (h : printCurrentResolver files.resolvConf = .ok output) :
    States .unbound (files.fact casefold load .unbound) (flagsOf output) [] := by
  obtain ⟨resolver, hresolver, h⟩ := bind_eq_ok.mp h
  have hfiles : files.resolver = resolver := by rw [Files.resolver, hresolver]
  rw [Files.fact, hfiles]
  cases resolver <;> cases h <;> exact states_line (by decide) (by decide)

theorem states_printDnssecStatus
    (h : printDnssecStatus casefold files.resolvConf files.dnsconfdConf = .ok output) :
    States .dnssec (files.fact casefold load .dnssec) (flagsOf output) [] := by
  obtain ⟨resolver, hresolver, h⟩ := bind_eq_ok.mp h
  have hfiles : files.resolver = resolver := by rw [Files.resolver, hresolver]
  rw [Files.fact, Files.dnssec, hfiles]
  split at h
  · next hne =>
    cases h
    rw [decide_eq_false hne, Bool.false_and]
    exact states_line (by decide) (by decide)
  · next hunbound =>
    rw [decide_eq_true (not_not.mp hunbound), Bool.true_and]
    cases hconf : files.dnsconfdConf with
    | missing => rw [hconf] at h; cases h; exact states_line (by decide) rfl
    | osError before => rw [hconf] at h; cases h; exact states_nothing
    | decodeError before => rw [hconf] at h; cases h; exact states_nothing
    | text content =>
      rw [hconf] at h
      cases h
      change States _ (dnssecEnabledFrom casefold false (fileLines content)) _ _
      cases dnssecEnabledFrom casefold false (fileLines content) <;>
        exact states_line (by decide) (by decide)

theorem states_printNmGlobaldnsStatus
    (h : printNmGlobaldnsStatus files.resolvConf files.globalDns = .ok output) :
    States .globalDns (files.fact casefold load .globalDns) (flagsOf output)
      (flagsOf (printServers files.servers)) := by
  obtain ⟨resolver, hresolver, h⟩ := bind_eq_ok.mp h
  have hfiles : files.resolver = resolver := by rw [Files.resolver, hresolver]
  split at h
  · next hne =>
    have hsections : files.sections = ∅ := by
      rw [Files.sections, hfiles]
      cases resolver with
      | unbound => exact absurd rfl hne
      | resolved => rfl
      | unknown => rfl
    cases h
    have hfact : files.fact casefold load .globalDns = false := by
      rw [Files.fact, Files.globalDnsEnabled, hsections]
      rfl
    have hservers : files.servers = [] := by
      rw [Files.servers, hsections]
      rfl
    rw [hfact, hservers]
    exact states_line (by decide) (by decide)
  · next hunbound =>
    rw [not_not.mp hunbound] at hfiles
    obtain ⟨sections, hread, h⟩ := bind_eq_ok.mp h
    have hsections : files.sections = sections := by rw [Files.sections, hfiles, hread]
    rw [Files.fact, Files.globalDnsEnabled, Files.servers, hsections]
    split at h
    · next hsection =>
      have hnone : sections.hasSection globalDnsSection = false := by simpa using hsection
      cases h
      rw [hnone, Bool.false_and]
      exact states_line (by decide) (by decide)
    · next hsection =>
      have hsome : sections.hasSection globalDnsSection = true := by simpa using hsection
      obtain ⟨resolveMode, hmode, h⟩ := bind_eq_ok.mp h
      obtain ⟨servers, hservers, h⟩ := bind_eq_ok.mp h
      cases h
      rw [hsome, hmode, hservers, Bool.true_and]
      by_cases hexclusive : resolveMode = some ("exclusive" : Text)
      · rw [if_pos hexclusive]
        exact states_line (by decide) (by simp only [hexclusive]; decide)
      · rw [if_neg hexclusive]
        exact states_line (by decide) (by simp only [hexclusive]; decide)

def endpointKey : Text := "Trivalent DoH endpoint"

/-- The policy is reported if it can be read. -/
theorem eq_of_printTrivalentDohStatus (h : printTrivalentDohStatus load files.trivalentPolicy = .ok output) :
    output = match files.policy load with
      | none => []
      | some _ => statusLine Fact.trivalentDoh.key (if files.trivalentDoh load then "enabled" else "disabled") ::
          (files.endpoint load).toList.map fun endpoint => statusLine endpointKey endpoint.str := by
  cases hfile : files.trivalentPolicy with
  | missing =>
    rw [hfile] at h
    cases h
    simp only [Files.trivalentDoh, Files.endpoint, Files.policy, hfile]
    rfl
  | osError before =>
    rw [hfile] at h
    cases h
    simp only [Files.policy, hfile]
  | decodeError before =>
    rw [hfile] at h
    cases h
    simp only [Files.policy, hfile]
  | text content =>
    rw [hfile, printTrivalentDohStatus] at h
    cases hload : load (universalNewlines content) with
    | invalid =>
      simp only [hload] at h
      cases h
      simp only [Files.policy, hfile, hload]
    | raises => simp only [hload] at h; cases h
    | object get =>
      simp only [hload] at h
      simp only [Files.trivalentDoh, Files.endpoint, Files.policy, hfile, hload, Option.bind_some]
      cases hendpoint : (get "DnsOverHttpsTemplates").filter JsonValue.truthy with
      | none =>
        simp only [hendpoint] at h
        cases h
        rfl
      | some endpoint =>
        simp only [hendpoint] at h
        cases h
        rfl

variable (load files) in
/-- The endpoint's first line is harmless, the other lines stand alone. -/
theorem flagsOf_endpoint : ∃ first, (∀ e ∈ first, e.1 = endpointKey) ∧
    flagsOf ((files.endpoint load).toList.map fun endpoint => statusLine endpointKey endpoint.str) =
      first ++ files.endpointFlags load := by
  have hkey : ':' ∉ endpointKey ∧ (∀ c ∈ endpointKey, isLineBreak c = false) ∧ strip endpointKey = endpointKey := by
    decide
  cases hendpoint : files.endpoint load with
  | none => exact ⟨[], nofun, by rw [Files.endpointFlags, hendpoint]; rfl⟩
  | some endpoint =>
    refine ⟨[(endpointKey, strip ((splitlines endpoint.str).headD []))], by simp, ?_⟩
    rw [Files.endpointFlags, hendpoint, Option.toList_some, List.map_singleton, flagsOf,
      List.flatMap_singleton, readLines_statusLine hkey.1 hkey.2.1, hkey.2.2]
    rfl

variable (casefold) in
theorem states_printTrivalentDohStatus (h : printTrivalentDohStatus load files.trivalentPolicy = .ok output) :
    ∃ first, (∀ e ∈ first, e.1 = endpointKey) ∧
      ((files.policy load = none ∧ files.endpointFlags load = [] ∧ files.fact casefold load .trivalentDoh = false ∧
          flagsOf output = []) ∨
        ((files.policy load).isSome ∧ ∃ value : Text,
          flagsOf output = (Fact.trivalentDoh.key, value) :: (first ++ files.endpointFlags load) ∧
          decide (value = Fact.trivalentDoh.value) = files.fact casefold load .trivalentDoh)) := by
  obtain ⟨first, hfirst, hflags⟩ := flagsOf_endpoint load files
  have hout := eq_of_printTrivalentDohStatus h
  cases hpolicy : files.policy load with
  | none =>
    rw [hpolicy] at hout
    have hendpoint : files.endpoint load = none := by rw [Files.endpoint, hpolicy]; rfl
    refine ⟨[], nofun, Or.inl ⟨rfl, ?_, ?_, by rw [hout]; rfl⟩⟩
    · rw [Files.endpointFlags, hendpoint]
    · rw [Files.fact, Files.trivalentDoh, hendpoint]
      rfl
  | some get =>
    rw [hpolicy] at hout
    rw [Files.fact, hout]
    refine ⟨first, hfirst, Or.inr ⟨rfl, ?_⟩⟩
    cases files.trivalentDoh load
    · exact ⟨"disabled", (flagsOf_line _ (by decide) _).trans (by rw [hflags]; rfl), by decide⟩
    · exact ⟨"enabled", (flagsOf_line _ (by decide) _).trans (by rw [hflags]; rfl), by decide⟩

variable (files) in
/-- The header above the servers is harmless. -/
theorem flagsOf_printServers : ∃ header, (∀ e ∈ header, e.1 = ("Global DNS servers" : Text)) ∧
    flagsOf (printServers files.servers) = header ++ files.serverFlags := by
  rw [Files.serverFlags, printServers]
  split
  · next hnil => exact ⟨[], nofun, by rw [hnil]; rfl⟩
  · refine ⟨[("Global DNS servers", [])], by simp, ?_⟩
    have hindent : ∀ server : Text, readLines flagOf ("  " ++ server) = readLines flagOf server := fun server =>
      (readLines_cons_space flagOf_nil flagOf_cons_space (by decide) (' ' :: server)).trans
        (readLines_cons_space flagOf_nil flagOf_cons_space (by decide) server)
    rw [flagsOf, List.flatMap_cons, List.flatMap_map]
    simp only [hindent]
    rfl

theorem key_injective {fact fact' : Fact} (h : fact.key = fact'.key) : fact = fact' := by
  cases fact <;> cases fact' <;> first | rfl | exact absurd h (by decide)

theorem lastWins_stated (fact fact' : Fact) (value : Option Text) :
    lastWins (value.toList.map (fact'.key, ·)) fact.key = if fact = fact' then value else none := by
  cases value with
  | none => simp
  | some value =>
    rw [Option.toList_some, List.map_singleton, lastWins_singleton]
    exact if_congr ⟨key_injective, congrArg Fact.key⟩ rfl rfl

/-- Lines with another key say nothing about the fact. -/
theorem lastWins_of_ne {l : List (Text × Text)} {key other : Text} (hl : ∀ e ∈ l, e.1 = other)
    (hne : key ≠ other) : lastWins l key = none := by
  by_contra hsome
  have hmem := lastWins_isSome.mp (Option.isSome_iff_ne_none.mpr hsome)
  obtain ⟨e, he, hkey⟩ := List.mem_map.mp hmem
  exact hne (hkey ▸ hl e he)

/-- The audit takes the last line that looks like the fact's own, or else the fact's own line. -/
theorem lastWins_flagsOf (h : printAllStatus casefold load files = .ok output) (fact : Fact) :
    ∃ value : Option Text, lastWins (flagsOf output) fact.key =
        (lastWins (files.freeFlags load fact) fact.key).or value ∧
      decide (value = some fact.value) = files.fact casefold load fact := by
  obtain ⟨out₁, h₁, h⟩ := bind_eq_ok.mp h
  obtain ⟨out₂, h₂, h⟩ := bind_eq_ok.mp h
  obtain ⟨out₃, h₃, h⟩ := bind_eq_ok.mp h
  obtain ⟨out₄, h₄, h⟩ := bind_eq_ok.mp h
  cases h
  have hs₁ : States .unbound (files.fact casefold load .unbound) (flagsOf out₁) [] :=
    states_printCurrentResolver h₁
  have hs₂ : States .dnssec (files.fact casefold load .dnssec) (flagsOf out₂) [] :=
    states_printDnssecStatus h₂
  have hs₃ : States .globalDns (files.fact casefold load .globalDns) (flagsOf out₃)
      (flagsOf (printServers files.servers)) :=
    states_printNmGlobaldnsStatus h₃
  obtain ⟨value₁, hf₁, hv₁⟩ := hs₁
  obtain ⟨value₂, hf₂, hv₂⟩ := hs₂
  obtain ⟨value₃, hf₃, hv₃⟩ := hs₃
  obtain ⟨header, hheader, hservers⟩ := flagsOf_printServers files
  obtain ⟨first, hfirst, h₄⟩ := states_printTrivalentDohStatus casefold h₄
  have hheader' : lastWins header fact.key = none := lastWins_of_ne hheader (by cases fact <;> decide)
  have hfirst' : lastWins first fact.key = none := lastWins_of_ne hfirst (by cases fact <;> decide)
  have hflags : flagsOf (out₁ ++ out₂ ++ out₃ ++ out₄) =
      flagsOf out₁ ++ flagsOf out₂ ++ flagsOf out₃ ++ flagsOf out₄ := by simp [flagsOf]
  rw [hflags, hf₁, hf₂, hf₃, hservers]
  simp only [lastWins_append, lastWins_stated, hheader', Option.or_none, List.append_nil]
  rcases h₄ with ⟨hpolicy, hendpoint, hfact, hout⟩ | ⟨hpolicy, value₄, hout, hv₄⟩
  · rw [hout, lastWins_nil, Option.none_or]
    cases fact with
    | unbound => exact ⟨value₁, by simp [Files.freeFlags, hendpoint], hv₁⟩
    | dnssec => exact ⟨value₂, by simp [Files.freeFlags, hendpoint], hv₂⟩
    | globalDns => exact ⟨value₃, by simp [Files.freeFlags, hendpoint], hv₃⟩
    | trivalentDoh => exact ⟨none, by simp [Files.freeFlags, hpolicy], by rw [hfact]; rfl⟩
  · have hline : flagsOf out₄ = (some value₄).toList.map (Fact.trivalentDoh.key, ·) ++
        (first ++ files.endpointFlags load) := hout
    rw [hline, lastWins_append, lastWins_append, hfirst', Option.or_none, lastWins_stated]
    cases fact with
    | unbound => exact ⟨value₁, by simp [Files.freeFlags, lastWins_append, Option.or_assoc], hv₁⟩
    | dnssec => exact ⟨value₂, by simp [Files.freeFlags, lastWins_append, Option.or_assoc], hv₂⟩
    | globalDns => exact ⟨value₃, by simp [Files.freeFlags, lastWins_append, Option.or_assoc], hv₃⟩
    | trivalentDoh => exact ⟨some value₄, by simp [Files.freeFlags, hpolicy], by simpa using hv₄⟩

/-- A fact comes through exactly if no line that looks like its own disagrees. -/
theorem auditFact_eq_iff (h : printAllStatus casefold load files = .ok output) (fact : Fact) :
    auditFact (commandStdout output) fact = files.fact casefold load fact ↔ files.Agrees casefold load fact := by
  obtain ⟨value, hlast, hvalue⟩ := lastWins_flagsOf h fact
  have hget : (flags (commandStdout output)).get fact.key =
      (lastWins (files.freeFlags load fact) fact.key).or value := by
    rw [flags, Dict.get_ofList, readLines_commandStdout]
    exact hlast
  rw [auditFact, hget, Files.Agrees]
  cases lastWins (files.freeFlags load fact) fact.key with
  | none => exact iff_of_true hvalue nofun
  | some free => simp

end

/-- CORRECT: the audit recovers the facts that were computed exactly if no server and no endpoint has a
    line that looks like the status of a fact and says otherwise. -/
theorem auditFacts_eq_iff (casefold : Text → Text) (load : Text → Loaded) (files : Files) (output : Output)
    (h : printAllStatus casefold load files = .ok output) :
    (∀ fact, auditFact (commandStdout output) fact = files.fact casefold load fact) ↔
      ∀ fact, files.Agrees casefold load fact :=
  forall_congr' fun fact => auditFact_eq_iff h fact

/-- Unbound with a file of global servers, and nothing else. -/
def unboundFiles (globalDns : Text) : Files :=
  ⟨.text "nameserver 127.0.0.1\n", .missing, .text globalDns, .missing⟩

def noPolicy (_ : Text) : Loaded := .invalid

def oneServer : Text := "[global-dns]\nresolve-mode=exclusive\n\n[global-dns-domain-*]\nservers=9.9.9.9\n"

def oneServerOutput : Output :=
  ["DNS Resolver: Unbound", "DNSSEC: disabled", "Global DNS: enabled", "Global DNS servers:", "  9.9.9.9",
    "Trivalent DoH: disabled"]

theorem auditFacts_oneServer :
    (∀ fact, auditFact (commandStdout oneServerOutput) fact = (unboundFiles oneServer).fact id noPolicy fact) ↔
      ∀ fact, (unboundFiles oneServer).Agrees id noPolicy fact :=
  auditFacts_eq_iff id noPolicy (unboundFiles oneServer) oneServerOutput rfl

def dnssecServer : Text :=
  "[global-dns]\nresolve-mode=exclusive\n\n[global-dns-domain-*]\nservers=DNSSEC: enabled\n"

/-- A server that looks like a status turns a fact around. -/
theorem server_claims_dnssec : ∃ output, printAllStatus id noPolicy (unboundFiles dnssecServer) = .ok output ∧
    (unboundFiles dnssecServer).fact id noPolicy .dnssec = false ∧
    auditFact (commandStdout output) .dnssec = true := by
  refine ⟨_, rfl, rfl, ?_⟩
  decide +kernel

end Dns.Selector
