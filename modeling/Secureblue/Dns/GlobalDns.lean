import Secureblue.Dns.Consistency
import Secureblue.Dns.Selector

/-! The way of custom servers: from the dialogue (`_ask_custom_ips`) through the file that the worker
    writes for NetworkManager to the report that reads the file back. -/

namespace Dns.Selector
open Py Py.IpAddress Script

/-! ### The dialogue -/

/-- A line that was entered, without its end. -/
def Line := {t : Text // '\n' ∉ t}

/-- A part of the dialogue, with the lines that are still to be entered; none if they run out. -/
abbrev Dialogue := StateT (List Line) Option

/-- Ask for a string input, strip whitespace, and exit if interrupted. -/
def interruptibleAsk : Dialogue Text
  | [] => none
  | line :: lines => some (strip line.1, lines)

section
variable (casefold : Text → Text)

/-- Returns the user's preference between yes/y (True) and no/n (False). -/
def askYesNo : Dialogue Bool
  | [] => none
  | line :: lines =>
    let option := casefold (strip line.1)
    if option = "y" ∨ option = "yes" then some (true, lines)
    else if option = "n" ∨ option = "no" then some (false, lines)
    else askYesNo lines

/-- Returns a valid IPv4 address. -/
def askValidIpv4 : Dialogue Text
  | [] => none
  | line :: lines =>
    let ip := strip line.1
    if (ipv4Address ip).isSome then some (ip, lines) else askValidIpv4 lines

/-- Returns a valid IPv6 address enclosed in square brackets. -/
def askValidIpv6 : Dialogue Text
  | [] => none
  | line :: lines =>
    let ip := stripChars [' ', '[', ']'] (strip line.1)
    if (ipv6Address ip).isSome then some ('[' :: (ip ++ [']']), lines) else askValidIpv6 lines

/-- What the dialogue is about. -/
structure CustomIps where
  ipv4Primary : Text
  ipv4Secondary : Text
  ipv6Primary : Text
  ipv6Secondary : Text
  hostname : Text

def CustomIps.ips (e : CustomIps) : List Text :=
  [e.ipv4Primary, e.ipv4Secondary, e.ipv6Primary, e.ipv6Secondary].filter (· ≠ [])

def protocol : Text := "dns+tls://"

/-- A server with its protocol, and with the host name if there is one. -/
def token (hostname ip : Text) : Text :=
  protocol ++ ip ++ if hostname = [] then [] else '#' :: hostname

def CustomIps.tokens (e : CustomIps) : List Text := e.ips.map (token e.hostname)

/-- A question that is left out, with the empty answer, unless it is wanted. -/
def askIf (wanted : Bool) (ask : Dialogue Text) : Dialogue Text := if wanted then ask else pure []

/-- The questions of `_ask_custom_ips`. -/
def askIps : Dialogue CustomIps := do
  let ipv4Primary ← askValidIpv4
  let hasSecondary ← askYesNo casefold
  let ipv4Secondary ← askIf hasSecondary askValidIpv4
  let hasIpv6 ← askYesNo casefold
  let ipv6Primary ← askIf hasIpv6 askValidIpv6
  let ipv6Secondary ← askIf (hasIpv6 && hasSecondary) askValidIpv6
  let hasDot ← askYesNo casefold
  let hostname ← askIf hasDot interruptibleAsk
  return { ipv4Primary, ipv4Secondary, ipv6Primary, ipv6Secondary, hostname }

/-- Returns a comma-separated list of IPs and protocols representing the user's custom servers. -/
def askCustomIps : Dialogue Text := do
  let e ← askIps casefold
  return [','].intercalate e.tokens

end

/-! ### What the dialogue accepts -/

/-- An address as a token has it. -/
def IsIp (ip : Text) : Prop :=
  (ipv4Address ip).isSome ∨
    ∃ inner, ip = '[' :: (inner ++ [']']) ∧ (ipv6Address inner).isSome ∧ '\n' ∉ inner

structure CustomIps.Accepted (e : CustomIps) : Prop where
  ne_nil : e.ips ≠ []
  isIp : ∀ ip ∈ e.ips, IsIp ip
  newline : '\n' ∉ e.hostname
  getLast : ∀ c ∈ e.hostname.getLast?, isSpace c = false

theorem dialogue_bind {α β : Type} {m : Dialogue α} {f : α → Dialogue β} {lines left : List Line} {b : β}
    (h : (m >>= f) lines = some (b, left)) :
    ∃ a rest, m lines = some (a, rest) ∧ f a rest = some (b, left) := by
  obtain ⟨⟨a, rest⟩, hm, hf⟩ := Option.bind_eq_some_iff.mp h
  exact ⟨a, rest, hm, hf⟩

/-- A question that was left out is answered by nothing. -/
theorem of_askIf {wanted : Bool} {ask : Dialogue Text} {lines left : List Line} {a : Text}
    (h : askIf wanted ask lines = some (a, left)) : a = [] ∨ ask lines = some (a, left) := by
  cases wanted with
  | false => cases h; exact Or.inl rfl
  | true => exact Or.inr h

theorem stripped_of_interruptibleAsk {lines left : List Line} {a : Text}
    (h : interruptibleAsk lines = some (a, left)) : ∃ line : Line, a = strip line.1 := by
  cases lines with
  | nil => cases h
  | cons line lines => cases h; exact ⟨line, rfl⟩

theorem IsIp.ne_nil {ip : Text} (h : IsIp ip) : ip ≠ [] := by
  rcases h with h | ⟨inner, rfl, -⟩
  · exact (char_of_ipv4Address h).1
  · exact List.cons_ne_nil _ _

theorem isIp_of_askValidIpv4 {ip : Text} : ∀ {lines left : List Line}, askValidIpv4 lines = some (ip, left) →
    IsIp ip
  | line :: lines, left, h => by
      rw [askValidIpv4] at h
      split at h
      · next hip =>
        cases h
        exact Or.inl hip
      · exact isIp_of_askValidIpv4 h

theorem isIp_of_askValidIpv6 {ip : Text} : ∀ {lines left : List Line}, askValidIpv6 lines = some (ip, left) →
    IsIp ip
  | line :: lines, left, h => by
      rw [askValidIpv6] at h
      split at h
      · next hip =>
        cases h
        exact Or.inr ⟨_, rfl, hip, fun hc => line.2 (mem_of_mem_strip (mem_of_mem_stripChars hc))⟩
      · exact isIp_of_askValidIpv6 h

theorem accepted_of_askIps {casefold : Text → Text} {lines left : List Line} {e : CustomIps}
    (h : askIps casefold lines = some (e, left)) : e.Accepted := by
  obtain ⟨ipv4Primary, l₁, hprimary, h⟩ := dialogue_bind h
  obtain ⟨hasSecondary, l₂, -, h⟩ := dialogue_bind h
  obtain ⟨ipv4Secondary, l₃, hsecondary, h⟩ := dialogue_bind h
  obtain ⟨hasIpv6, l₄, -, h⟩ := dialogue_bind h
  obtain ⟨ipv6Primary, l₅, hprimary6, h⟩ := dialogue_bind h
  obtain ⟨ipv6Secondary, l₆, hsecondary6, h⟩ := dialogue_bind h
  obtain ⟨hasDot, l₇, -, h⟩ := dialogue_bind h
  obtain ⟨hostname, l₈, hhostname, h⟩ := dialogue_bind h
  cases h
  have hip := isIp_of_askValidIpv4 hprimary
  refine ⟨?_, ?_, ?_, ?_⟩
  · have hmem : ipv4Primary ∈ CustomIps.ips ⟨ipv4Primary, ipv4Secondary, ipv6Primary, ipv6Secondary, hostname⟩ := by
      simp [CustomIps.ips, hip.ne_nil]
    exact List.ne_nil_of_mem hmem
  · intro ip hmem
    obtain ⟨hmem, hne⟩ := List.mem_filter.mp hmem
    have hne : ip ≠ [] := of_decide_eq_true hne
    simp only [List.mem_cons, List.not_mem_nil, or_false] at hmem
    rcases hmem with rfl | rfl | rfl | rfl
    · exact hip
    · exact isIp_of_askValidIpv4 ((of_askIf hsecondary).resolve_left hne)
    · exact isIp_of_askValidIpv6 ((of_askIf hprimary6).resolve_left hne)
    · exact isIp_of_askValidIpv6 ((of_askIf hsecondary6).resolve_left hne)
  · rcases of_askIf hhostname with h | h
    · simp [h]
    · obtain ⟨line, rfl⟩ := stripped_of_interruptibleAsk h
      exact fun hc => line.2 (mem_of_mem_strip hc)
  · rcases of_askIf hhostname with h | h
    · simp [h]
    · obtain ⟨line, rfl⟩ := stripped_of_interruptibleAsk h
      exact getLast_strip line.1

/-! ### The characters of servers -/

theorem IsIp.newline {ip : Text} (h : IsIp ip) : '\n' ∉ ip := by
  rcases h with h | ⟨inner, rfl, -, hn⟩
  · intro hc
    rcases (char_of_ipv4Address h).2 _ hc with hd | hd <;> revert hd <;> decide
  · simpa using hn

theorem IsIp.getLast {ip : Text} (h : IsIp ip) : ∀ c ∈ ip.getLast?, isSpace c = false := by
  rcases h with h | ⟨inner, rfl, -⟩
  · intro c hc
    rcases (char_of_ipv4Address h).2 c (List.mem_of_getLast? hc) with hd | rfl
    · exact isSpace_of_isDigit hd
    · rfl
  · rw [← List.cons_append, List.getLast?_concat]
    rintro _ ⟨⟩
    rfl

/-- An address without a scope has nothing to mistake. -/
theorem IsIp.plain {ip : Text} (h : IsIp ip) (hpercent : '%' ∉ ip) : ',' ∉ ip ∧ '\r' ∉ ip := by
  rcases h with h | ⟨inner, rfl, hi, -⟩
  · have hchar := (char_of_ipv4Address h).2
    exact ⟨fun hc => absurd (hchar _ hc) (by decide), fun hc => absurd (hchar _ hc) (by decide)⟩
  · have hchar := (char_of_ipv6Address hi).2 (by simpa using hpercent)
    have hcomma : ',' ∉ inner := fun hc => absurd (hchar _ hc) (by decide)
    have hreturn : '\r' ∉ inner := fun hc => absurd (hchar _ hc) (by decide)
    simp [hcomma, hreturn]

theorem mem_token {hostname ip : Text} {c : Char} :
    c ∈ token hostname ip ↔ c ∈ protocol ∨ c ∈ ip ∨ hostname ≠ [] ∧ c = '#' ∨ c ∈ hostname := by
  rw [token]
  by_cases h : hostname = []
  · simp [h]
  · simp [h]

/-- Neither the host name nor an address has a character that the way to the report changes. -/
def CustomIps.Plain (e : CustomIps) : Prop :=
  (∀ ip ∈ e.ips, '%' ∉ ip) ∧ '%' ∉ e.hostname ∧ ',' ∉ e.hostname ∧ '\r' ∉ e.hostname

/-- The server string that the dialogue answers. -/
def CustomIps.servers (e : CustomIps) : Text := [','].intercalate e.tokens

theorem CustomIps.Accepted.plain_iff {e : CustomIps} (h : e.Accepted) :
    e.Plain ↔ ∀ t ∈ e.tokens, '%' ∉ t ∧ ',' ∉ t ∧ '\r' ∉ t := by
  obtain ⟨ip₀, hip₀⟩ := List.exists_mem_of_ne_nil _ h.ne_nil
  constructor
  · rintro ⟨hips, hpercent, hcomma, hreturn⟩ t ht
    obtain ⟨ip, hip, rfl⟩ := List.mem_map.mp ht
    obtain ⟨hcomma', hreturn'⟩ := (h.isIp ip hip).plain (hips ip hip)
    have hpercent' := hips ip hip
    have hprotocol : '%' ∉ protocol ∧ ',' ∉ protocol ∧ '\r' ∉ protocol := by decide
    simp [mem_token, hpercent, hcomma, hreturn, hpercent', hcomma', hreturn', hprotocol]
  · intro ht
    simp only [CustomIps.tokens, List.forall_mem_map, mem_token, not_or] at ht
    refine ⟨fun ip hip => (ht ip hip).1.2.1, ?_⟩
    obtain ⟨hpercent, hcomma, hreturn⟩ := ht ip₀ hip₀
    exact ⟨hpercent.2.2.2, hcomma.2.2.2, hreturn.2.2.2⟩

/-- A value that a line of a configuration file gives back. -/
structure IsValue (v : Text) : Prop where
  ne_nil : v ≠ []
  newline : '\n' ∉ v
  head : ∀ c ∈ v.head?, isSpace c = false
  getLast : ∀ c ∈ v.getLast?, isSpace c = false

theorem CustomIps.Accepted.token {e : CustomIps} (h : e.Accepted) : ∀ t ∈ e.tokens,
    t ≠ [] ∧ ∀ c ∈ t.getLast?, isSpace c = false := by
  intro t ht
  obtain ⟨ip, hip, rfl⟩ := List.mem_map.mp ht
  have hne := (h.isIp ip hip).ne_nil
  rw [Selector.token]
  split
  · next hhostname =>
    refine ⟨by simp [hne], ?_⟩
    rw [List.append_nil, List.getLast?_append_of_ne_nil _ hne]
    exact (h.isIp ip hip).getLast
  · next hhostname =>
    refine ⟨by simp, ?_⟩
    rw [List.getLast?_append_of_ne_nil _ (List.cons_ne_nil _ _), List.getLast?_cons_of_ne_nil hhostname]
    exact h.getLast

theorem CustomIps.Accepted.servers {e : CustomIps} (h : e.Accepted) : IsValue e.servers := by
  obtain ⟨ip, ips, hips⟩ := List.exists_cons_of_ne_nil h.ne_nil
  have hhead : ∃ rest, e.servers = 'd' :: rest := by
    rw [CustomIps.servers, CustomIps.tokens, hips]
    cases ips with
    | nil => exact ⟨_, rfl⟩
    | cons ip' ips => exact ⟨_, rfl⟩
  obtain ⟨rest, hrest⟩ := hhead
  refine ⟨hrest ▸ List.cons_ne_nil _ _, fun hc => ?_, ?_, getLast_join ',' h.token⟩
  · rcases mem_join hc with hc | ⟨t, ht, hc⟩
    · exact absurd hc (by decide)
    · obtain ⟨ip, hip, rfl⟩ := List.mem_map.mp ht
      have hprotocol : '\n' ∉ protocol := by decide
      simp [mem_token, hprotocol, (h.isIp ip hip).newline, h.newline] at hc
  · rw [hrest]
    rintro _ ⟨⟩
    rfl

/-! ### The file -/

/-- The lines of the file that the worker writes. -/
def globalDnsLines (v : Text) : List Text :=
  ["[global-dns]", "resolve-mode=exclusive", [], "[global-dns-domain-*]", "servers=" ++ v]

def margin : Text := "        "

/-- The lines of the template in `set_global_nm_servers`. -/
def templateLines (v : Text) : List Text :=
  [[], margin ++ "[global-dns]", margin ++ "resolve-mode=exclusive", [],
    margin ++ "[global-dns-domain-*]", margin ++ ("servers=" ++ v), margin]

theorem dedent_template {v : Text} (h : IsValue v) :
    dedent (['\n'].intercalate (templateLines v)) =
      ['\n'].intercalate ([[]] ++ globalDnsLines v ++ [[]]) := by
  have hmargin : ∀ c ∈ margin, c = ' ' ∨ c = '\t' := by decide
  have hnotSpace : ∀ l : Text, (∃ c ∈ l, isSpace c = false) → isSpaceText (margin ++ l) = false := by
    rintro l ⟨c, hc, hspace⟩
    rw [isSpaceText, Bool.and_eq_false_iff, List.all_eq_false]
    exact Or.inr ⟨c, List.mem_append_right _ hc, by simp [hspace]⟩
  have hne : templateLines v ≠ [] := List.cons_ne_nil _ _
  rw [dedent_join hmargin hne]
  · have hdrop : ∀ l : Text, (margin ++ l).drop margin.length = l := fun l => List.drop_left
    have hservers : isSpaceText (margin ++ ("servers=" ++ v)) = false := hnotSpace _ ⟨'s', by simp, rfl⟩
    simp only [templateLines, List.map_cons, List.map_nil, hdrop, hservers]
    rfl
  · intro l hl
    simp only [templateLines, List.mem_cons, List.not_mem_nil, or_false] at hl
    rcases hl with rfl | rfl | rfl | rfl | rfl | rfl | rfl
    · decide
    · decide
    · decide
    · decide
    · decide
    · have hkey : '\n' ∉ margin ∧ '\n' ∉ ("servers=" : Text) := by decide
      simp only [List.mem_append, not_or]
      exact ⟨hkey.1, hkey.2, h.newline⟩
    · decide
  · intro l hl
    simp only [templateLines, List.mem_cons, List.not_mem_nil, or_false] at hl
    rcases hl with rfl | rfl | rfl | rfl | rfl | rfl | rfl
    · exact Or.inl rfl
    · exact Or.inr (Or.inr ⟨_, rfl, by decide⟩)
    · exact Or.inr (Or.inr ⟨_, rfl, by decide⟩)
    · exact Or.inl rfl
    · exact Or.inr (Or.inr ⟨_, rfl, by decide⟩)
    · refine Or.inr (Or.inr ⟨_, rfl, ?_⟩)
      rintro _ ⟨⟩
      rfl
    · exact Or.inr (Or.inl (by decide))

theorem globalDnsText_eq {v : Text} (h : IsValue v) :
    globalDnsText v = (globalDnsLines v).flatMap fun l => l ++ ['\n'] := by
  have htemplate : globalDnsText v = strip (dedent (['\n'].intercalate (templateLines v))) ++ ['\n'] := rfl
  have hjoin : ['\n'].intercalate ([[]] ++ globalDnsLines v ++ [[]]) =
      '\n' :: (['\n'].intercalate (globalDnsLines v) ++ ['\n']) := by
    simp [globalDnsLines, List.intercalate]
  obtain ⟨front, hfront⟩ : ∃ front, ['\n'].intercalate (globalDnsLines v) = '[' :: front ++ v :=
    ⟨"global-dns]\nresolve-mode=exclusive\n\n[global-dns-domain-*]\nservers=", by
      simp [globalDnsLines, List.intercalate]⟩
  have hstrip : strip ('\n' :: (['\n'].intercalate (globalDnsLines v) ++ ['\n'])) =
      ['\n'].intercalate (globalDnsLines v) := by
    rw [strip_cons_of_space (by decide), strip_append_of_space (by decide), hfront]
    refine strip_eq_self ?_ ?_
    · rintro _ ⟨⟩
      rfl
    · rw [List.getLast?_append_of_ne_nil _ h.ne_nil]
      exact h.getLast
  rw [htemplate, dedent_template h, hjoin, hstrip]
  simp [globalDnsLines, List.intercalate]

/-! ### Reading the file back -/

/-- The sections of the file. -/
def globalDnsSections (v : Text) : ConfigParser.Sections :=
  (((((∅ : ConfigParser.Sections).openSection globalDnsSection).setValue globalDnsSection "resolve-mode"
    ["exclusive"]).setValue globalDnsSection "resolve-mode" ["exclusive", []]).openSection
      globalDnsDomainSection).setValue globalDnsDomainSection "servers" [v]

theorem fileLines_globalDnsText {v : Text} (h : IsValue v) (hreturn : '\r' ∉ v) :
    fileLines (globalDnsText v) = (globalDnsLines v).map fun l => l ++ ['\n'] := by
  have hlines : ∀ l ∈ globalDnsLines v, '\n' ∉ l ∧ '\r' ∉ l := by
    intro l hl
    simp only [globalDnsLines, List.mem_cons, List.not_mem_nil, or_false] at hl
    rcases hl with rfl | rfl | rfl | rfl | rfl
    · decide
    · decide
    · decide
    · decide
    · have hkey : '\n' ∉ ("servers=" : Text) ∧ '\r' ∉ ("servers=" : Text) := by decide
      simp only [List.mem_append, not_or]
      exact ⟨⟨hkey.1, h.newline⟩, hkey.2, hreturn⟩
  rw [fileLines, globalDnsText_eq h, universalNewlines_eq_self, keepLines_lines fun l hl => (hlines l hl).1]
  simp only [List.mem_flatMap, List.mem_append, not_exists, not_and, not_or]
  exact fun l hl => ⟨(hlines l hl).2, by decide⟩

theorem read_globalDnsLines {v : Text} (h : IsValue v) :
    ConfigParser.read ((globalDnsLines v).map fun l => l ++ ['\n']) = .ok (globalDnsSections v) := by
  have hlines : globalDnsLines v = ['[' :: (globalDnsSection ++ [']']),
      "resolve-mode" ++ '=' :: "exclusive", [], '[' :: (globalDnsDomainSection ++ [']']),
      "servers" ++ '=' :: v] := by
    rw [globalDnsLines]
    have hservers : ("servers=" : Text) ++ v = "servers" ++ '=' :: v := by simp
    rw [hservers]
    congr 1
  have hsteps : ConfigParser.Reader.init.steps ((globalDnsLines v).map fun l => l ++ ['\n']) =
      .ok ⟨globalDnsSections v, some globalDnsDomainSection, "servers", 0, false⟩ := by
    rw [hlines]
    simp only [List.map_cons, List.map_nil, List.nil_append]
    rw [ConfigParser.Reader.steps_cons (ConfigParser.Reader.step_header _ (by decide)),
      ConfigParser.Reader.steps_cons (ConfigParser.Reader.step_option _ rfl (by decide) (by decide)
        (by decide) (by decide) (by decide) (by decide)),
      ConfigParser.Reader.steps_cons (ConfigParser.Reader.step_blank _),
      ConfigParser.Reader.steps_cons (ConfigParser.Reader.step_header _ (by decide)),
      ConfigParser.Reader.steps_cons (ConfigParser.Reader.step_option _ rfl (by decide) (by decide)
        (by decide) h.ne_nil h.head h.getLast)]
    rfl
  rw [ConfigParser.read, hsteps]
  rfl

theorem readGlobalDns_globalDnsText {v : Text} (h : IsValue v) (hreturn : '\r' ∉ v) :
    readGlobalDns (.text (globalDnsText v)) = .ok (globalDnsSections v) := by
  rw [readGlobalDns, fileLines_globalDnsText h hreturn, read_globalDnsLines h]
  rfl

section
variable (v : Text)

theorem value_globalDnsSections (name option : Text) : (globalDnsSections v).value name option =
    if name = globalDnsDomainSection ∧ option = "servers" then some [v]
    else if name = globalDnsSection ∧ option = "resolve-mode" then some ["exclusive", []] else none := by
  simp only [globalDnsSections, ConfigParser.Sections.value_setValue,
    ConfigParser.Sections.value_openSection]
  split
  · rfl
  · split
    · rfl
    · rfl

theorem resolveMode_globalDnsSections :
    getOption (globalDnsSections v) globalDnsSection "resolve-mode" = .ok (some ("exclusive" : Text)) := by
  have hsection : globalDnsSection ≠ globalDnsDomainSection := by decide
  have hraw : (globalDnsSections v).raw globalDnsSection "resolve-mode" = some ("exclusive" : Text) := by
    rw [ConfigParser.Sections.raw, value_globalDnsSections, if_neg fun h => hsection h.1, if_pos ⟨rfl, rfl⟩,
      Option.some_or, Option.map_some]
    decide
  rw [getOption, mapError_eq_ok, ConfigParser.Sections.get?, hraw]
  exact bind_eq_ok.mpr ⟨_, ConfigParser.interpolates_iff.mpr (ConfigParser.interpolates_self (by decide)), rfl⟩

theorem raw_globalDnsDomain {option value : Text}
    (h : (globalDnsSections v).raw globalDnsDomainSection option = some value) :
    value = rstrip v := by
  have hdomain : globalDnsDomainSection ≠ globalDnsSection := by decide
  have hdefault : ConfigParser.defaultSection ≠ globalDnsSection ∧
      ConfigParser.defaultSection ≠ globalDnsDomainSection := by decide
  rw [ConfigParser.Sections.raw, value_globalDnsSections, value_globalDnsSections] at h
  simp only [hdomain, hdefault.1, hdefault.2, false_and, if_false, true_and, Option.or_none] at h
  split at h
  · simpa using h.symm
  · cases h

end

/-- The report that global DNS is on, with the servers. -/
def globalDnsReport (servers : List Text) : Output :=
  statusLine "Global DNS" "enabled" :: "Global DNS servers:" ::
    servers.map fun server => ("  " : Text) ++ server

theorem printNmGlobaldnsStatus_iff {resolvConf globalDns : FileRead} {servers : List Text} (hne : servers ≠ []) :
    printNmGlobaldnsStatus resolvConf globalDns = .ok (globalDnsReport servers) ↔
      DNSResolver.detect resolvConf = .ok .unbound ∧ ∃ sections, readGlobalDns globalDns = .ok sections ∧
        sections.hasSection globalDnsSection ∧
        getOption sections globalDnsSection "resolve-mode" = .ok (some ("exclusive" : Text)) ∧
        globalDnsServers sections = .ok servers := by
  have hprint : ∀ l, printServers l = printServers servers → l = servers := by
    intro l hl
    by_cases hnil : l = []
    · simp [printServers, hnil, hne] at hl
    · simp only [printServers, hnil, hne, if_false, List.cons.injEq, true_and] at hl
      exact List.map_injective_iff.mpr (List.append_right_injective _) hl
  have hreport : globalDnsReport servers = statusLine "Global DNS" "enabled" :: printServers servers := by
    rw [globalDnsReport, printServers, if_neg hne]
  have hshort : ∀ line head : Text, (.ok [line] : Except Raised Output) ≠ .ok (head :: printServers servers) := by
    intro line head h
    have htail : [] = printServers servers := (List.cons.inj (Except.ok.inj h)).2
    rw [printServers, if_neg hne] at htail
    exact List.cons_ne_nil _ _ htail.symm
  have hstatus : statusLine "Global DNS" "disabled" ≠ statusLine "Global DNS" "enabled" := by decide
  rw [printNmGlobaldnsStatus, hreport, bind_eq_ok]
  constructor
  · rintro ⟨resolver, hdetect, h⟩
    split at h
    · exact absurd h (hshort _ _)
    · next hunbound =>
      rw [not_not] at hunbound
      obtain ⟨sections, hsections, h⟩ := bind_eq_ok.mp h
      refine ⟨hunbound ▸ hdetect, sections, hsections, ?_⟩
      split at h
      · exact absurd h (hshort _ _)
      · next hsection =>
        obtain ⟨mode, hmode, h⟩ := bind_eq_ok.mp h
        obtain ⟨l, hl, h⟩ := bind_eq_ok.mp h
        split at h
        · next hexclusive =>
          have hl' := hprint l (List.cons.inj (Except.ok.inj h)).2
          exact ⟨by simpa using hsection, hexclusive ▸ hmode, hl' ▸ hl⟩
        · exact absurd (List.cons.inj (Except.ok.inj h)).1 hstatus
  · rintro ⟨hdetect, sections, hsections, hsection, hmode, hservers⟩
    refine ⟨_, hdetect, ?_⟩
    rw [if_neg (not_not_intro rfl)]
    refine bind_eq_ok.mpr ⟨sections, hsections, ?_⟩
    rw [if_neg (by simp [hsection])]
    refine bind_eq_ok.mpr ⟨_, hmode, bind_eq_ok.mpr ⟨_, hservers, ?_⟩⟩
    rw [if_pos rfl]
    rfl

/-- The servers that are listed are the parts of what is stored. -/
theorem globalDnsServers_eq_ok {sections : ConfigParser.Sections} {servers : List Text} (hne : servers ≠ []) :
    globalDnsServers sections = .ok servers ↔ sections.hasSection globalDnsDomainSection ∧
      ∃ value, sections.get? globalDnsDomainSection "servers" = .ok (some value) ∧
        value ≠ [] ∧ value.splitOn ',' = servers := by
  rw [globalDnsServers]
  constructor
  · intro h
    split at h
    · next hsection =>
      obtain ⟨value, hvalue, h⟩ := bind_eq_ok.mp h
      have hservers := Except.ok.inj h
      split at hservers
      · exact absurd hservers.symm hne
      · next hvalue' =>
        cases value with
        | none => exact absurd rfl hvalue'
        | some value => exact ⟨hsection, value, mapError_eq_ok.mp hvalue, hvalue', hservers⟩
    · exact absurd (Except.ok.inj h).symm hne
  · rintro ⟨hsection, value, hvalue, hvalue', rfl⟩
    rw [if_pos hsection]
    refine bind_eq_ok.mpr ⟨some value, mapError_eq_ok.mpr hvalue, ?_⟩
    exact congrArg Except.ok (if_neg hvalue')

section
variable {v : Text} {servers : List Text}

/-- The servers are read back if no percent sign is among them. -/
theorem globalDnsServers_iff (h : IsValue v) (hjoin : [','].intercalate servers = v)
    (hcomma : ∀ t ∈ servers, ',' ∉ t) (hne : servers ≠ []) :
    globalDnsServers (globalDnsSections v) = .ok servers ↔ '%' ∉ v := by
  have hstored : rstrip v = v := by
    rw [rstrip, List.rdropWhile_eq_self_iff]
    exact fun hv => by simp [h.getLast _ (List.getLast?_eq_some_getLast hv)]
  have hraw : (globalDnsSections v).raw globalDnsDomainSection "servers" = some v := by
    rw [ConfigParser.Sections.raw, value_globalDnsSections, if_pos ⟨rfl, rfl⟩]
    simpa using hstored
  have hfind : ∀ name value, (globalDnsSections v).raw globalDnsDomainSection name = some value → value = v :=
    fun name value hvalue => (raw_globalDnsDomain v hvalue).trans hstored
  have hget : ∀ value, (globalDnsSections v).get? globalDnsDomainSection "servers" = .ok (some value) ↔
      ConfigParser.interpolate ((globalDnsSections v).raw globalDnsDomainSection)
        ConfigParser.maxInterpolationDepth v = .ok value := by
    intro value
    rw [ConfigParser.Sections.get?, hraw, bind_eq_ok]
    constructor
    · rintro ⟨_, hv, ⟨⟩⟩
      exact hv
    · exact fun hv => ⟨value, hv, rfl⟩
  rw [globalDnsServers_eq_ok hne, ← (hget v).trans (ConfigParser.interpolate_eq_self_iff hfind 9)]
  constructor
  · rintro ⟨-, value, hvalue, -, rfl⟩
    rw [List.intercalate_splitOn] at hjoin
    exact hjoin ▸ hvalue
  · exact fun hvalue => ⟨rfl, v, hvalue, h.ne_nil, hjoin ▸ List.splitOn_intercalate ',' hcomma hne⟩

/-- What is listed has no carriage return, and no comma. -/
theorem not_mem_of_globalDnsServers {globalDns : Text} {sections : ConfigParser.Sections} (hne : servers ≠ [])
    (hread : readGlobalDns (.text globalDns) = .ok sections)
    (hservers : globalDnsServers sections = .ok servers) :
    '\r' ∉ [','].intercalate servers ∧ ∀ t ∈ servers, ',' ∉ t := by
  obtain ⟨-, value, hvalue, -, rfl⟩ := (globalDnsServers_eq_ok hne).mp hservers
  have hlines : ∀ line ∈ fileLines globalDns, ∀ c ∈ line, c ≠ '\r' := fun line hline c hc hr =>
    not_mem_universalNewlines globalDns (hr ▸ mem_of_mem_keepLines hline hc)
  have hall := (ConfigParser.all_read hlines (mapError_eq_ok.mp hread)).get? (by decide) hvalue
  refine ⟨?_, fun t ht => not_mem_of_mem_splitOn ',' ht⟩
  rw [List.intercalate_splitOn]
  exact fun hr => hall _ hr rfl

end

/-- CORRECT: what the dialogue accepts is written and reported, server by server, exactly if Unbound is
    the resolver in use and neither the host name nor an address has a character that is lost. -/
theorem globalDns_roundTrip_iff (casefold : Text → Text) (lines left : List Line) (e : CustomIps)
    (h : askIps casefold lines = some (e, left)) (s : System) (resolvConf : FileRead) :
    askCustomIps casefold lines = some (e.servers, left) ∧
      ∃ s' content, exec (setGlobalNmServers noFault (some e.servers)) s = (.ok (), s') ∧
        s'.files .nmGlobalDns = some content ∧
        (printNmGlobaldnsStatus resolvConf (.text content) = .ok (globalDnsReport e.tokens) ↔
          DNSResolver.detect resolvConf = .ok .unbound ∧ e.Plain) := by
  have haccepted := accepted_of_askIps h
  have hv := haccepted.servers
  have hne : e.tokens ≠ [] := by
    rw [CustomIps.tokens, ne_eq, List.map_eq_nil_iff]
    exact haccepted.ne_nil
  have hask : askCustomIps casefold lines = some (e.servers, left) :=
    Option.bind_eq_some_iff.mpr ⟨(e, left), h, rfl⟩
  obtain ⟨s', hs', hc'⟩ := takes_setGlobalNmServers (some e.servers) s rfl
  have hfile : s'.files .nmGlobalDns = some (globalDnsText e.servers) := by
    have hfiles : s'.configuration.files .nmGlobalDns = some (globalDnsText e.servers) := by
      rw [hc', Configuration.files_put, Settings.given, Option.filter_some, if_pos (decide_eq_true hv.ne_nil)]
      rfl
    exact hfiles
  refine ⟨hask, s', _, hs', hfile, ?_⟩
  rw [printNmGlobaldnsStatus_iff hne, haccepted.plain_iff]
  refine and_congr_right fun _ => ⟨?_, fun hplain => ?_⟩
  · rintro ⟨sections, hread, -, -, hservers⟩
    obtain ⟨hreturn, hcomma⟩ := not_mem_of_globalDnsServers hne hread hservers
    have hsections := (readGlobalDns_globalDnsText hv hreturn).symm.trans hread
    cases hsections
    have hpercent := (globalDnsServers_iff hv rfl hcomma hne).mp hservers
    intro t ht
    have hsub : ∀ c ∈ t, c ∈ e.servers := fun c hc => mem_join_of_mem hc ht
    exact ⟨fun hc => hpercent (hsub _ hc), hcomma t ht, fun hc => hreturn (hsub _ hc)⟩
  · have hnot : '%' ∉ e.servers ∧ '\r' ∉ e.servers := by
      constructor
      · intro hc
        rcases mem_join hc with hc | ⟨t, ht, hc⟩
        · exact absurd hc (by decide)
        · exact (hplain t ht).1 hc
      · intro hc
        rcases mem_join hc with hc | ⟨t, ht, hc⟩
        · exact absurd hc (by decide)
        · exact (hplain t ht).2.2 hc
    refine ⟨_, readGlobalDns_globalDnsText hv hnot.2, rfl, resolveMode_globalDnsSections _, ?_⟩
    exact (globalDnsServers_iff hv rfl (fun t ht => (hplain t ht).2.1) hne).mpr hnot.1

/-- The case folding of ASCII. -/
def foldAscii (t : Text) : Text := t.map Char.toLower

def unboundResolvConf : FileRead := .text "nameserver 127.0.0.1\n"

/-- One address with a host name. -/
def quad9Lines : List Line :=
  [⟨"9.9.9.9", by decide⟩, ⟨"n", by decide⟩, ⟨"n", by decide⟩, ⟨"y", by decide⟩,
    ⟨"dns.quad9.net", by decide⟩]

def quad9 : CustomIps := ⟨"9.9.9.9", [], [], [], "dns.quad9.net"⟩

theorem globalDns_roundTrip_quad9 : askCustomIps foldAscii quad9Lines = some (quad9.servers, []) ∧
    ∃ s' content, exec (setGlobalNmServers noFault (some quad9.servers)) resolvedSystem = (.ok (), s') ∧
      s'.files .nmGlobalDns = some content ∧
      (printNmGlobaldnsStatus unboundResolvConf (.text content) = .ok (globalDnsReport quad9.tokens) ↔
        DNSResolver.detect unboundResolvConf = .ok .unbound ∧ quad9.Plain) :=
  globalDns_roundTrip_iff foldAscii quad9Lines [] quad9 rfl resolvedSystem unboundResolvConf

/-- One address of each family, the second with a scope. -/
def scopedLines : List Line :=
  [⟨"1.1.1.1", by decide⟩, ⟨"n", by decide⟩, ⟨"y", by decide⟩, ⟨"fe80::1%eth0", by decide⟩,
    ⟨"n", by decide⟩]

def scopedServers : Text := "dns+tls://1.1.1.1,dns+tls://[fe80::1%eth0]"

/-- A scoped address is accepted and written, and makes the report raise. -/
theorem scopedAddress_raises : askCustomIps foldAscii scopedLines = some (scopedServers, []) ∧
    DNSResolver.detect unboundResolvConf = .ok .unbound ∧
    ∃ s' content, exec (setGlobalNmServers noFault (some scopedServers)) resolvedSystem = (.ok (), s') ∧
      s'.files .nmGlobalDns = some content ∧
      printNmGlobaldnsStatus unboundResolvConf (.text content) =
        .error (.config .interpolationSyntax) := by
  refine ⟨rfl, rfl, _, _, rfl, rfl, ?_⟩
  rfl

end Dns.Selector
