import Secureblue.Dns.AskOption
import Secureblue.Py.JsonText

/-! What `ujust dns-selector` asks for (`dns_selector.py`): the menu with its dialogues, the command line,
    and the command that the privileged worker is started with.

    The arguments stand behind the `--` of the command, so the worker gets them as they are. What is printed
    beside the status is left out; `httpsUrl` is what `urlparse` says of an endpoint. -/

namespace Dns.Selector
open Py

/-! ### Providers -/

/-- A server of a provider, without its description. -/
structure Server where
  ipv4 : List Text
  ipv6 : List Text
  https : Option Text

/-- A provider, without name and description; it offers at least one server. -/
structure Provider where
  servers : List Server
  nonempty : servers ≠ []

def controlD : Provider where
  servers := [
    ⟨["dns+tls://76.76.2.11#p0.freedns.controld.com"], ["dns+tls://[2606:1a40::11]#p0.freedns.controld.com"],
      some "https://freedns.controld.com/p0"⟩,
    ⟨["dns+tls://76.76.2.11#p1.freedns.controld.com"], ["dns+tls://[2606:1a40::11]#p1.freedns.controld.com"],
      some "https://freedns.controld.com/p1"⟩,
    ⟨["dns+tls://76.76.2.11#p2.freedns.controld.com"], ["dns+tls://[2606:1a40::11]#p2.freedns.controld.com"],
      some "https://freedns.controld.com/p2"⟩,
    ⟨["dns+tls://76.76.2.11#p3.freedns.controld.com"], ["dns+tls://[2606:1a40::11]#p3.freedns.controld.com"],
      some "https://freedns.controld.com/p3"⟩,
    ⟨["dns+tls://76.76.2.11#family.freedns.controld.com"], ["dns+tls://[2606:1a40::11]#family.freedns.controld.com"],
      some "https://freedns.controld.com/family"⟩]
  nonempty := List.cons_ne_nil _ _

def cloudflare : Provider where
  servers := [
    ⟨["dns+tls://1.1.1.1#cloudflare-dns.com", "dns+tls://1.0.0.1#cloudflare-dns.com"],
      ["dns+tls://[2606:4700:4700::1111]#cloudflare-dns.com", "dns+tls://[2606:4700:4700::1001]#cloudflare-dns.com"],
      some "https://cloudflare-dns.com/dns-query"⟩,
    ⟨["dns+tls://1.1.1.2#security.cloudflare-dns.com", "dns+tls://1.0.0.2#security.cloudflare-dns.com"],
      ["dns+tls://[2606:4700:4700::1112]#security.cloudflare-dns.com",
        "dns+tls://[2606:4700:4700::1002]#security.cloudflare-dns.com"],
      some "https://security.cloudflare-dns.com/dns-query"⟩,
    ⟨["dns+tls://1.1.1.3#family.cloudflare-dns.com", "dns+tls://1.0.0.3#family.cloudflare-dns.com"],
      ["dns+tls://[2606:4700:4700::1113]#family.cloudflare-dns.com",
        "dns+tls://[2606:4700:4700::1003]#family.cloudflare-dns.com"],
      some "https://family.cloudflare-dns.com/dns-query"⟩]
  nonempty := List.cons_ne_nil _ _

def quad9Provider : Provider where
  servers := [
    ⟨["dns+tls://9.9.9.9#dns.quad9.net", "dns+tls://149.112.112.112#dns.quad9.net"],
      ["dns+tls://[2620:fe::fe]#dns.quad9.net", "dns+tls://[2620:fe::9]#dns.quad9.net"], none⟩,
    ⟨["dns+tls://9.9.9.11#dns11.quad9.net", "dns+tls://149.112.112.11#dns11.quad9.net"],
      ["dns+tls://[2620:fe::11]#dns11.quad9.net", "dns+tls://[2620:fe::fe:11]#dns11.quad9.net"], none⟩,
    ⟨["dns+tls://9.9.9.10#dns10.quad9.net", "dns+tls://149.112.112.10#dns10.quad9.net"],
      ["dns+tls://[2620:fe::10]#dns10.quad9.net", "dns+tls://[2620:fe::fe:10]#dns10.quad9.net"], none⟩]
  nonempty := List.cons_ne_nil _ _

/-- `secure-dns-providers.json` -/
def providers : List Provider := [controlD, cloudflare, quad9Provider]

/-- The servers with an endpoint, of the providers that have one. -/
def withHttps (providers : List Provider) : List Provider :=
  providers.filterMap fun p =>
    if h : p.servers.filter (fun s => (s.https.getD []) ≠ []) ≠ [] then some ⟨_, h⟩ else none

/-! ### Dialogues -/

/-- A dialogue that may end in an exception. -/
abbrev Menu := ExceptT Raised Dialogue

/-- A DNS server to be set as a global upstream by NetworkManager. -/
structure DNSServers where
  serversCsv : Option Text
  httpsEndpoint : Option Text

section
variable (u : Unicode) (casefold : Text → Text) (httpsUrl : Text → Option Bool)

/-- `ask_option` -/
def chooseOption (optionsCount : ℕ) : Menu ℤ := ExceptT.mk (askOption u optionsCount)

/-- Returns the user's preference for Trivalent DoH enforcement. -/
def askShouldUseDoh : Menu Bool := do
  let option ← chooseOption u 2
  return decide (option = 1)

/-- Returns the user's preference for local DNSSEC validation. -/
def askShouldValidateDnssec : Menu Bool := do
  let option ← chooseOption u 2
  return decide (option = 1)

/-- Returns a valid HTTPS URL. -/
def askValidHttps : Menu (Option Text)
  | [] => none
  | line :: lines =>
    let rawUrl := strip line.1
    if rawUrl = [] then some (.ok none, lines)
    else match httpsUrl rawUrl with
      | none => some (.error .valueError, lines)
      | some true => some (.ok (some rawUrl), lines)
      | some false => askValidHttps lines

/-- A question that is left out, with a given answer, unless it is wanted. -/
def askWhen {α : Type} (wanted : Bool) (ask : Menu α) (answer : α) : Menu α := if wanted then ask else pure answer

/-- Ask for valid global DNS servers, a primary one and if there is one a secondary one. -/
def askCustomServers (httpsOnly : Bool) : Menu DNSServers := do
  let serversCsv ← askWhen (!httpsOnly) (some <$> ExceptT.lift (askCustomIps casefold)) none
  let hasHttpsEndpoint ← askWhen (!httpsOnly) (ExceptT.lift (askYesNo casefold)) true
  let httpsEndpoint ← askWhen hasHttpsEndpoint (askValidHttps httpsUrl) none
  return ⟨serversCsv, httpsEndpoint⟩

/-- Ask user to choose a DNS server, either from the file or custom. -/
def askServers (httpsOnly : Bool) : Menu DNSServers := do
  let offered := if httpsOnly then withHttps providers else providers
  let providerSelection ← chooseOption u (offered.length + 1)
  match offered[(providerSelection - 1).toNat]? with
  -- the option behind the last provider
  | none => askCustomServers casefold httpsUrl httpsOnly
  | some provider =>
    let serverSelection ←
      askWhen (decide (1 < provider.servers.length)) (chooseOption u provider.servers.length) 1
    let server := (provider.servers[(serverSelection - 1).toNat]?).getD (provider.servers.head provider.nonempty)
    return ⟨some ([','].intercalate (server.ipv4 ++ server.ipv6)), server.https⟩

/-- `run_interactive` behind the status, up to the worker -/
def runInteractive (resolver : DNSResolver) : Menu (Option Command) := do
  let mode ← chooseOption u (if resolver ≠ .unbound then 2 else 5)
  if mode = 1 then return some (.stack .reset)
  else if mode = 2 then do
    let useDoh ← askShouldUseDoh u
    let server ← askWhen useDoh (DNSServers.httpsEndpoint <$> askServers u casefold httpsUrl true) (some [])
    return some (.setTrivalentDoh (server.getD []))
  else if mode = 3 then return some (.stack (.setDnssec (← askShouldValidateDnssec u)))
  else if mode = 4 then do
    let servers ← askServers u casefold httpsUrl false
    let shouldValidateDnssec ← askShouldValidateDnssec u
    let useDoh ← askWhen servers.httpsEndpoint.isSome (askShouldUseDoh u) false
    let httpsEndpoint := if useDoh then servers.httpsEndpoint.getD [] else []
    return some (.stack (.setGlobal (servers.serversCsv.getD []) shouldValidateDnssec (some httpsEndpoint)))
  else if mode = 5 then return some (.stack (.setResolver .resolved))
  else return none

/-- What `parse_args` accepts. -/
inductive Arguments where
  | interactive
  | status
  | reset
  | dnssec (enableDnssec : Bool)
  | resolver (backend : Dns.DNSResolver)

/-- A call, with the lines that are entered. -/
structure Call where
  arguments : Arguments
  lines : List Line

/-- What a call comes to when the resolver in use is detected as `resolver`: a command for the worker, none,
    or its end before the final status. -/
def Call.request (call : Call) (resolver : DNSResolver) : Except (Option Raised) (Option Command) :=
  match call.arguments with
  | .status => .ok none
  | .reset => .ok (some (.stack .reset))
  | .dnssec enableDnssec =>
    if resolver ≠ .unbound then .error none else .ok (some (.stack (.setDnssec enableDnssec)))
  | .resolver backend => .ok (some (.stack (.setResolver backend)))
  | .interactive => match runInteractive u casefold httpsUrl resolver call.lines with
    | none => .error none
    | some (.error raised, _) => .error (some raised)
    | some (.ok command, _) => .ok command

end

/-! ### What the commands carry -/

/-- No character of the text is a line end for the audit or means something in the file of the servers. -/
def CleanText (t : Text) : Prop := ∀ c ∈ t, isLineBreak c = false ∧ c ≠ '%' ∧ c ≠ ','

/-- A server with the protocol. -/
structure IsServer (t : Text) : Prop where
  protocol : startsWith t protocol
  clean : CleanText t
  getLast : ∀ c ∈ t.getLast?, isSpace c = false

theorem isServer_iff {t : Text} :
    IsServer t ↔ startsWith t protocol ∧ CleanText t ∧ ∀ c ∈ t.getLast?, isSpace c = false :=
  ⟨fun h => ⟨h.protocol, h.clean, h.getLast⟩, fun h => ⟨h.1, h.2.1, h.2.2⟩⟩

instance : DecidablePred CleanText := fun t => inferInstanceAs (Decidable (∀ c ∈ t, _))

instance : DecidablePred IsServer := fun _ => decidable_of_iff _ isServer_iff.symm

/-- A list of servers as the worker gets it. -/
def IsServerList (servers : Text) : Prop :=
  ∃ tokens, tokens ≠ [] ∧ (∀ t ∈ tokens, IsServer t) ∧ servers = [','].intercalate tokens

/-- The texts of the command come through to the status and the audit. -/
def Clean : Command → Prop
  | .setTrivalentDoh dohUrl => ∀ c ∈ dohUrl, isLineBreak c = false
  | .stack (.setGlobal servers _ dohUrl) =>
    (servers = [] ∨ IsServerList servers) ∧ ∀ url ∈ dohUrl, ∀ c ∈ url, isLineBreak c = false
  | .stack _ => True

/-- The servers of the file are all such. -/
theorem providers_clean : ∀ p ∈ providers, ∀ s ∈ p.servers,
    s.ipv4 ≠ [] ∧ (∀ t ∈ s.ipv4 ++ s.ipv6, IsServer t) ∧ ∀ url ∈ s.https, CleanText url := by
  decide +kernel

/-- From clean lines, the dialogue gets an answer with the property, and leaves clean lines. -/
def Gives {α : Type} (m : Dialogue α) (P : α → Prop) : Prop :=
  ∀ lines a left, (∀ line ∈ lines, CleanText line.1) → m lines = some (a, left) →
    P a ∧ ∀ line ∈ left, CleanText line.1

/-- The same of a dialogue that may end in an exception. -/
def GivesOk {α : Type} (m : Menu α) (P : α → Prop) : Prop := Gives m fun r => ∀ a, r = .ok a → P a

section
variable {α β : Type} {P : α → Prop} {Q : β → Prop}

theorem Gives.pure {a : α} (h : P a) : Gives (Pure.pure a) P := by
  intro lines a' left hlines hm
  cases hm
  exact ⟨h, hlines⟩

theorem Gives.bind {m : Dialogue α} {f : α → Dialogue β} (hm : Gives m P) (hf : ∀ a, P a → Gives (f a) Q) :
    Gives (m >>= f) Q := by
  intro lines b left hlines h
  obtain ⟨a, left', ha, hb⟩ := dialogue_bind h
  obtain ⟨hP, hleft⟩ := hm lines a left' hlines ha
  exact hf a hP left' b left hleft hb

theorem GivesOk.pure {a : α} (h : P a) : GivesOk (Pure.pure a) P :=
  Gives.pure (P := fun r : Except Raised α => ∀ a, r = .ok a → P a) fun _ ha => Except.ok.inj ha ▸ h

theorem GivesOk.bind {m : Menu α} {f : α → Menu β} (hm : GivesOk m P) (hf : ∀ a, P a → GivesOk (f a) Q) :
    GivesOk (m >>= f) Q := by
  refine Gives.bind hm fun r hr => ?_
  cases r with
  | error e => exact Gives.pure nofun
  | ok a => exact hf a (hr a rfl)

theorem GivesOk.lift {m : Dialogue α} (h : Gives m P) : GivesOk (ExceptT.lift m) P := by
  refine Gives.bind h fun a ha => Gives.pure ?_
  rintro _ ⟨⟩
  exact ha

theorem GivesOk.map {m : Menu α} {f : α → β} (hm : GivesOk m P) (hf : ∀ a, P a → Q (f a)) : GivesOk (f <$> m) Q := by
  rw [map_eq_pure_bind]
  exact hm.bind fun a ha => GivesOk.pure (hf a ha)

theorem GivesOk.askWhen {m : Menu α} {a : α} (hm : GivesOk m P) (ha : P a) (wanted : Bool) :
    GivesOk (askWhen wanted m a) P := by
  cases wanted with
  | false => exact GivesOk.pure ha
  | true => exact hm

theorem Gives.mono {P Q : α → Prop} {m : Dialogue α} (hm : Gives m P) (h : ∀ a, P a → Q a) : Gives m Q :=
  fun lines a left hlines ha => (hm lines a left hlines ha).imp_left (h a)

/-- An answer with whatever property leaves clean lines. -/
theorem Gives.and {P Q : α → Prop} {m : Dialogue α} (hm : Gives m P)
    (h : ∀ lines a left, m lines = some (a, left) → Q a) : Gives m fun a => P a ∧ Q a :=
  fun lines a left hlines ha => (hm lines a left hlines ha).imp_left (⟨·, h lines a left ha⟩)

end

theorem CleanText.strip {t : Text} (h : CleanText t) : CleanText (strip t) := fun c hc => h c (mem_of_mem_strip hc)

theorem CleanText.append {a b : Text} (ha : CleanText a) (hb : CleanText b) : CleanText (a ++ b) :=
  fun c hc => (List.mem_append.mp hc).elim (ha c) (hb c)

theorem cleanText_nil : CleanText [] := nofun

theorem cleanText_getD {t : Option Text} (h : ∀ s ∈ t, CleanText s) : CleanText (t.getD []) := by
  cases t with
  | none => exact cleanText_nil
  | some s => exact h s rfl

section
variable {u : Unicode} {casefold : Text → Text} {httpsUrl : Text → Option Bool}

theorem gives_interruptibleAsk : Gives interruptibleAsk CleanText := by
  intro lines a left hlines h
  cases lines with
  | nil => cases h
  | cons line lines =>
    cases h
    exact ⟨(hlines line List.mem_cons_self).strip, fun l hl => hlines l (List.mem_cons_of_mem line hl)⟩

theorem gives_askYesNo : Gives (askYesNo casefold) fun _ => True := by
  intro lines a left hlines h
  induction lines with
  | nil => cases h
  | cons line lines ih =>
    have hrest : ∀ l ∈ lines, CleanText l.1 := fun l hl => hlines l (List.mem_cons_of_mem line hl)
    rw [askYesNo] at h
    split at h
    · cases h; exact ⟨trivial, hrest⟩
    split at h
    · cases h; exact ⟨trivial, hrest⟩
    · exact ih hrest h

theorem gives_askValidIpv4 : Gives askValidIpv4 CleanText := by
  intro lines a left hlines h
  induction lines with
  | nil => cases h
  | cons line lines ih =>
    have hrest : ∀ l ∈ lines, CleanText l.1 := fun l hl => hlines l (List.mem_cons_of_mem line hl)
    rw [askValidIpv4] at h
    split at h
    · cases h; exact ⟨(hlines line List.mem_cons_self).strip, hrest⟩
    · exact ih hrest h

theorem gives_askValidIpv6 : Gives askValidIpv6 CleanText := by
  intro lines a left hlines h
  induction lines with
  | nil => cases h
  | cons line lines ih =>
    have hrest : ∀ l ∈ lines, CleanText l.1 := fun l hl => hlines l (List.mem_cons_of_mem line hl)
    rw [askValidIpv6] at h
    split at h
    · cases h
      have hinner : CleanText (stripChars [' ', '[', ']'] (strip line.1)) :=
        fun c hc => (hlines line List.mem_cons_self).strip c (mem_of_mem_stripChars hc)
      have hbracket : CleanText ['['] ∧ CleanText [']'] := by decide
      exact ⟨hbracket.1.append (hinner.append hbracket.2), hrest⟩
    · exact ih hrest h

theorem Gives.askIf {ask : Dialogue Text} (h : Gives ask CleanText) (wanted : Bool) :
    Gives (askIf wanted ask) CleanText := by
  cases wanted with
  | false => exact Gives.pure cleanText_nil
  | true => exact h

/-- The parts of what is entered for custom servers. -/
theorem gives_askIps : Gives (askIps casefold) fun e => (∀ ip ∈ e.ips, CleanText ip) ∧ CleanText e.hostname := by
  refine gives_askValidIpv4.bind fun ipv4Primary h₁ => gives_askYesNo.bind fun hasSecondary _ =>
    (gives_askValidIpv4.askIf hasSecondary).bind fun ipv4Secondary h₂ => gives_askYesNo.bind fun hasIpv6 _ =>
    (gives_askValidIpv6.askIf hasIpv6).bind fun ipv6Primary h₃ =>
    (gives_askValidIpv6.askIf (hasIpv6 && hasSecondary)).bind fun ipv6Secondary h₄ =>
    gives_askYesNo.bind fun hasDot _ => (gives_interruptibleAsk.askIf hasDot).bind fun hostname h₅ =>
    Gives.pure ⟨fun ip hip => ?_, h₅⟩
  have hmem := (List.mem_filter.mp hip).1
  simp only [List.mem_cons, List.not_mem_nil, or_false] at hmem
  rcases hmem with rfl | rfl | rfl | rfl
  · exact h₁
  · exact h₂
  · exact h₃
  · exact h₄

theorem gives_askCustomIps : Gives (askCustomIps casefold) IsServerList := by
  refine (gives_askIps.and (Q := CustomIps.Accepted) fun lines e left h => accepted_of_askIps h).bind fun e he =>
    Gives.pure ⟨e.tokens, ?_, ?_, rfl⟩
  · rw [CustomIps.tokens, ne_eq, List.map_eq_nil_iff]
    exact he.2.ne_nil
  · intro t ht
    have hlast := (he.2.token t ht).2
    obtain ⟨ip, hip, rfl⟩ := List.mem_map.mp ht
    have hprotocol : CleanText protocol := by decide
    refine ⟨startsWith_iff.mpr ?_, ?_, hlast⟩
    · rw [token, List.append_assoc]
      exact List.prefix_append _ _
    · refine (hprotocol.append (he.1.1 ip hip)).append ?_
      split
      · exact cleanText_nil
      · intro c hc
        rcases List.mem_cons.mp hc with rfl | hc
        · decide
        · exact he.1.2 c hc

theorem givesOk_chooseOption (n : ℕ) : GivesOk (chooseOption u n) fun _ => True := by
  intro lines a left hlines h
  refine ⟨fun _ _ => trivial, ?_⟩
  have hleft : ∀ (lines : List Line) {r : Except Raised ℤ}, askOption u n lines = some (r, left) → left ⊆ lines := by
    intro lines r h
    induction lines with
    | nil => cases h
    | cons line lines ih =>
      rw [askOption] at h
      split at h
      · split at h
        · cases h; exact List.subset_cons_self _ _
        split at h
        · cases h; exact List.subset_cons_self _ _
        · exact List.Subset.trans (ih h) (List.subset_cons_self _ _)
      · exact List.Subset.trans (ih h) (List.subset_cons_self _ _)
  exact fun line hline => hlines line (hleft lines h hline)

theorem givesOk_askValidHttps : GivesOk (askValidHttps httpsUrl) fun url => ∀ t ∈ url, CleanText t := by
  intro lines r left hlines h
  induction lines with
  | nil => cases h
  | cons line lines ih =>
    have hrest : ∀ l ∈ lines, CleanText l.1 := fun l hl => hlines l (List.mem_cons_of_mem line hl)
    rw [askValidHttps] at h
    split at h
    · cases h
      exact ⟨fun a ha => Except.ok.inj ha ▸ nofun, hrest⟩
    split at h
    · cases h; exact ⟨nofun, hrest⟩
    · cases h
      refine ⟨fun a ha => ?_, hrest⟩
      rw [← Except.ok.inj ha]
      rintro _ ⟨⟩
      exact (hlines line List.mem_cons_self).strip
    · exact ih hrest h

/-- The texts of the answer are clean; there are servers unless only an endpoint was asked for. -/
def DNSServers.IsClean (s : DNSServers) : Prop :=
  (∀ servers ∈ s.serversCsv, IsServerList servers) ∧ ∀ url ∈ s.httpsEndpoint, CleanText url

theorem givesOk_askCustomServers (httpsOnly : Bool) :
    GivesOk (askCustomServers casefold httpsUrl httpsOnly) DNSServers.IsClean := by
  have hservers : GivesOk (some <$> ExceptT.lift (askCustomIps casefold))
      fun s : Option Text => ∀ servers ∈ s, IsServerList servers := by
    refine (GivesOk.lift gives_askCustomIps).map fun servers h => ?_
    rintro _ ⟨⟩
    exact h
  unfold askCustomServers
  exact (hservers.askWhen (a := none) nofun _).bind fun servers hs =>
    ((GivesOk.lift gives_askYesNo).askWhen trivial _).bind fun wanted _ =>
    (givesOk_askValidHttps.askWhen (a := none) nofun wanted).bind fun url hu => GivesOk.pure ⟨hs, hu⟩

theorem mem_withHttps {p : Provider} {l : List Provider} (h : p ∈ withHttps l) :
    ∃ q ∈ l, ∀ s ∈ p.servers, s ∈ q.servers := by
  obtain ⟨q, hq, hp⟩ := List.mem_filterMap.mp h
  refine ⟨q, hq, fun s hs => ?_⟩
  split at hp
  · cases hp
    exact (List.mem_filter.mp hs).1
  · cases hp

theorem givesOk_askServers (httpsOnly : Bool) :
    GivesOk (askServers u casefold httpsUrl httpsOnly) DNSServers.IsClean := by
  have hoffered : ∀ p ∈ (if httpsOnly then withHttps providers else providers), ∀ s ∈ p.servers,
      s.ipv4 ≠ [] ∧ (∀ t ∈ s.ipv4 ++ s.ipv6, IsServer t) ∧ ∀ url ∈ s.https, CleanText url := by
    intro p hp
    split at hp
    · obtain ⟨q, hq, hsub⟩ := mem_withHttps hp
      exact fun s hs => providers_clean q hq s (hsub s hs)
    · exact providers_clean p hp
  unfold askServers
  refine (givesOk_chooseOption _).bind fun selection _ => ?_
  split
  · exact givesOk_askCustomServers httpsOnly
  · next p hp =>
    have hp := hoffered p (List.mem_of_getElem? hp)
    refine ((givesOk_chooseOption p.servers.length).askWhen trivial _).bind fun selection _ => GivesOk.pure ?_
    have hmem : (p.servers[(selection - 1).toNat]?).getD (p.servers.head p.nonempty) ∈ p.servers := by
      cases hget : p.servers[(selection - 1).toNat]? with
      | none => exact List.head_mem _
      | some s => exact List.mem_of_getElem? hget
    obtain ⟨hne, hservers, hurl⟩ := hp _ hmem
    refine ⟨?_, hurl⟩
    rintro _ ⟨⟩
    exact ⟨_, List.append_ne_nil_of_left_ne_nil hne _, hservers, rfl⟩

theorem givesOk_runInteractive (resolver : DNSResolver) :
    GivesOk (runInteractive u casefold httpsUrl resolver) fun command => ∀ c ∈ command, Clean c := by
  have hsome : ∀ {c : Command}, Clean c → GivesOk (Pure.pure (some c)) fun command => ∀ c ∈ command, Clean c := by
    intro c hc
    refine GivesOk.pure ?_
    rintro _ ⟨⟩
    exact hc
  have hasked : GivesOk (askShouldUseDoh u) fun _ => True :=
    (givesOk_chooseOption 2).bind fun _ _ => GivesOk.pure trivial
  unfold runInteractive
  refine (givesOk_chooseOption _).bind fun mode _ => ?_
  split
  · exact hsome trivial
  split
  · refine hasked.bind fun useDoh _ => ?_
    have hserver : GivesOk (DNSServers.httpsEndpoint <$> askServers u casefold httpsUrl true)
        fun url => ∀ t ∈ url, CleanText t := (givesOk_askServers true).map fun s hs => hs.2
    refine (hserver.askWhen (by rintro _ ⟨⟩; exact cleanText_nil) useDoh).bind fun url hurl =>
      hsome (c := .setTrivalentDoh (url.getD [])) ?_
    exact fun c hc => (cleanText_getD hurl c hc).1
  split
  · exact hasked.bind fun _ _ => hsome trivial
  split
  · refine (givesOk_askServers false).bind fun servers hs => hasked.bind fun validate _ =>
      (hasked.askWhen trivial servers.httpsEndpoint.isSome).bind fun useDoh _ =>
      hsome (c := .stack (.setGlobal (servers.serversCsv.getD []) validate
        (some (if useDoh then servers.httpsEndpoint.getD [] else [])))) ⟨?_, ?_⟩
    · cases hget : servers.serversCsv with
      | none => exact .inl rfl
      | some t => exact .inr (hs.1 t hget)
    · rintro _ ⟨⟩
      split
      · exact fun c hc => (cleanText_getD hs.2 c hc).1
      · nofun
  split
  · exact hsome trivial
  · exact GivesOk.pure nofun

/-- A call in which every line that is entered is clean asks for a clean command. -/
theorem clean_request {call : Call} {resolver : DNSResolver} (hlines : ∀ line ∈ call.lines, CleanText line.1)
    {command : Command} (h : call.request u casefold httpsUrl resolver = .ok (some command)) : Clean command := by
  unfold Call.request at h
  split at h
  · cases h
  · cases h; trivial
  · split at h
    · cases h
    · cases h; trivial
  · cases h; trivial
  · split at h
    · cases h
    · cases h
    · next asked left hrun =>
      cases h
      exact (givesOk_runInteractive resolver call.lines _ left hlines hrun).1 _ rfl _ rfl

end

end Dns.Selector
