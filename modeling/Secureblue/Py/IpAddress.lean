import Mathlib.Algebra.Group.Nat.Defs
import Secureblue.Py.Text

/-! The texts that `ipaddress.IPv4Address` and `ipaddress.IPv6Address` accept. -/

namespace Py.IpAddress

def digitValue (c : Char) : ℕ :=
  if c.isDigit then c.toNat - 48 else if 'a' ≤ c then c.toNat - 87 else c.toNat - 55

/-- `int(digits, base)` -/
def number (base : ℕ) (digits : Text) : ℕ := digits.foldl (fun n c => base * n + digitValue c) 0

def parseOctet (octet : Text) : Option ℕ :=
  if octet = [] ∨ ¬ octet.all Char.isDigit then none
  else if 3 < octet.length then none
  else if octet ≠ ['0'] ∧ octet.head? = some '0' then none
  else if 255 < number 10 octet then none
  else some (number 10 octet)

/-- `IPv4Address(address)`, as an integer -/
def ipv4Address (address : Text) : Option ℕ :=
  if address = [] ∨ '/' ∈ address then none
  else
    let octets := address.splitOn '.'
    if octets.length ≠ 4 then none
    else (octets.mapM parseOctet).map fun l => l.foldl (fun n octet => 256 * n + octet) 0

def isHexDigit (c : Char) : Bool := c.isDigit || decide ('a' ≤ c ∧ c ≤ 'f') || decide ('A' ≤ c ∧ c ≤ 'F')

def parseHextet (hextet : Text) : Option ℕ :=
  if hextet = [] ∨ ¬ hextet.all isHexDigit ∨ 4 < hextet.length then none
  else some (number 16 hextet)

/-- The hextets behind those that `n` holds. -/
def addHextets (n : ℕ) (parts : List Text) : Option ℕ :=
  (parts.mapM parseHextet).map fun l => l.foldl (fun n hextet => 65536 * n + hextet) n

/-- The parts with the two hextets of an address that ends like an IPv4 address. -/
def embedIPv4 (parts : List Text) : Option (List Text) :=
  match parts.getLast? with
  | none => some parts
  | some last =>
    if '.' ∈ last then (ipv4Address last).map fun n =>
      parts.dropLast ++ [Nat.toDigits 16 (n / 65536 % 65536), Nat.toDigits 16 (n % 65536)]
    else some parts

/-- Where parts are left out: the empty parts that are neither first nor last. -/
def skips (parts : List Text) : List ℕ :=
  (List.range parts.length).filter fun i =>
    decide (1 ≤ i ∧ i + 1 < parts.length) && decide (parts[i]? = some [])

/-- The number of parts that are read before the one left out. -/
def partsHi (parts : List Text) (skip : ℕ) : ℕ := if parts.head? = some [] then skip - 1 else skip

/-- The number of parts that are read behind the one left out. -/
def partsLo (parts : List Text) (skip : ℕ) : ℕ :=
  if parts.getLast? = some [] then parts.length - skip - 2 else parts.length - skip - 1

/-- The integer that the parts between colons stand for. -/
def ofParts (parts : List Text) : Option ℕ :=
  match skips parts with
  | [] =>
    if parts.length ≠ 8 ∨ parts.head? = some [] ∨ parts.getLast? = some [] then none
    else addHextets 0 parts
  | [skip] =>
    let hi := partsHi parts skip
    let lo := partsLo parts skip
    if parts.head? = some [] ∧ hi ≠ 0 then none
    else if parts.getLast? = some [] ∧ lo ≠ 0 then none
    else if 8 < hi + lo + 1 then none
    else do
      let high ← addHextets 0 (parts.take hi)
      addHextets (high * 65536 ^ (8 - (hi + lo))) (parts.drop (parts.length - lo))
  | _ => none

/-- `IPv6Address._ip_int_from_string(s)` -/
def ipv6FromString (s : Text) : Option ℕ :=
  let parts := splitMax ':' 9 s
  if s = [] ∨ parts.length < 3 then none
  else match embedIPv4 parts with
    | none => none
    | some parts => if 9 < parts.length then none else ofParts parts

/-- `IPv6Address(address)`, as an integer; what follows a percent sign is the scope. -/
def ipv6Address (address : Text) : Option ℕ :=
  if '/' ∈ address then none
  else match partition '%' address with
    | (s, [], _) => ipv6FromString s
    | (s, _, scope) => if scope = [] ∨ '%' ∈ scope then none else ipv6FromString s

/-! ### The characters of addresses -/

theorem forall_of_mapM {α β : Type} {f : α → Option β} : ∀ {l : List α} {r : List β},
    l.mapM f = some r → ∀ a ∈ l, (f a).isSome
  | [], _, _, _, ha => absurd ha List.not_mem_nil
  | b :: l, r, h, a, ha => by
      rw [List.mapM_cons] at h
      obtain ⟨c, hc, h⟩ := Option.bind_eq_some_iff.mp h
      obtain ⟨r', hr', -⟩ := Option.bind_eq_some_iff.mp h
      rcases List.mem_cons.mp ha with rfl | ha
      · exact hc ▸ rfl
      · exact forall_of_mapM hr' a ha

theorem isDigit_of_parseOctet {octet : Text} (h : (parseOctet octet).isSome) :
    ∀ c ∈ octet, c.isDigit := by
  rw [parseOctet] at h
  split at h
  · cases h
  · next hdigits =>
    push Not at hdigits
    exact List.all_eq_true.mp hdigits.2

theorem char_of_ipv4Address {address : Text} (h : (ipv4Address address).isSome) :
    address ≠ [] ∧ ∀ c ∈ address, c.isDigit ∨ c = '.' := by
  rw [ipv4Address] at h
  split at h
  · cases h
  · next hne =>
    dsimp only at h
    split at h
    · cases h
    · rw [Option.isSome_map, Option.isSome_iff_exists] at h
      obtain ⟨l, hl⟩ := h
      push Not at hne
      refine ⟨hne.1, fun c hc => ?_⟩
      rcases mem_splitOn (a := '.') hc with hc | ⟨octet, hoctet, hc⟩
      · exact Or.inr hc
      · exact Or.inl (isDigit_of_parseOctet (forall_of_mapM hl octet hoctet) c hc)

theorem isHexDigit_of_addHextets {n : ℕ} {parts : List Text} (h : (addHextets n parts).isSome) :
    ∀ p ∈ parts, ∀ c ∈ p, isHexDigit c := by
  rw [addHextets, Option.isSome_map, Option.isSome_iff_exists] at h
  obtain ⟨l, hl⟩ := h
  intro p hp
  have hsome := forall_of_mapM hl p hp
  rw [parseHextet] at hsome
  split at hsome
  · cases hsome
  · next hdigits =>
    push Not at hdigits
    exact List.all_eq_true.mp hdigits.2.1

theorem getElem?_of_skips {parts : List Text} {skip : ℕ} (h : skips parts = [skip]) :
    1 ≤ skip ∧ skip + 1 < parts.length ∧ parts[skip]? = some [] := by
  have hmem : skip ∈ skips parts := h ▸ List.mem_singleton_self skip
  simpa [skips, and_assoc] using (List.mem_filter.mp hmem).2

/-- Every part that is not empty is one of those that are read. -/
theorem isHexDigit_of_ofParts {parts : List Text} (h : (ofParts parts).isSome) :
    ∀ p ∈ parts, ∀ c ∈ p, isHexDigit c := by
  intro p hp c hc
  have hne : p ≠ [] := List.ne_nil_of_mem hc
  obtain ⟨i, hi, rfl⟩ := List.mem_iff_getElem.mp hp
  have hfirst : parts.head? = some [] → i ≠ 0 := by
    rintro hhead rfl
    rw [List.head?_eq_getElem?, List.getElem?_eq_getElem hi] at hhead
    exact hne (Option.some.inj hhead)
  have hlast : parts.getLast? = some [] → i ≠ parts.length - 1 := by
    rintro hgetLast rfl
    rw [List.getLast?_eq_getElem?, List.getElem?_eq_getElem hi] at hgetLast
    exact hne (Option.some.inj hgetLast)
  rw [ofParts] at h
  dsimp only at h
  split at h
  · split at h
    · cases h
    · exact isHexDigit_of_addHextets h _ hp c hc
  · next skip hskips =>
    obtain ⟨hpos, hlt, hskip⟩ := getElem?_of_skips hskips
    have hne' : i ≠ skip := by
      rintro rfl
      rw [List.getElem?_eq_getElem hi] at hskip
      exact hne (Option.some.inj hskip)
    split at h
    · cases h
    split at h
    · cases h
    split at h
    · cases h
    next hnoFirst hnoLast _ =>
    -- the part is before the one left out, or behind it
    have hread : i < partsHi parts skip ∨ parts.length - partsLo parts skip ≤ i := by
      rw [partsHi, partsLo] at *
      grind
    obtain ⟨n, hn⟩ := Option.isSome_iff_exists.mp h
    obtain ⟨high, hhigh, hlow⟩ := Option.bind_eq_some_iff.mp hn
    rcases hread with hread | hread
    · have hmem : parts[i] ∈ parts.take (partsHi parts skip) :=
        List.mem_take_iff_getElem.mpr ⟨i, by omega, rfl⟩
      exact isHexDigit_of_addHextets (Option.isSome_of_eq_some hhigh) _ hmem c hc
    · have hmem : parts[i] ∈ parts.drop (parts.length - partsLo parts skip) :=
        List.mem_drop_iff_getElem.mpr ⟨i - (parts.length - partsLo parts skip), by omega, by grind⟩
      exact isHexDigit_of_addHextets (Option.isSome_of_eq_some hlow) _ hmem c hc
  · cases h

theorem char_of_embedIPv4 {parts parts' : List Text} (h : embedIPv4 parts = some parts') :
    ∀ p ∈ parts, p ∈ parts' ∨ ∀ c ∈ p, c.isDigit ∨ c = '.' := by
  intro p hp
  rw [embedIPv4] at h
  split at h
  · cases h
    exact Or.inl hp
  · next last hlast =>
    split at h
    · obtain ⟨n, hn, rfl⟩ := Option.map_eq_some_iff.mp h
      rw [← List.dropLast_append_getLast? last hlast, List.mem_append, List.mem_singleton] at hp
      rcases hp with hp | rfl
      · exact Or.inl (List.mem_append_left _ hp)
      · exact Or.inr (char_of_ipv4Address (hn ▸ rfl)).2
    · cases h
      exact Or.inl hp

theorem char_of_ipv6FromString {s : Text} (h : (ipv6FromString s).isSome) :
    s ≠ [] ∧ ∀ c ∈ s, isHexDigit c ∨ c = ':' ∨ c = '.' := by
  rw [ipv6FromString] at h
  split at h
  · cases h
  · next hne =>
    push Not at hne
    split at h
    · cases h
    · next parts hparts =>
      split at h
      · cases h
      · refine ⟨hne.1, fun c hc => ?_⟩
        rcases mem_splitMax ':' 9 hc with hc | ⟨p, hp, hc⟩
        · exact Or.inr (Or.inl hc)
        · rcases char_of_embedIPv4 hparts p hp with hp | hp
          · exact Or.inl (isHexDigit_of_ofParts h p hp c hc)
          · rcases hp c hc with hdigit | hdot
            · exact Or.inl (by simp [isHexDigit, hdigit])
            · exact Or.inr (Or.inr hdot)

/-- Without a scope, an address is made of digits, colons and dots. -/
theorem char_of_ipv6Address {address : Text} (h : (ipv6Address address).isSome) :
    address ≠ [] ∧ ('%' ∉ address → ∀ c ∈ address, isHexDigit c ∨ c = ':' ∨ c = '.') := by
  rw [ipv6Address] at h
  split at h
  · cases h
  constructor
  · rintro rfl
    cases h
  · intro hpercent
    rw [partition_of_not_mem hpercent] at h
    exact (char_of_ipv6FromString h).2

end Py.IpAddress
