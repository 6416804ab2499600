import Secureblue.Dns.Selector

/-! Which resolver `DNSResolver.detect` finds in /etc/resolv.conf (`dns_selector.py`).

    The loop takes any line that starts with `nameserver` apart, whether or not that is its first word,
    and ends with an exception if there is no second one. -/

namespace Dns.Selector
open Py

/-! ### The configured resolver -/

def nameserver : Text := "nameserver"

/-- The resolver that listens at an address, if it is one of the two. -/
def localResolver (addr : Text) : Option DNSResolver :=
  if addr = "127.0.0.1" then some .unbound
  else if addr = "127.0.0.53" then some .resolved
  else none

def secondWord (line : Text) : Option Text := (words line)[1]?

/-- The resolver that a line names: its first word is `nameserver`, its second one the address. -/
def namedResolver (line : Text) : Option DNSResolver :=
  if (words line).head? = some nameserver then (secondWord line).bind localResolver else none

/-- The resolver of the first line that names one, if there is one. -/
def configuredResolver (content : Text) : DNSResolver :=
  ((fileLines content).findSome? namedResolver).getD .unknown

/-! ### The line that decides -/

/-- The line starts with `nameserver`, and its second word is one of the two addresses or missing. -/
def decides (line : Text) : Bool :=
  startsWith (strip line) nameserver && (secondWord line).all fun addr => (localResolver addr).isSome

/-- The first line that decides, if there is one, has a second word; and either `nameserver` is its first
    word or the first line that names a resolver names the same one. -/
def Decided (content : Text) : Prop :=
  ∀ line ∈ (fileLines content).find? decides, ∃ addr ∈ secondWord line,
    (words line).head? = some nameserver ∨
      (fileLines content).findSome? namedResolver = localResolver addr

section
variable {line : Text} {lines : List Text}

/-- A line that names a resolver decides. -/
theorem decides_of_namedResolver {resolver : DNSResolver} (h : namedResolver line = some resolver) :
    decides line := by
  rw [namedResolver] at h
  split at h
  · next hhead =>
    obtain ⟨addr, haddr, hlocal⟩ := Option.bind_eq_some_iff.mp h
    obtain ⟨ws, hws⟩ := List.head?_eq_some_iff.mp hhead
    have hstart : startsWith (strip line) nameserver := startsWith_first_word hws
    rw [decides, hstart, haddr, Bool.true_and, Option.all_some, hlocal]
    rfl
  · cases h

/-- What `detect` does at a line that starts with `nameserver`. -/
theorem detectFrom_cons (h : startsWith (strip line) nameserver) : detectFrom (line :: lines) =
    (secondWord line).elim (.error .valueError)
      fun addr => (localResolver addr).elim (detectFrom lines) fun resolver => .ok (some resolver) := by
  have hstart : startsWith (strip line) "nameserver" := h
  rw [detectFrom, if_pos hstart, words_strip, secondWord]
  cases hwords : words line with
  | nil => rfl
  | cons w ws =>
    cases ws with
    | nil => rfl
    | cons addr ws =>
      have hsecond : (w :: addr :: ws)[1]? = some addr := rfl
      rw [hsecond, Option.elim_some, localResolver]
      dsimp only
      split
      · rfl
      · split
        · rfl
        · rfl

/-- It passes over the lines that do not decide. -/
theorem detectFrom_of_not_decides (h : decides line = false) : detectFrom (line :: lines) = detectFrom lines := by
  rw [decides] at h
  by_cases hstart : startsWith (strip line) nameserver
  · rw [detectFrom_cons hstart]
    rw [hstart, Bool.true_and] at h
    cases hsecond : secondWord line with
    | none =>
      rw [hsecond] at h
      cases h
    | some addr =>
      rw [hsecond, Option.all_some, Option.isSome_eq_false_iff, Option.isNone_iff_eq_none] at h
      rw [Option.elim_some, h, Option.elim_none]
  · have hliteral : ¬startsWith (strip line) "nameserver" := hstart
    rw [detectFrom, if_neg hliteral]

/-- The first line that decides is where the loop ends. -/
theorem detectFrom_eq : detectFrom lines = (lines.find? decides).elim (.ok none) fun line =>
    (secondWord line).elim (.error .valueError) fun addr => .ok (localResolver addr) := by
  induction lines with
  | nil => rfl
  | cons line lines ih =>
    by_cases h : decides line
    · have hstart := (Bool.and_eq_true_iff.mp h).1
      rw [List.find?_cons_of_pos h, Option.elim_some, detectFrom_cons hstart]
      rw [decides, hstart, Bool.true_and] at h
      cases hsecond : secondWord line with
      | none => rfl
      | some addr =>
        rw [hsecond, Option.all_some] at h
        obtain ⟨resolver, hlocal⟩ := Option.isSome_iff_exists.mp h
        rw [Option.elim_some, Option.elim_some, hlocal, Option.elim_some]
    · rw [List.find?_cons_of_neg h, detectFrom_of_not_decides (by simpa using h), ih]

/-- The first line that names a resolver is not before the one that decides. -/
theorem findSome_of_find (h : lines.find? decides = some line) {resolver : DNSResolver}
    (hline : namedResolver line = some resolver) : lines.findSome? namedResolver = some resolver := by
  obtain ⟨-, pre, post, rfl, hpre⟩ := List.find?_eq_some_iff_append.mp h
  rw [List.findSome?_append, List.findSome?_eq_none_iff.mpr, Option.none_or, List.findSome?_cons_of_isSome, hline]
  · rw [hline]
    rfl
  · intro l hl
    by_contra hnamed
    obtain ⟨resolver', hnamed⟩ := Option.ne_none_iff_exists'.mp hnamed
    have hnot := hpre l hl
    rw [decides_of_namedResolver hnamed] at hnot
    cases hnot

theorem findSome_of_find_none (h : lines.find? decides = none) : lines.findSome? namedResolver = none := by
  rw [List.findSome?_eq_none_iff]
  intro line hline
  by_contra hnamed
  obtain ⟨resolver, hnamed⟩ := Option.ne_none_iff_exists'.mp hnamed
  exact List.find?_eq_none.mp h line hline (decides_of_namedResolver hnamed)

theorem localResolver_ne_unknown (addr : Text) : localResolver addr ≠ some .unknown := by
  rw [localResolver]
  split
  · simp
  · split
    · simp
    · simp

/-- At a line that decides, the loop has the configured resolver if it should. -/
theorem getD_eq_iff {addr : Text} {resolver : DNSResolver} (hfind : lines.find? decides = some line)
    (hsecond : secondWord line = some addr) (hlocal : localResolver addr = some resolver) :
    resolver = (lines.findSome? namedResolver).getD .unknown ↔
      (words line).head? = some nameserver ∨ lines.findSome? namedResolver = localResolver addr := by
  have hunknown : resolver ≠ .unknown := fun h => localResolver_ne_unknown addr (h ▸ hlocal)
  rw [hlocal]
  constructor
  · intro h
    refine .inr ?_
    cases hfirst : lines.findSome? namedResolver with
    | none => exact absurd (by rw [h, hfirst, Option.getD_none]) hunknown
    | some first => rw [h, hfirst, Option.getD_some]
  · rintro (hhead | hfirst)
    · have hnamed : namedResolver line = some resolver := by
        rw [namedResolver, if_pos hhead, hsecond, Option.bind_some, hlocal]
      rw [findSome_of_find hfind hnamed, Option.getD_some]
    · rw [hfirst, Option.getD_some]

end

/-- CORRECT: `detect` returns the configured resolver exactly if the first line that decides has a second
    word, and has `nameserver` for its first one or agrees with the first line that has. -/
theorem detect_iff (content : Text) :
    DNSResolver.detect (.text content) = .ok (configuredResolver content) ↔ Decided content := by
  have hdetect : DNSResolver.detect (.text content)
      = (detectFrom (fileLines content)).map fun found => found.getD .unknown := rfl
  rw [hdetect, detectFrom_eq, Decided, configuredResolver]
  cases hfind : (fileLines content).find? decides with
  | none => simp [findSome_of_find_none hfind, Except.map]
  | some line =>
    have hdecides := List.find?_some hfind
    rw [decides] at hdecides
    cases hsecond : secondWord line with
    | none => simp [hsecond, Except.map]
    | some addr =>
      rw [hsecond, Option.all_some] at hdecides
      obtain ⟨resolver, hlocal⟩ := Option.isSome_iff_exists.mp (Bool.and_eq_true_iff.mp hdecides).2
      have hiff := getD_eq_iff hfind hsecond hlocal
      rw [hlocal] at hiff
      simp [hsecond, hlocal, hiff, Except.map]

/-- The first line has lost its address. -/
def cutResolvConf : Text := "nameserver\nnameserver 127.0.0.1\n"

/-- `detect` raises, although the second line names Unbound. -/
theorem not_detect_cutResolvConf :
    ¬DNSResolver.detect (.text cutResolvConf) = .ok (configuredResolver cutResolvConf) := by
  decide +kernel

end Dns.Selector
