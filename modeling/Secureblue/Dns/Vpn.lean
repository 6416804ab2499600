import Secureblue.Dns.Status
import Secureblue.Occurs
import Secureblue.Pipeline

/-! Whether the default route is via a TUN/TAP interface (`is_using_vpn`).

    The code looks for `dev` and the name of an interface anywhere in the routes, so the name also
    matches the start of a longer one, and `dev` the end of another word. -/

namespace Dns.Vpn
open Py Occurs Selector

/-! ### The function -/

/-- `f"dev {tuntap_interface}"` -/
def devText (tuntapInterface : Text) : Text := "dev" ++ ' ' :: tuntapInterface

/-- `is_using_vpn`, from what the three commands print. -/
def isUsingVpn (wgOut routeOut tuntapOut : Output) : Bool :=
  if commandStdout wgOut ≠ [] then true
  else (splitlines (commandStdout tuntapOut)).any fun tuntap =>
    decide (devText (partition ':' tuntap).1 <:+: commandStdout routeOut)

/-! ### What `ip` prints -/

/-- What stands between blanks. -/
structure Word where
  text : Text
  ne_nil : text ≠ []
  no_space : ∀ c ∈ text, isSpace c = false

/-- The name of a network interface, which has no colon. -/
structure Device extends Word where
  no_colon : ':' ∉ text

/-- A line of `ip tuntap list`. -/
structure Interface where
  device : Device
  info : List Word

def Interface.line (i : Interface) : Text :=
  i.device.text ++ ':' :: i.info.flatMap fun w => ' ' :: w.text

/-- A line of `ip route show default`: a route, or with a tab in front one of its next hops. -/
structure Route where
  nexthop : Bool
  before : List Word
  device : Option Device
  after : List Word

def devWord : Word := ⟨"dev", by decide, by decide⟩

def Route.words (r : Route) : List Word :=
  r.before ++ (r.device.elim [] fun d => [devWord, d.toWord]) ++ r.after

def Route.line (r : Route) : Text :=
  (if r.nexthop then ['\t'] else []) ++ (r.words.map Word.text).flatMap fun w => w ++ [' ']

/-- Some route goes through an interface that is listed. -/
def Tunnelled (routes : List Route) (interfaces : List Interface) : Prop :=
  ∃ r ∈ routes, ∃ i ∈ interfaces, r.device.map (·.text) = some i.device.text

/-- Behind a word that ends in `dev`, a word starts with the name of an interface. -/
def Mentioned (routes : List Route) (interfaces : List Interface) : Prop :=
  ∃ r ∈ routes, ∃ i ∈ interfaces, ∃ w w', [w, w'] <:+: r.words.map Word.text ∧
    devWord.text <:+ w ∧ i.device.text <+: w'

/-! ### What is found -/

section
variable {routes : List Route} {interfaces : List Interface}

theorem Word.not_mem (w : Word) {c : Char} (hc : isSpace c) : c ∉ w.text := fun h => by
  have hspace := w.no_space c h
  rw [hc] at hspace
  cases hspace

theorem commandStdout_eq {ls : Output} (h : ∀ l ∈ ls, '\r' ∉ l) :
    commandStdout ls = strip (ls.flatMap fun l => l ++ ['\n']) := by
  rw [commandStdout, universalNewlines_eq_self]
  simpa using h

/-- The characters of a line are those of its words, blanks and a tab. -/
theorem Route.mem_line {r : Route} {c : Char} (hc : c ∈ r.line) :
    c = '\t' ∨ c = ' ' ∨ isSpace c = false := by
  rw [Route.line, List.mem_append, List.mem_flatMap] at hc
  rcases hc with hc | ⟨w, hw, hc⟩
  · split at hc
    · exact .inl (List.mem_singleton.mp hc)
    · exact absurd hc List.not_mem_nil
  · obtain ⟨w, -, rfl⟩ := List.mem_map.mp hw
    rcases List.mem_append.mp hc with hc | hc
    · exact .inr (.inr (w.no_space c hc))
    · exact .inr (.inl (List.mem_singleton.mp hc))

theorem Interface.mem_line {i : Interface} {c : Char} (hc : c ∈ i.line) :
    c = ' ' ∨ isSpace c = false := by
  rw [Interface.line, List.mem_append, List.mem_cons, List.mem_flatMap] at hc
  rcases hc with hc | rfl | ⟨w, -, hc⟩
  · exact .inr (i.device.no_space c hc)
  · exact .inr (by decide)
  · exact (List.mem_cons.mp hc).imp_right (w.no_space c)

theorem not_lineBreak {c : Char} (hc : c = ' ' ∨ isSpace c = false) : isLineBreak c = false := by
  rcases hc with rfl | hc
  · decide
  · simp only [isSpace, isLineBreak] at hc ⊢
    simp at hc ⊢
    omega

theorem Interface.head_line (i : Interface) : ∃ c ∈ i.line.head?, isSpace c = false := by
  obtain ⟨c, rest, hc⟩ := List.exists_cons_of_ne_nil i.device.ne_nil
  refine ⟨c, by simp [Interface.line, hc], i.device.no_space c (by simp [hc])⟩

theorem Interface.getLast_line (i : Interface) : ∃ c ∈ i.line.getLast?, isSpace c = false := by
  rcases List.eq_nil_or_concat i.info with hnil | ⟨info, w, hinfo⟩
  · exact ⟨':', by simp [Interface.line, hnil], by decide⟩
  · obtain ⟨rest, c, hc⟩ := (List.eq_nil_or_concat w.text).resolve_left w.ne_nil
    have hline : i.line =
        (i.device.text ++ ':' :: (info.flatMap fun w => ' ' :: w.text) ++ ' ' :: rest) ++ [c] := by
      simp [Interface.line, hinfo, hc]
    exact ⟨c, by rw [hline, List.getLast?_concat]; rfl, w.no_space c (by simp [hc])⟩

/-- A line of an interface is read up to its name. -/
theorem partition_line (i : Interface) : (partition ':' i.line).1 = i.device.text := by
  rw [Interface.line, partition_append i.device.no_colon]

theorem head_join (sep : Char) {c : Char} {l : Text} (hc : c ∈ l.head?) {ls : List Text} :
    ([sep].intercalate (l :: ls)).head? = l.head? := by
  obtain ⟨rest, rfl⟩ := List.head?_eq_some_iff.mp hc
  cases ls with
  | nil => rw [List.intercalate_singleton]
  | cons m ls =>
    rw [List.intercalate_cons_cons]
    rfl

/-- The interfaces that the loop looks at are those that are listed. -/
theorem splitlines_interfaces (interfaces : List Interface) :
    splitlines (commandStdout (interfaces.map Interface.line)) = interfaces.map Interface.line := by
  have hline : ∀ l ∈ interfaces.map Interface.line, ∀ c ∈ l, c = ' ' ∨ isSpace c = false := by
    intro l hl c hc
    obtain ⟨i, -, rfl⟩ := List.mem_map.mp hl
    exact Interface.mem_line hc
  rw [commandStdout_eq fun l hl hr => absurd (hline l hl _ hr) (by decide)]
  cases interfaces with
  | nil => rfl
  | cons i interfaces =>
    obtain ⟨c, hc, hspace⟩ := i.head_line
    rw [List.map_cons, Pipeline.flatMap_newline, strip_append_of_space (by decide), strip_eq_self, splitlines_join]
    · intro l hl
      refine ⟨?_, fun c hc => not_lineBreak (hline l hl c hc)⟩
      obtain ⟨j, -, rfl⟩ := List.mem_map.mp (show l ∈ (i :: interfaces).map Interface.line from hl)
      exact fun hnil => by simp [Interface.line] at hnil
    · intro d hd
      rw [head_join '\n' hc] at hd
      rw [Option.mem_unique hd hc]
      exact hspace
    · refine getLast_join '\n' fun l hl => ?_
      obtain ⟨j, -, rfl⟩ := List.mem_map.mp (show l ∈ (i :: interfaces).map Interface.line from hl)
      obtain ⟨d, hd, hspace⟩ := j.getLast_line
      refine ⟨fun hnil => by simp [Interface.line] at hnil, fun e he => ?_⟩
      rw [Option.mem_unique he hd]
      exact hspace

/-- Stripping the output takes nothing away from the text that is looked for. -/
theorem devText_occurs_strip (d : Device) (s : Text) : devText d.text <:+: strip s ↔ devText d.text <:+: s := by
  have hlast : ∃ c ∈ (devText d.text).getLast?, isSpace c = false := by
    obtain ⟨rest, c, hc⟩ := (List.eq_nil_or_concat d.text).resolve_left d.ne_nil
    have hdev : devText d.text = ("dev" ++ ' ' :: rest) ++ [c] := by simp [devText, hc]
    exact ⟨c, by rw [hdev, List.getLast?_concat]; rfl, d.no_space c (by simp [hc])⟩
  rw [strip, rstrip, infix_rdropWhile_iff hlast, infix_dropWhile_iff ⟨'d', rfl, by decide⟩]

theorem devText_occurs_line (d : Device) (r : Route) : devText d.text <:+: r.line ↔
    ∃ w w', [w, w'] <:+: r.words.map Word.text ∧ devWord.text <:+ w ∧ d.text <+: w' := by
  have hdev : devText d.text = 'd' :: ['e', 'v'] ++ ' ' :: d.text := rfl
  have htab : 'd' ∉ if r.nexthop then ['\t'] else [] := by split <;> decide
  rw [hdev, Route.line, List.cons_append, Pipeline.infix_append_of_head_not_mem htab, ← List.cons_append]
  refine infix_words_iff (by decide) (d.not_mem (by decide)) d.ne_nil ?_
  intro l hl
  obtain ⟨w, -, rfl⟩ := List.mem_map.mp hl
  exact w.not_mem (by decide)

/-- What the loop finds in the routes. -/
theorem devText_occurs (d : Device) (routes : List Route) :
    devText d.text <:+: commandStdout (routes.map Route.line) ↔ ∃ r ∈ routes, devText d.text <:+: r.line := by
  have hcr : ∀ l ∈ routes.map Route.line, '\r' ∉ l := by
    intro l hl hr
    obtain ⟨r, -, rfl⟩ := List.mem_map.mp hl
    rcases r.mem_line hr with h | h | h
    · cases h
    · cases h
    · cases h
  have hbreak : '\n' ∉ devText d.text := by
    simp [devText, @Word.not_mem d.toWord '\n' (by decide)]
  rw [commandStdout_eq hcr, devText_occurs_strip, infix_flatMap_iff hbreak (List.cons_ne_nil _ _)]
  simp

theorem mentioned_iff : Mentioned routes interfaces ↔
    ∃ i ∈ interfaces, devText i.device.text <:+: commandStdout (routes.map Route.line) := by
  simp only [devText_occurs, devText_occurs_line, Mentioned]
  constructor
  · rintro ⟨r, hr, i, hi, h⟩
    exact ⟨i, hi, r, hr, h⟩
  · rintro ⟨i, hi, r, hr, h⟩
    exact ⟨r, hr, i, hi, h⟩

/-- Without a WireGuard link, the code goes by what is mentioned. -/
theorem isUsingVpn_eq : isUsingVpn [] (routes.map Route.line) (interfaces.map Interface.line) = true ↔
    Mentioned routes interfaces := by
  have hwg : commandStdout [] = [] := rfl
  rw [isUsingVpn, hwg, if_neg (by simp), splitlines_interfaces, mentioned_iff]
  simp [partition_line]

theorem mentioned_of_tunnelled (h : Tunnelled routes interfaces) : Mentioned routes interfaces := by
  obtain ⟨r, hr, i, hi, hdevice⟩ := h
  obtain ⟨d, hd, hname⟩ := Option.map_eq_some_iff.mp hdevice
  refine ⟨r, hr, i, hi, devWord.text, d.text, ⟨r.before.map Word.text, r.after.map Word.text, ?_⟩,
    List.suffix_refl _, hname ▸ List.prefix_refl _⟩
  simp [Route.words, hd]

end

/-- CORRECT: without a WireGuard link, the code finds a tunnel exactly when there is one if and only if
    there is one or no name of an interface starts a word behind one that ends in `dev`. -/
theorem isUsingVpn_iff (routes : List Route) (interfaces : List Interface) :
    (isUsingVpn [] (routes.map Route.line) (interfaces.map Interface.line) = true ↔
      Tunnelled routes interfaces) ↔ (Mentioned routes interfaces → Tunnelled routes interfaces) := by
  rw [isUsingVpn_eq]
  exact ⟨Iff.mp, fun h => ⟨h, mentioned_of_tunnelled⟩⟩

def tun1 : Interface := ⟨⟨⟨"tun1", by decide, by decide⟩, by decide⟩, [⟨"tun", by decide, by decide⟩]⟩

/-- `default dev tun10` -/
def routeTun10 : Route :=
  ⟨false, [⟨"default", by decide, by decide⟩], some ⟨⟨"tun10", by decide, by decide⟩, by decide⟩, []⟩

/-- The default route is via `tun10`, and only `tun1` is listed. -/
theorem isUsingVpn_prefix : ¬(isUsingVpn [] ([routeTun10].map Route.line) ([tun1].map Interface.line) = true ↔
    Tunnelled [routeTun10] [tun1]) := by
  have hcode : isUsingVpn [] ([routeTun10].map Route.line) ([tun1].map Interface.line) = true := by decide
  have hnot : ¬Tunnelled [routeTun10] [tun1] := by
    rintro ⟨r, hr, i, hi, h⟩
    rw [List.mem_singleton.mp hr, List.mem_singleton.mp hi] at h
    exact absurd h (by decide)
  exact fun h => hnot (h.mp hcode)

end Dns.Vpn
