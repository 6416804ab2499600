import Secureblue.Py.Dict
import Secureblue.Py.Text

/-! The kernel command line as a map (`parse_kernel_cmdline` in `shared/utils.py`).

    The code splits the line at double quotes. Unquoted segments are split at white space into
    parameters; a quoted segment replaces the value of the parameter just before it. A line is
    accepted exactly when it is a sequence of items, bare parameters and parameters ending in
    `="..."`, separated by white space (`reads_of_parse`, `parse_render`). Read this way the map is
    the last-wins map of the items. It is that of the documented reading, which keeps everything
    behind the first `=`, unless an effective parameter has a further `=` before its quoted part
    (`parse_eq_reference_iff`). -/

namespace Kargs
open Py

/-! ### The code -/

abbrev KargsMap := Dict Text (Option Text)

/-- `key, sep, value = karg.partition("=")`, with the name normalised and `None` for no `=`. -/
def splitKarg (karg : Text) : Text × Option Text :=
  let (key, sep, value) := partition '=' karg
  (replace key "-" "_", if sep = [] then none else some value)

/-- The loop over the words of an unquoted segment, on `kargs_map` and `key`. -/
def addKargs (st : KargsMap × Option Text) (kargs : List Text) : KargsMap × Option Text :=
  kargs.foldl (fun st karg => (st.1.set (splitKarg karg).1 (splitKarg karg).2,
    some (splitKarg karg).1)) st

/-- `re.match(r"\S", segment)` -/
def startsNonSpace (segment : Text) : Bool := segment.head?.any fun c => !isSpace c

/-- The `while True` loop, on the segments not yet taken from the iterator. It ends when the
    iterator is exhausted, at an unquoted or at a quoted segment. -/
def parseSegments : Bool → List Text → KargsMap × Option Text → Except Exn KargsMap
  | _, [], st => .ok st.1
  | firstSegment, unquotedSegment :: segments, st =>
    if !firstSegment && startsNonSpace unquotedSegment then
      .error (.valueError
        "Closing double-quote must be followed by whitespace in kernel command-line")
    else
      let st := addKargs st (words unquotedSegment)
      match segments with
      | [] => .ok st.1
      | quotedSegment :: segments =>
        if endsWith unquotedSegment "=" then
          match st.2 with
          | none => .error .unboundLocalError
          | some key => parseSegments false segments (st.1.set key (some quotedSegment), some key)
        else .error (.valueError "Opening double-quote must follow = in kernel command-line")

/-- `parse_kernel_cmdline` -/
def parseKernelCmdline (cmdline : Text) : Except Exn KargsMap :=
  let splitByQuotes := cmdline.splitOn '"'
  if splitByQuotes.length % 2 = 0 then
    .error (.valueError "Unmatched double-quote character in kernel command-line")
  else parseSegments true splitByQuotes (∅, none)

/-! ### The documented reading -/

/-- Split at white space outside double quotes. -/
def splitOutside : Bool → Text → List Text
  | _, [] => [[]]
  | inQuote, c :: cs =>
    if c = '"' then (splitOutside (!inQuote) cs).modifyHead (c :: ·)
    else if !inQuote && isSpace c then [] :: splitOutside inQuote cs
    else (splitOutside inQuote cs).modifyHead (c :: ·)

/-- The parameters of a command line. -/
def parameters (cmdline : Text) : List Text := (splitOutside false cmdline).filter (· ≠ [])

/-- Remove one pair of double quotes that encloses the whole value. -/
def unquote (value : Text) : Text :=
  if 2 ≤ value.length ∧ value.head? = some '"' ∧ value.getLast? = some '"' then value.tail.dropLast
  else value

/-- A parameter divided at its first `=`, the name normalised and the value unquoted. -/
def readParameter (p : Text) : Text × Option Text :=
  ((splitKarg p).1, (splitKarg p).2.map unquote)

/-- The last-wins map of the parameters. -/
def referenceMap (cmdline : Text) : Text → Option (Option Text) :=
  lastWins ((parameters cmdline).map readParameter)

/-- The parameter has a quoted part and an `=` before the one the quoted part follows. -/
def misread (p : Text) : Bool :=
  p.contains '"' && (p.takeWhile (· ≠ '"')).dropLast.contains '='

/-! ### Items -/

/-- No white space and no double quote. -/
def Plain (t : Text) : Prop := ∀ c ∈ t, isSpace c = false ∧ c ≠ '"'

/-- Only white space. -/
def Spaces (t : Text) : Prop := ∀ c ∈ t, isSpace c

instance (t : Text) : Decidable (Plain t) := inferInstanceAs (Decidable (∀ c ∈ t, _))
instance (t : Text) : Decidable (Spaces t) := inferInstanceAs (Decidable (∀ c ∈ t, _))

/-- What an accepted line consists of. -/
inductive Item where
  /-- a parameter without a quoted part -/
  | bare (t : Text) (plain : Plain t) (ne : t ≠ [])
  /-- `t="q"` -/
  | quoted (t q : Text) (plain : Plain t) (inner : '"' ∉ q)

namespace Item

def text : Item → Text
  | bare t _ _ => t
  | quoted t q _ _ => t ++ '=' :: '"' :: (q ++ ['"'])

/-- The entry the code makes for the item. -/
def karg : Item → Text × Option Text
  | bare t _ _ => splitKarg t
  | quoted t q _ _ => ((splitKarg (t ++ ['='])).1, some q)

/-- The item with one more character in front. -/
def cons (c : Char) (hs : isSpace c = false) (hq : c ≠ '"') : Item → Item
  | bare t ht _ => bare (c :: t) (List.forall_mem_cons.mpr ⟨⟨hs, hq⟩, ht⟩) (List.cons_ne_nil c t)
  | quoted t q ht h => quoted (c :: t) q (List.forall_mem_cons.mpr ⟨⟨hs, hq⟩, ht⟩) h

theorem text_cons (c : Char) (hs : isSpace c = false) (hq : c ≠ '"') (i : Item) :
    (cons c hs hq i).text = c :: i.text := by
  cases i <;> rfl

theorem text_ne_nil (i : Item) : i.text ≠ [] := by
  cases i with
  | bare t _ ht => exact ht
  | quoted t q _ _ => simp [text]

end Item

/-- Each element behind its white space; only the first gap may be empty, and only if `free`. -/
def Gapped {ι : Type} : Bool → List (Text × ι) → Prop
  | _, [] => True
  | free, (ws, _) :: its => Spaces ws ∧ (ws = [] → free) ∧ Gapped false its

/-- The text of gaps and items. -/
def renderItems (its : List (Text × Item)) : Text := its.flatMap fun e => e.1 ++ e.2.text

/-! ### Every sequence of items is accepted -/

theorem Plain.not_space {t : Text} (h : Plain t) : ∀ c ∈ t, isSpace c = false := fun c hc => (h c hc).1

theorem Plain.not_mem {t : Text} (h : Plain t) : '"' ∉ t := fun hc => (h _ hc).2 rfl

theorem Spaces.not_mem {t : Text} (h : Spaces t) : '"' ∉ t := fun hc => absurd (h _ hc) (by decide)

theorem addKargs_append (st : KargsMap × Option Text) (l m : List Text) :
    addKargs st (l ++ m) = addKargs (addKargs st l) m := List.foldl_append ..

theorem addKargs_fst : ∀ (kargs : List Text) (st : KargsMap × Option Text),
    (addKargs st kargs).1 = st.1.update (kargs.map splitKarg)
  | [], _ => rfl
  | _ :: kargs, _ => addKargs_fst kargs _

/-- Items after an unquoted prefix `a`: the words of `a`, then the items one by one. -/
theorem parseSegments_render : ∀ {its : List (Text × Item)} {free first : Bool} {a tail : Text}
    (st : KargsMap × Option Text), Gapped free its → Spaces tail → '"' ∉ a →
    (free → a = [] ∧ first) → (first ∨ startsNonSpace a = false) →
    parseSegments first ((a ++ renderItems its ++ tail).splitOn '"') st
      = .ok ((addKargs st (words a)).1.update (its.map fun e => e.2.karg))
  | [], _, first, a, tail, st, _, htail, ha, _, hstart => by
      have hu : startsNonSpace (a ++ tail) = true → startsNonSpace a = true := by
        cases a with
        | nil => cases tail with
          | nil => exact id
          | cons c tail => intro h; simp [startsNonSpace, htail c] at h
        | cons c a => exact id
      have hcond : (!first && startsNonSpace (a ++ tail)) = false := by
        rcases hstart with rfl | h
        · rfl
        · cases hc : startsNonSpace (a ++ tail)
          · simp
          · exact absurd (hu hc) (by simp [h])
      rw [show renderItems [] = [] from rfl, List.append_nil,
        List.splitOn_eq_singleton (by simp [ha, htail.not_mem])]
      simp only [parseSegments, hcond, Bool.false_eq_true, if_false, words_append_space_nil a htail]
      rfl
  | (ws, i) :: its, free, first, a, tail, st, ⟨hws, hfree, hits⟩, htail, ha, hfa, hstart => by
      have hwords : ∀ t, words (a ++ ws ++ t) = words a ++ words t := by
        intro t
        by_cases hw : ws = []
        · rw [(hfa (hfree hw)).1, hw]; rfl
        · exact words_append_space a hws t hw
      have hhead : ∀ t, first ∨ startsNonSpace (a ++ ws ++ t) = false := by
        intro t
        by_cases hw : ws = []
        · exact Or.inl (hfa (hfree hw)).2
        · refine hstart.imp_right fun h => ?_
          cases a with
          | nil =>
            obtain ⟨c, ws', rfl⟩ := List.exists_cons_of_ne_nil hw
            simp [startsNonSpace, hws c]
          | cons c a => exact h
      cases i with
      | bare t ht hne =>
        have hrender : a ++ renderItems ((ws, .bare t ht hne) :: its) ++ tail
            = (a ++ ws ++ t) ++ renderItems its ++ tail := by
          simp [renderItems, Item.text]
        rw [hrender, parseSegments_render st hits htail
          (by simp [ha, hws.not_mem, ht.not_mem]) (by simp) (hhead t), hwords,
          words_singleton ht.not_space hne, addKargs_append]
        rfl
      | quoted t q ht hq =>
        have hrender : a ++ renderItems ((ws, .quoted t q ht hq) :: its) ++ tail
            = (a ++ ws ++ (t ++ ['='])) ++ '"' :: (q ++ '"' :: ([] ++ renderItems its ++ tail)) := by
          simp [renderItems, Item.text]
        have ht' : Plain (t ++ ['=']) := by
          intro c hc
          rcases List.mem_append.mp hc with hc | hc
          · exact ht c hc
          · rw [List.mem_singleton.mp hc]; exact ⟨by decide, by decide⟩
        have hcond : (!first && startsNonSpace (a ++ ws ++ (t ++ ['=']))) = false := by
          rcases hhead (t ++ ['=']) with rfl | h
          · rfl
          · rw [h, Bool.and_false]
        have hkarg : addKargs (addKargs st (words a)) [t ++ ['=']]
            = ((addKargs st (words a)).1.set (splitKarg (t ++ ['='])).1 (splitKarg (t ++ ['='])).2,
              some (splitKarg (t ++ ['='])).1) := rfl
        have hend : endsWith (a ++ ws ++ (t ++ ['='])) "=" :=
          endsWith_iff.mpr ⟨a ++ ws ++ t, by simp⟩
        rw [hrender, List.splitOn_append_cons_self_of_not_mem
            (by simp [ha, hws.not_mem, ht.not_mem]),
          List.splitOn_append_cons_self_of_not_mem hq]
        simp only [parseSegments, hcond, Bool.false_eq_true, if_false, hend, if_true, hwords,
          words_singleton ht'.not_space (List.append_ne_nil_of_right_ne_nil t (List.cons_ne_nil _ _)),
          addKargs_append, hkarg, Dict.set_set]
        rw [parseSegments_render _ hits htail List.not_mem_nil (by simp) (Or.inr rfl)]
        rfl

/-- An item has no double quote or two. -/
theorem even_count_quote : ∀ {free : Bool} {its : List (Text × Item)}, Gapped free its →
    (renderItems its).count '"' % 2 = 0
  | _, [], _ => rfl
  | _, (ws, i) :: its, ⟨hws, _, hits⟩ => by
      have hi : i.text.count '"' % 2 = 0 := by
        cases i with
        | bare t ht _ => rw [Item.text, List.count_eq_zero.mpr ht.not_mem]
        | quoted t q ht hq =>
          simp [Item.text, List.count_eq_zero.mpr ht.not_mem, List.count_eq_zero.mpr hq]
      have hrest := even_count_quote hits
      have hsplit : renderItems ((ws, i) :: its) = ws ++ i.text ++ renderItems its := rfl
      rw [hsplit, List.count_append, List.count_append, List.count_eq_zero.mpr hws.not_mem]
      omega

/-- A sequence of items is accepted, and the map is the last-wins map of their entries. -/
theorem parse_render {its : List (Text × Item)} {tail : Text} (hits : Gapped true its)
    (htail : Spaces tail) :
    parseKernelCmdline (renderItems its ++ tail) = .ok (Dict.ofList (its.map fun e => e.2.karg)) := by
  have h : parseSegments true (([] ++ renderItems its ++ tail).splitOn '"') (∅, none) = _ :=
    parseSegments_render _ hits htail List.not_mem_nil (fun _ => ⟨rfl, rfl⟩) (Or.inl rfl)
  rw [List.nil_append] at h
  have hodd : ((renderItems its ++ tail).splitOn '"').length % 2 ≠ 0 := by
    rw [length_splitOn, List.count_append, List.count_eq_zero.mpr htail.not_mem]
    have := even_count_quote hits
    omega
  rw [parseKernelCmdline, if_neg hodd]
  exact h

/-- A line of words without quotes. -/
theorem parse_words {cmdline : Text} (h : '"' ∉ cmdline) :
    parseKernelCmdline cmdline = .ok (Dict.ofList ((words cmdline).map splitKarg)) := by
  rw [parseKernelCmdline, List.splitOn_eq_singleton h, if_neg (by simp)]
  simp only [parseSegments, Bool.not_true, Bool.false_and, Bool.false_eq_true, if_false,
    addKargs_fst]
  rfl

/-! ### Every accepted line is a sequence of items -/

/-- The text is a sequence of items with trailing white space. -/
def Reads (free : Bool) (s : Text) : Prop :=
  ∃ its tail, s = renderItems its ++ tail ∧ Gapped free its ∧ Spaces tail

theorem Gapped.weaken {ι : Type} {free : Bool} : ∀ {its : List (Text × ι)}, Gapped free its →
    Gapped true its
  | [], _ => trivial
  | (_, _) :: _, ⟨hws, _, hits⟩ => ⟨hws, fun _ => rfl, hits⟩

theorem Reads.weaken {free : Bool} {s : Text} : Reads free s → Reads true s :=
  fun ⟨its, tail, hs, hits, htail⟩ => ⟨its, tail, hs, hits.weaken, htail⟩

/-- One more character that is not a quote: white space widens the first gap, anything else extends
    the first item or starts a new one. -/
theorem Reads.cons {s : Text} {c : Char} (hq : c ≠ '"') :
    Reads true s → Reads (!isSpace c) (c :: s) := by
  rintro ⟨its, tail, rfl, hits, htail⟩
  cases hc : isSpace c with
  | true =>
    have hcs : ∀ {ws : Text}, Spaces ws → Spaces (c :: ws) := fun h => List.forall_mem_cons.mpr ⟨hc, h⟩
    cases its with
    | nil => exact ⟨[], c :: tail, rfl, trivial, hcs htail⟩
    | cons e its => exact ⟨(c :: e.1, e.2) :: its, tail, rfl, ⟨hcs hits.1, by simp, hits.2.2⟩, htail⟩
  | false =>
    have hnew : Plain [c] := List.forall_mem_singleton.mpr ⟨hc, hq⟩
    have hnil : Spaces [] := List.forall_mem_nil _
    cases its with
    | nil => exact ⟨[([], .bare [c] hnew (by simp))], tail, rfl, ⟨hnil, fun _ => rfl, trivial⟩, htail⟩
    | cons e its =>
      obtain ⟨ws, i⟩ := e
      rcases eq_or_ne ws [] with hw | hw
      · refine ⟨([], i.cons c hc hq) :: its, tail, ?_, ⟨hnil, fun _ => rfl, hits.2.2⟩, htail⟩
        simp [renderItems, Item.text_cons, hw]
      · exact ⟨([], .bare [c] hnew (by simp)) :: (ws, i) :: its, tail, rfl,
          ⟨hnil, fun _ => rfl, hits.1, fun h => absurd h hw, hits.2.2⟩, htail⟩

/-- An unquoted prefix can be put in front; if it starts with white space, so does the result. -/
theorem Reads.append {s : Text} (hs : Reads true s) : ∀ {u : Text}, '"' ∉ u → u ≠ [] →
    Reads (startsNonSpace u) (u ++ s)
  | [], _, h => absurd rfl h
  | c :: u, hu, _ => by
      have hc : c ≠ '"' := fun h => hu (h ▸ List.mem_cons_self)
      have hu' : '"' ∉ u := fun h => hu (List.mem_cons_of_mem _ h)
      have ih : Reads true (u ++ s) := by
        rcases eq_or_ne u [] with rfl | hnil
        · exact hs
        · exact (Reads.append hs hu' hnil).weaken
      exact ih.cons hc

theorem Reads.of_check {first : Bool} {u s : Text} (hcond : (!first && startsNonSpace u) = false)
    (h : Reads (startsNonSpace u) s) : Reads first s := by
  cases first with
  | true => exact h.weaken
  | false => rwa [show startsNonSpace u = false from hcond] at h

/-- Segments the loop accepts, joined by quotes again, are a sequence of items. -/
theorem reads_of_parseSegments : ∀ {segments : List Text} {first : Bool}
    {st : KargsMap × Option Text} {m : KargsMap}, segments.length % 2 = 1 →
    (∀ u ∈ segments, '"' ∉ u) → parseSegments first segments st = .ok m →
    Reads first (['"'].intercalate segments)
  | [u], first, st, m, _, hno, h => by
      have hnil : ∀ free, Reads free [] := fun _ => ⟨[], [], rfl, trivial, List.forall_mem_nil _⟩
      rw [List.intercalate_singleton]
      rcases eq_or_ne u [] with rfl | hu
      · exact hnil first
      · cases hcond : (!first && startsNonSpace u) with
        | true =>
          rw [parseSegments, if_pos hcond] at h
          exact absurd h nofun
        | false =>
          have hread := (hnil true).append (hno u List.mem_cons_self) hu
          rw [List.append_nil] at hread
          exact hread.of_check hcond
  | u :: q :: segments, first, st, m, hodd, hno, h => by
      obtain ⟨v, vs, rfl⟩ : ∃ v vs, segments = v :: vs :=
        List.exists_cons_of_ne_nil (by rintro rfl; simp at hodd)
      have hu := hno u List.mem_cons_self
      have hq := hno q (List.mem_cons_of_mem _ List.mem_cons_self)
      rw [parseSegments] at h
      cases hcond : (!first && startsNonSpace u) with
      | true =>
        rw [if_pos hcond] at h
        exact absurd h nofun
      | false =>
        cases hend : endsWith u "=" with
        | false =>
          simp only [hcond, hend, Bool.false_eq_true, if_false] at h
          exact absurd h nofun
        | true =>
          simp only [hcond, hend, Bool.false_eq_true, if_false, if_true] at h
          split at h
          · exact absurd h nofun
          · -- the segments behind the closing quote are items that start with white space
            obtain ⟨its, tail, hrest, hits, htail⟩ := reads_of_parseSegments
              (by simp only [List.length_cons] at hodd ⊢; omega)
              (fun w hw => hno w (List.mem_cons_of_mem _ (List.mem_cons_of_mem _ hw))) h
            obtain ⟨u₀, rfl⟩ := endsWith_iff.mp hend
            have hitem : Reads true
                ('=' :: '"' :: (q ++ '"' :: ['"'].intercalate (v :: vs))) :=
              ⟨([], .quoted [] q (List.forall_mem_nil _) hq) :: its, tail,
                by rw [hrest]; simp [renderItems, Item.text],
                ⟨List.forall_mem_nil _, fun _ => rfl, hits⟩, htail⟩
            have hjoin : ['"'].intercalate ((u₀ ++ "=".toList) :: q :: v :: vs)
                = u₀ ++ '=' :: '"' :: (q ++ '"' :: ['"'].intercalate (v :: vs)) := by
              simp [List.intercalate]
            rw [hjoin]
            rcases eq_or_ne u₀ [] with rfl | hu₀
            · exact Reads.of_check hcond hitem
            · have hstart : startsNonSpace (u₀ ++ "=".toList) = startsNonSpace u₀ := by
                cases u₀ with
                | nil => exact absurd rfl hu₀
                | cons c u₀ => rfl
              refine Reads.of_check hcond (hstart ▸ hitem.append ?_ hu₀)
              exact fun hc => hu (List.mem_append_left _ hc)

/-- A line is accepted only if it is a sequence of items with trailing white space. -/
theorem reads_of_parse {cmdline : Text} {m : KargsMap} (h : parseKernelCmdline cmdline = .ok m) :
    Reads true cmdline := by
  rw [parseKernelCmdline] at h
  split at h
  · exact absurd h (by simp)
  · next hodd =>
    have hread := reads_of_parseSegments (Nat.mod_two_ne_zero.mp hodd)
      (fun u hu => not_mem_of_mem_splitOn '"' hu) h
    rwa [List.intercalate_splitOn] at hread

/-! ### The parameters of a sequence of items -/

theorem splitOutside_append {inQuote : Bool} (s : Text) : ∀ {t : Text},
    (∀ c ∈ t, c ≠ '"' ∧ (inQuote ∨ isSpace c = false)) →
    splitOutside inQuote (t ++ s) = (splitOutside inQuote s).modifyHead (t ++ ·)
  | [], _ => (List.modifyHead_id ▸ rfl : splitOutside inQuote s = _)
  | c :: t, h => by
      obtain ⟨hq, hs⟩ := h c List.mem_cons_self
      have hcond : (!inQuote && isSpace c) = false := by
        rcases hs with rfl | hs
        · rfl
        · rw [hs, Bool.and_false]
      rw [List.cons_append, splitOutside, if_neg hq, hcond, if_neg (by simp),
        splitOutside_append s fun d hd => h d (List.mem_cons_of_mem _ hd), List.modifyHead_modifyHead]
      rfl

/-- No item is split. -/
theorem splitOutside_text (i : Item) (s : Text) :
    splitOutside false (i.text ++ s) = (splitOutside false s).modifyHead (i.text ++ ·) := by
  have hplain : ∀ {t : Text}, Plain t → ∀ c ∈ t, c ≠ '"' ∧ ((false : Bool) ∨ isSpace c = false) :=
    fun ht c hc => ⟨(ht c hc).2, Or.inr (ht c hc).1⟩
  cases i with
  | bare t ht hne => exact splitOutside_append s (hplain ht)
  | quoted t q ht hq =>
    have hin : ∀ c ∈ q, c ≠ '"' ∧ ((true : Bool) ∨ isSpace c = false) := fun c hc =>
      ⟨fun h => hq (h ▸ hc), Or.inl rfl⟩
    have htext : (Item.quoted t q ht hq).text ++ s = t ++ ('=' :: '"' :: (q ++ '"' :: s)) := by
      simp [Item.text]
    rw [htext, splitOutside_append _ (hplain ht), splitOutside, if_neg (by decide),
      if_neg (by decide), splitOutside, if_pos rfl, Bool.not_false, splitOutside_append _ hin,
      splitOutside, if_pos rfl]
    simp only [List.modifyHead_modifyHead, Bool.not_true]
    congr 1
    funext u
    simp [Item.text]

theorem parameters_space {ws : Text} (h : Spaces ws) (s : Text) :
    parameters (ws ++ s) = parameters s := by
  induction ws with
  | nil => rfl
  | cons c ws ih =>
    have hc : isSpace c := h c List.mem_cons_self
    have hq : c ≠ '"' := by rintro rfl; exact absurd hc (by decide)
    rw [List.cons_append, parameters, splitOutside, if_neg hq, if_pos (by simp [hc]),
      List.filter_cons_of_neg (by simp)]
    exact ih fun d hd => h d (List.mem_cons_of_mem _ hd)

/-- An item in front of white space or of nothing is one parameter. -/
theorem parameters_text (i : Item) {s : Text} (hs : startsNonSpace s = false) :
    parameters (i.text ++ s) = i.text :: parameters s := by
  have hhead : ∃ rest, splitOutside false s = [] :: rest := by
    cases s with
    | nil => exact ⟨[], rfl⟩
    | cons c s =>
      have hc : isSpace c = true := by simpa [startsNonSpace] using hs
      have hq : c ≠ '"' := by rintro rfl; exact absurd hc (by decide)
      exact ⟨_, by rw [splitOutside, if_neg hq, if_pos (by simp [hc])]⟩
  obtain ⟨rest, hrest⟩ := hhead
  rw [parameters, splitOutside_text, parameters, hrest, List.modifyHead_cons, List.append_nil,
    List.filter_cons_of_pos (by simpa using i.text_ne_nil), List.filter_cons_of_neg (by simp)]

theorem startsNonSpace_render {its : List (Text × Item)} {tail : Text} (hits : Gapped false its)
    (htail : Spaces tail) : startsNonSpace (renderItems its ++ tail) = false := by
  have hspace : ∀ {ws t : Text}, Spaces ws → ws ≠ [] → startsNonSpace (ws ++ t) = false := by
    intro ws t hws hne
    obtain ⟨c, ws, rfl⟩ := List.exists_cons_of_ne_nil hne
    simp [startsNonSpace, hws c]
  cases its with
  | nil =>
    rcases eq_or_ne tail [] with rfl | hne
    · rfl
    · simpa [renderItems] using hspace (t := []) htail hne
  | cons e its =>
    obtain ⟨ws, i⟩ := e
    have hne : ws ≠ [] := fun h => absurd (hits.2.1 h) (by simp)
    have hsplit : renderItems ((ws, i) :: its) ++ tail
        = ws ++ (i.text ++ (renderItems its ++ tail)) := by simp [renderItems]
    rw [hsplit]
    exact hspace hits.1 hne

theorem parameters_render : ∀ {its : List (Text × Item)} {free : Bool} {tail : Text},
    Gapped free its → Spaces tail →
    parameters (renderItems its ++ tail) = its.map fun e => e.2.text
  | [], _, tail, _, htail => by
      have := parameters_space htail []
      rw [List.append_nil] at this
      exact this
  | (ws, i) :: its, _, tail, ⟨hws, _, hits⟩, htail => by
      have hsplit : renderItems ((ws, i) :: its) ++ tail
          = ws ++ (i.text ++ (renderItems its ++ tail)) := by simp [renderItems]
      rw [hsplit, parameters_space hws, parameters_text i (startsNonSpace_render hits htail),
        parameters_render hits htail]
      rfl

/-! ### The two readings of an item -/

theorem unquote_of_head {v : Text} (h : v.head? ≠ some '"') : unquote v = v :=
  if_neg fun hv => h hv.2.1

theorem unquote_quoted (q : Text) : unquote ('"' :: (q ++ ['"'])) = q := by
  have hlast : ('"' :: (q ++ ['"'])).getLast? = some '"' := by
    rw [← List.cons_append, List.getLast?_concat]
  rw [unquote, if_pos ⟨by simp, rfl, hlast⟩]
  simp

theorem splitKarg_append {k : Text} (h : '=' ∉ k) (v : Text) :
    splitKarg (k ++ '=' :: v) = (replace k "-" "_", some v) := by
  rw [splitKarg, partition_append h]; rfl

theorem splitKarg_of_not_mem {k : Text} (h : '=' ∉ k) :
    splitKarg k = (replace k "-" "_", none) := by
  rw [splitKarg, partition_of_not_mem h]; rfl

/-- The two readings agree on the name of an item, and on its value unless it is misread. -/
theorem readParameter_text (i : Item) : i.karg.1 = (readParameter i.text).1 ∧
    (i.karg.2 = (readParameter i.text).2 ↔ misread i.text = false) := by
  cases i with
  | bare t ht hne =>
    have hmis : misread t = false := by simp [misread, ht.not_mem]
    simp only [Item.karg, Item.text, readParameter, hmis, true_and, iff_true]
    by_cases heq : '=' ∈ t
    · obtain ⟨n, v, rfl, hn⟩ := List.eq_append_cons_of_mem heq
      rw [splitKarg_append hn, Option.map_some, unquote_of_head]
      exact fun hv => ht.not_mem (List.mem_append_right _
        (List.mem_cons_of_mem _ (List.mem_of_mem_head? hv)))
    · rw [splitKarg_of_not_mem heq, Option.map_none]
  | quoted t q ht hq =>
    have htake : ((Item.quoted t q ht hq).text.takeWhile (· ≠ '"')).dropLast = t := by
      have hplain : ∀ c ∈ t ++ ['='], decide (c ≠ '"') = true := by
        intro c hc
        rcases List.mem_append.mp hc with hc | hc
        · exact decide_eq_true (ht c hc).2
        · rw [List.mem_singleton.mp hc]; rfl
      have hsplit : (Item.quoted t q ht hq).text = (t ++ ['=']) ++ '"' :: (q ++ ['"']) := by
        simp [Item.text]
      rw [hsplit, List.takeWhile_append_of_pos hplain, List.takeWhile_cons_of_neg (by simp)]
      simp
    have hmis : misread (Item.quoted t q ht hq).text = t.contains '=' := by
      rw [misread, htake]
      simp [Item.text]
    rw [hmis]
    simp only [Item.karg, Item.text, readParameter]
    by_cases heq : '=' ∈ t
    · -- the reading keeps `v="q"`, the code only `q`
      obtain ⟨n, v, rfl, hn⟩ := List.eq_append_cons_of_mem heq
      have hhead : (v ++ '=' :: '"' :: (q ++ ['"'])).head? ≠ some '"' := by
        cases v with
        | nil => simp
        | cons c v => simpa using (ht c (by simp)).2
      have hne : q ≠ v ++ '=' :: '"' :: (q ++ ['"']) := fun h => by
        have := congrArg List.length h
        simp at this
        omega
      simp only [List.append_assoc, List.cons_append, splitKarg_append hn, Option.map_some,
        unquote_of_head hhead, Option.some.injEq, true_and]
      simp [hne]
    · have hkey : splitKarg (t ++ ['=']) = (replace t "-" "_", some []) := splitKarg_append heq []
      rw [hkey, splitKarg_append heq, Option.map_some, unquote_quoted]
      simp [heq]

/-- CORRECT: the map of an accepted line is the last-wins map of its parameters exactly when no
    parameter that decides its name has an `=` before the one its quoted part follows. -/
theorem parse_eq_reference_iff {cmdline : Text} {m : KargsMap}
    (h : parseKernelCmdline cmdline = .ok m) :
    (∀ name, m.get name = referenceMap cmdline name)
      ↔ ∀ pre p post, parameters cmdline = pre ++ p :: post →
          (readParameter p).1 ∉ post.map (fun p' => (readParameter p').1) → misread p = false := by
  obtain ⟨its, tail, rfl, hits, htail⟩ := reads_of_parse h
  rw [parse_render hits htail] at h
  obtain rfl := Except.ok.inj h
  have hparams := parameters_render hits htail
  have hread := lastWins_map_eq_iff (f := fun e : Text × Item => e.2.karg)
    (g := fun e => readParameter e.2.text) (fun e => (readParameter_text e.2).1) its
  have hkeys : (fun e : Text × Item => e.2.karg.1) = fun e => (readParameter e.2.text).1 :=
    funext fun e => (readParameter_text e.2).1
  simp only [Dict.get_ofList, referenceMap, hparams, List.map_map, Function.comp_def]
  refine hread.trans ⟨fun hall pre p post hl hp => ?_, fun hall pre e post hl hp => ?_⟩
  · obtain ⟨pre', rest, rfl, rfl, hrest⟩ := List.map_eq_append_iff.mp hl
    obtain ⟨e, post', rfl, rfl, rfl⟩ := List.map_eq_cons_iff.mp hrest
    rw [List.map_map] at hp
    exact (readParameter_text e.2).2.mp (hall pre' e post' rfl (by
      rw [hkeys, (readParameter_text e.2).1]; exact hp))
  · rw [(readParameter_text e.2).2]
    refine hall (pre.map fun e => e.2.text) e.2.text (post.map fun e => e.2.text) (by simp [hl]) ?_
    rw [List.map_map]
    rw [hkeys, (readParameter_text e.2).1] at hp
    exact hp

/-- No parameter of `ro root="LABEL=my disk"` is misread. -/
theorem parse_eq_reference_root : ∃ m, parseKernelCmdline "ro root=\"LABEL=my disk\"" = .ok m ∧
    ∀ name, m.get name = referenceMap "ro root=\"LABEL=my disk\"" name := by
  have hparse : parseKernelCmdline "ro root=\"LABEL=my disk\""
      = .ok (Dict.ofList [("ro", none), ("root", some "LABEL=my disk")]) := by decide +kernel
  refine ⟨_, hparse, (parse_eq_reference_iff hparse).mpr fun pre p post hl _ => ?_⟩
  have hall : ∀ q ∈ parameters "ro root=\"LABEL=my disk\"", misread q = false := by decide
  exact hall p (hl ▸ List.mem_append_right pre List.mem_cons_self)

/-- The text between the first `=` and the quoted part of `a=b="c d"` is lost. -/
theorem parse_drops_before_quote : ∃ m, parseKernelCmdline "a=b=\"c d\"" = .ok m ∧
    m.get "a" = some (some ("c d" : Text)) ∧
    referenceMap "a=b=\"c d\"" "a" = some (some ("b=\"c d\"" : Text)) :=
  ⟨Dict.ofList [("a", some "c d")], by decide +kernel, by decide, by decide⟩

/-! ### Rendered parameter lists -/

/-- The value of a kernel parameter as it is written. -/
inductive ParamValue where
  | none
  | bare (v : Text) (plain : Plain v)
  | quoted (v : Text) (inner : '"' ∉ v)

/-- A kernel parameter. -/
structure Param where
  name : Text
  value : ParamValue
  name_ne : name ≠ []
  name_plain : Plain name
  name_eq : '=' ∉ name

namespace Param

/-- The parameter as it stands on the command line. -/
def render (p : Param) : Text :=
  match p.value with
  | .none => p.name
  | .bare v _ => p.name ++ '=' :: v
  | .quoted v _ => p.name ++ '=' :: '"' :: (v ++ ['"'])

/-- What the parameter means: the normalised name and the value. -/
def meaning (p : Param) : Text × Option Text :=
  (replace p.name "-" "_", match p.value with
    | .none => Option.none
    | .bare v _ => some v
    | .quoted v _ => some v)

/-- The parameter as an item. -/
def item (p : Param) : Item :=
  match p.value with
  | .none => .bare p.name p.name_plain p.name_ne
  | .bare v hv => .bare (p.name ++ '=' :: v)
      (fun c hc => by
        rcases List.mem_append.mp hc with hc | hc
        · exact p.name_plain c hc
        · rcases List.mem_cons.mp hc with rfl | hc
          · exact ⟨by decide, by decide⟩
          · exact hv c hc)
      (List.append_ne_nil_of_left_ne_nil p.name_ne _)
  | .quoted v hv => .quoted p.name v p.name_plain hv

theorem text_item (p : Param) : p.item.text = p.render := by
  rcases p with ⟨name, _ | _ | _, _, _, _⟩ <;> rfl

theorem karg_item (p : Param) : p.item.karg = p.meaning := by
  rcases p with ⟨name, _ | ⟨v, hv⟩ | ⟨v, hv⟩, hne, hp, heq⟩
  · exact splitKarg_of_not_mem heq
  · exact splitKarg_append heq v
  · simp only [item, Item.karg, meaning, splitKarg_append heq]

end Param

/-- The parameters, each behind its white space. -/
def renderParams (ps : List (Text × Param)) : Text := ps.flatMap fun e => e.1 ++ e.2.render

theorem gapped_of_forall {ι : Type} : ∀ {l : List (Text × ι)}, (∀ e ∈ l, Spaces e.1) →
    (∀ e ∈ l, e.1 ≠ []) → ∀ {free : Bool}, Gapped free l
  | [], _, _, _ => trivial
  | e :: _, hs, hne, _ => ⟨hs e List.mem_cons_self, fun h => absurd h (hne e List.mem_cons_self),
      gapped_of_forall (fun e he => hs e (List.mem_cons_of_mem _ he))
        fun e he => hne e (List.mem_cons_of_mem _ he)⟩

/-- CORRECT: a rendered list of parameters, with any white space between, before and behind them, is
    accepted, and the map is the last-wins map of their meanings. -/
theorem parse_renderParams {ps : List (Text × Param)} {tail : Text} (hspaces : ∀ e ∈ ps, Spaces e.1)
    (hgaps : ∀ e ∈ ps.tail, e.1 ≠ []) (htail : Spaces tail) :
    parseKernelCmdline (renderParams ps ++ tail) = .ok (Dict.ofList (ps.map fun e => e.2.meaning)) ∧
      ∀ name, (Dict.ofList (ps.map fun e => e.2.meaning)).get name
        = lastWins (ps.map fun e => e.2.meaning) name := by
  have hits : Gapped true (ps.map fun e => (e.1, e.2.item)) := by
    cases ps with
    | nil => trivial
    | cons e ps =>
      refine ⟨hspaces e List.mem_cons_self, fun _ => rfl, gapped_of_forall ?_ ?_⟩
      · intro e' he'
        obtain ⟨d, hd, rfl⟩ := List.mem_map.mp he'
        exact hspaces d (List.mem_cons_of_mem _ hd)
      · intro e' he'
        obtain ⟨d, hd, rfl⟩ := List.mem_map.mp he'
        exact hgaps d hd
  have hrender : renderItems (ps.map fun e => (e.1, e.2.item)) = renderParams ps := by
    rw [renderItems, renderParams, List.flatMap_map]
    exact List.flatMap_congr fun e _ => by rw [e.2.text_item]
  have hkarg : (ps.map fun e => (e.1, e.2.item)).map (fun e => e.2.karg)
      = ps.map fun e => e.2.meaning := by
    rw [List.map_map]
    exact List.map_congr_left fun e _ => e.2.karg_item
  refine ⟨?_, fun name => Dict.get_ofList _ name⟩
  rw [← hrender, parse_render hits htail, hkarg]

/-- A quoted argument spelled with `-`, overridden by a bare one spelled with `_`. -/
def overriding : List (Text × Param) :=
  [(" ", ⟨"a-b", .quoted "x y" (by decide), by decide, by decide, by decide⟩),
    ("\t", ⟨"a_b", .bare "z" (by decide), by decide, by decide, by decide⟩)]

theorem parse_overriding : parseKernelCmdline (renderParams overriding ++ "\n")
    = .ok (Dict.ofList [("a_b", some "x y"), ("a_b", some "z")]) :=
  (parse_renderParams (by decide) (by decide) (by decide)).1

end Kargs
