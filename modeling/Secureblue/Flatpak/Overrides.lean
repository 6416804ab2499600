import Secureblue.KeyFile
import Secureblue.Flatpak.Harden

/-! What `harden_flatpak_app` (`harden_flatpak.py`) leaves in effect for an app.

    What the global override file already gives is not repeated in the file of the app; instead the
    lines there that take it back are edited out, by their text. Flatpak reads both files as key files
    and lays the app's over the global one (`Context`, `effectiveEnv`, `effectiveHostOs`).
    `hardenFlatpakApp_iff` says exactly for which lines of the files the app ends up hardened. -/

namespace Flatpak
open Py

/-! ### The code -/

def hostOsNegation : Text := "!host-os"

/-- How much of a text `!host-os(?:;|$)` matches at its start. -/
def negationLength (s : Text) : Option ℕ :=
  if startsWith s hostOsNegation then
    match s.drop hostOsNegation.length with
    | [] => some hostOsNegation.length
    | ['\n'] => some hostOsNegation.length
    | ';' :: _ => some (hostOsNegation.length + 1)
    | _ => none
  else none

/-- `re.subn(r"!host-os(?:;|$)", "", s)`: scanning from the left, `skip` characters of the last match
    still to be passed over. -/
def subNegations : ℕ → Text → Text × ℕ
  | _, [] => ([], 0)
  | skip + 1, _ :: s => subNegations skip s
  | 0, c :: s =>
    match negationLength (c :: s) with
    | some n => ((subNegations (n - 1) s).1, (subNegations (n - 1) s).2 + 1)
    | none => (c :: (subNegations 0 s).1, (subNegations 0 s).2)

/-- The loop body of `remove_overrides_from_file`, on `file_modified` and `modified_contents`. -/
def removeOverridesStep (noHostOs ldPreload : Bool) (st : Bool × Text) (line : Text) : Bool × Text :=
  if noHostOs ∧ startsWith line filesystemsKey then
    let (line, subs) := subNegations 0 line
    (if subs > 0 then true else st.1, st.2 ++ line)
  else if ldPreload ∧ startsWith line ldPreloadKey then (true, st.2)
  else (st.1, st.2 ++ line)

/-- `remove_overrides_from_file`: the content of the file afterwards -/
def removeOverridesFromFile (content : Text) (noHostOs ldPreload : Bool) : Text :=
  if ¬ noHostOs ∧ ¬ ldPreload then content
  else
    let (fileModified, modifiedContents) :=
      (fileLines content).foldl (removeOverridesStep noHostOs ldPreload) (false, [])
    if fileModified then modifiedContents else content

/-- An option of `flatpak override`. -/
inductive OverrideOption where
  | filesystem (entry : Text)
  | env (name value : Text)
  deriving DecidableEq

def hostOsRo : Text := "host-os:ro"

/-- `harden_flatpak_app`, on the contents of the two files: the content it leaves in the app's file, and
    the options with which it then runs `flatpak override`. -/
def hardenFlatpakApp (globalFile appFile : Option Text) (hmallocPath : Text) :
    Option Text × List OverrideOption :=
  let (globalHostOsAccess, globalLdPreload) := currentOverrideStatus globalFile hmallocPath
  let appFile := appFile.map fun content =>
    removeOverridesFromFile content globalHostOsAccess globalLdPreload
  let overridesToApply := if ¬ globalHostOsAccess then [.filesystem hostOsRo] else []
  let overridesToApply :=
    if ¬ globalLdPreload then overridesToApply ++ [.env ldPreload hmallocPath] else overridesToApply
  (appFile, overridesToApply)

/-! ### What flatpak makes of the files -/

def contextSection : Text := "Context"
def hostOsName : Text := "host-os"
def filesystemsName : Text := "filesystems"
def unsetName : Text := "unset-environment"

/-- What an override file says. -/
structure Context where
  environment : Text → Option Text
  unset : List Text
  filesystems : List Text

/-- The items of a list in a key file. -/
def listOf (key : Text) (lines : List Text) : List Text :=
  ((KeyFile.value contextSection key lines).map listItems).getD []

/-- The lines of a file that may be missing. -/
def linesOf (file : Option Text) : List Text := (file.map fileLines).getD []

def readContext (lines : List Text) : Context where
  environment name := KeyFile.value environmentSection name lines
  unset := listOf unsetName lines
  filesystems := listOf filesystemsName lines

/-- What `flatpak override` changes in the file of an app. -/
def OverrideOption.apply (context : Context) : OverrideOption → Context
  | .filesystem entry => { context with
      filesystems := (context.filesystems.filter fun e =>
        decide ((Filesystem.ofPerm e).canonPath ≠ (Filesystem.ofPerm entry).canonPath)) ++ [entry] }
  | .env name value => { context with
      environment := fun n => if n = name then some value else context.environment n
      unset := context.unset.filter fun n => decide (n ≠ name) }

/-- The context of the app once the script is through. -/
def hardenedContext (globalFile appFile : Option Text) (hmallocPath : Text) : Context :=
  let (appFile, overrides) := hardenFlatpakApp globalFile appFile hmallocPath
  overrides.foldl OverrideOption.apply (readContext (linesOf appFile))

/-- A variable as one file sets it. -/
def Context.env (context : Context) (name : Text) : Option Text :=
  if name ∈ context.unset then none else context.environment name

/-- A variable in effect: unset or set by the file of the app, else by the global file. -/
def effectiveEnv (globalContext appContext : Context) (name : Text) : Option Text :=
  if name ∈ appContext.unset then none
  else (appContext.environment name).or (globalContext.env name)

/-- Whether a list of filesystems grants (or denies) access to the system; the last entry counts. -/
def hostOsAccess (filesystems : List Text) : Option Bool :=
  ((filesystems.map Filesystem.ofPerm).filter fun perm => decide (perm.canonPath = hostOsName)).getLast?.map
    fun perm => !perm.negated

def effectiveHostOs (globalContext appContext : Context) : Option Bool :=
  (hostOsAccess appContext.filesystems).or (hostOsAccess globalContext.filesystems)

/-- The library is preloaded, and the files it needs can be read. -/
structure Hardened (hmallocPath : Text) (globalContext appContext : Context) : Prop where
  ldPreload : ∃ value, effectiveEnv globalContext appContext ldPreload = some value ∧ hmallocPath <:+: value
  hostOs : effectiveHostOs globalContext appContext = some true

/-! ### The entries that are deleted -/

/-- What is left of a list when each entry loses a `!host-os` at its end, and with it the separator
    behind: the rest of such an entry, `run`, runs into the next one. -/
def unnegated : Text → List Text → List Text
  | run, [] => [run]
  | run, [e] => [run ++ removeSuffix e hostOsNegation]
  | run, e :: e' :: es =>
    if endsWith e hostOsNegation then unnegated (run ++ removeSuffix e hostOsNegation) (e' :: es)
    else (run ++ e) :: unnegated [] (e' :: es)

/-- A value of `filesystems` without these. -/
def withoutNegations (value : Text) : Text := [';'].intercalate (unnegated [] (value.splitOn ';'))

theorem removeSuffix_of_not_endsWith {s p : Text} (h : ¬ endsWith s p) : removeSuffix s p = s :=
  if_neg h

theorem mem_of_mem_removeSuffix {s p : Text} {c : Char} (h : c ∈ removeSuffix s p) : c ∈ s := by
  rw [removeSuffix] at h
  split at h
  · exact List.mem_of_mem_take h
  · exact h

theorem unnegated_ne_nil : ∀ (es : List Text) (run : Text), unnegated run es ≠ []
  | [], _ => List.cons_ne_nil _ _
  | [_], _ => List.cons_ne_nil _ _
  | e :: e' :: es, run => by
      rw [unnegated]
      split
      · exact unnegated_ne_nil (e' :: es) _
      · exact List.cons_ne_nil _ _

theorem mem_of_mem_unnegated {c : Char} : ∀ {es : List Text} {run e : Text}, e ∈ unnegated run es →
    c ∈ e → c ∈ run ∨ ∃ e ∈ es, c ∈ e
  | [], run, e, h, hc => .inl (List.mem_singleton.mp h ▸ hc)
  | [e'], run, e, h, hc => by
      rw [unnegated, List.mem_singleton] at h
      rw [h] at hc
      exact (List.mem_append.mp hc).imp_right fun hc => ⟨e', List.mem_cons_self, mem_of_mem_removeSuffix hc⟩
  | e' :: e'' :: es, run, e, h, hc => by
      have hrest : (∃ e ∈ e'' :: es, c ∈ e) → ∃ e ∈ e' :: e'' :: es, c ∈ e := fun ⟨e, he, hc⟩ =>
        ⟨e, List.mem_cons_of_mem _ he, hc⟩
      rw [unnegated] at h
      split at h
      · rcases mem_of_mem_unnegated h hc with hc | hc
        · exact (List.mem_append.mp hc).imp_right fun hc =>
            ⟨e', List.mem_cons_self, mem_of_mem_removeSuffix hc⟩
        · exact .inr (hrest hc)
      · rcases List.mem_cons.mp h with rfl | h
        · exact (List.mem_append.mp hc).imp_right fun hc => ⟨e', List.mem_cons_self, hc⟩
        · exact .inr (hrest ((mem_of_mem_unnegated h hc).resolve_left List.not_mem_nil))

theorem not_mem_withoutNegations {c : Char} {value : Text} (hsep : c ≠ ';') (h : c ∉ value) :
    c ∉ withoutNegations value := by
  intro hmem
  rcases mem_join hmem with heq | ⟨e, he, hc⟩
  · exact hsep heq
  · obtain ⟨e', he', hc'⟩ := (mem_of_mem_unnegated he hc).resolve_left List.not_mem_nil
    exact h (mem_of_mem_splitOn hc' he')

theorem filter_unnegated : ∀ {es : List Text},
    (∀ e ∈ es, endsWith e hostOsNegation → e = hostOsNegation) →
      (unnegated [] es).filter (fun e => decide (e ≠ []))
        = (es.filter fun e => decide (e ≠ [])).filter fun e => decide (e ≠ hostOsNegation)
  | [], _ => rfl
  | [e], h => by
      rw [unnegated, List.nil_append]
      by_cases he : e = hostOsNegation
      · rw [he]
        rfl
      · rw [removeSuffix_of_not_endsWith fun hends => he (h e List.mem_cons_self hends)]
        refine (List.filter_eq_self.mpr fun e' he' => decide_eq_true ?_).symm
        rw [List.mem_singleton.mp (List.mem_of_mem_filter he')]
        exact he
  | e :: e' :: es, h => by
      have ih := filter_unnegated fun e he => h e (List.mem_cons_of_mem _ he)
      rw [unnegated]
      split
      · next hends =>
        obtain rfl := h e List.mem_cons_self hends
        exact ih
      · next hends =>
        have he : e ≠ hostOsNegation := by
          rintro rfl
          exact hends (endsWith_iff.mpr List.suffix_rfl)
        rw [List.nil_append, List.filter_cons (x := e), List.filter_cons (x := e), ih]
        split
        · rw [List.filter_cons (x := e), if_pos (decide_eq_true he)]
        · rfl

/-- In a list where `!host-os` ends no other entry, it is taken out and the others stay. -/
theorem listItems_withoutNegations {value : Text}
    (h : ∀ e ∈ value.splitOn ';', endsWith e hostOsNegation → e = hostOsNegation) :
    listItems (withoutNegations value) = (listItems value).filter fun e => decide (e ≠ hostOsNegation) := by
  have hsep : ∀ e ∈ unnegated [] (value.splitOn ';'), ';' ∉ e := by
    intro e he hmem
    obtain ⟨e', he', hmem'⟩ := (mem_of_mem_unnegated he hmem).resolve_left List.not_mem_nil
    exact not_mem_of_mem_splitOn ';' he' hmem'
  rw [listItems, withoutNegations, List.splitOn_intercalate _ hsep (unnegated_ne_nil _ _)]
  exact filter_unnegated h

theorem subNegations_drop : ∀ (n : ℕ) (s : Text), subNegations n s = subNegations 0 (s.drop n)
  | 0, _ => rfl
  | _ + 1, [] => rfl
  | n + 1, _ :: s => subNegations_drop n s

theorem subNegations_keep {c : Char} {s : Text} (h : negationLength (c :: s) = none) :
    (subNegations 0 (c :: s)).1 = c :: (subNegations 0 s).1 := by
  rw [subNegations, h]

/-- Nothing is deleted before the first `!`. -/
theorem subNegations_append {t : Text} (h : '!' ∉ t) (s : Text) :
    (subNegations 0 (t ++ s)).1 = t ++ (subNegations 0 s).1 := by
  induction t with
  | nil => rfl
  | cons c t ih =>
    obtain ⟨hc, ht⟩ : '!' ≠ c ∧ '!' ∉ t := by simpa using h
    rw [List.cons_append, subNegations_keep, ih ht, List.cons_append]
    rw [negationLength, if_neg]
    intro hstart
    obtain ⟨u, hu⟩ := startsWith_iff.mp hstart
    exact hc (List.cons_eq_cons.mp hu).1

/-- What may follow an entry: a separator, or the end of the line. -/
def Stops (stop : Text) : Prop := stop = [] ∨ stop = ['\n'] ∨ stop.head? = some ';'

/-- Where an entry is the negation, it is matched, with its separator. -/
theorem subNegations_negation {stop : Text} (h : Stops stop) :
    (subNegations 0 (hostOsNegation ++ stop)).1
      = if stop.head? = some ';' then (subNegations 0 stop.tail).1 else stop := by
  have hlength : negationLength (hostOsNegation ++ stop) = some (hostOsNegation.length +
      if stop.head? = some ';' then 1 else 0) := by
    rw [negationLength, if_pos (startsWith_iff.mpr (List.prefix_append ..)), List.drop_left]
    rcases h with rfl | rfl | h
    · rfl
    · rfl
    · obtain ⟨t, rfl⟩ := List.head?_eq_some_iff.mp h
      rfl
  have hcons : hostOsNegation ++ stop = '!' :: (hostOsNegation.tail ++ stop) := rfl
  rw [hcons] at hlength ⊢
  rw [subNegations, hlength, subNegations_drop]
  rcases h with rfl | rfl | h
  · rfl
  · rfl
  · obtain ⟨t, rfl⟩ := List.head?_eq_some_iff.mp h
    rfl

/-- Elsewhere in an entry nothing is matched. -/
theorem negationLength_eq_none {e stop : Text} (he : ';' ∉ e ∧ '\n' ∉ e) (hne : e ≠ hostOsNegation)
    (hstop : Stops stop) : negationLength (e ++ stop) = none := by
  rw [negationLength]
  split
  · next hstart =>
    have hprefix : hostOsNegation <+: e := by
      rcases List.prefix_or_prefix_of_prefix (startsWith_iff.mp hstart) (List.prefix_append e stop)
        with h | ⟨t, ht⟩
      · exact h
      · -- the rest of the negation would have to start like what follows the entry
        cases t with
        | nil => rw [← ht, List.append_nil]
        | cons d t =>
          have hd : d ∈ hostOsNegation := ht ▸ List.mem_append_right e List.mem_cons_self
          rw [← ht] at hstart
          obtain ⟨u, hu⟩ := (List.prefix_append_right_inj e).mp (startsWith_iff.mp hstart)
          rw [← hu] at hstop
          rcases hstop with h | h | h
          · exact nomatch h
          · rw [(List.cons_eq_cons.mp h).1] at hd
            exact absurd hd (by decide)
          · rw [Option.some.inj h] at hd
            exact absurd hd (by decide)
    obtain ⟨t, rfl⟩ := hprefix
    cases t with
    | nil => exact absurd (List.append_nil _) hne
    | cons d t =>
      obtain ⟨hd, hd'⟩ : d ≠ ';' ∧ d ≠ '\n' := by
        constructor
        · rintro rfl
          exact he.1 (by simp)
        · rintro rfl
          exact he.2 (by simp)
      rw [List.append_assoc, List.drop_left, List.cons_append]
      split
      · next h => exact nomatch h
      · next h => exact absurd (List.cons_eq_cons.mp h).1 hd'
      · next h => exact absurd (List.cons_eq_cons.mp h).1 hd
      · rfl
  · rfl

/-- Of an entry, a `!host-os` at its end is deleted, together with the separator behind. -/
theorem subNegations_entry {stop : Text} (hstop : Stops stop) :
    ∀ {e : Text}, ';' ∉ e ∧ '\n' ∉ e → (subNegations 0 (e ++ stop)).1
      = if endsWith e hostOsNegation then removeSuffix e hostOsNegation ++
          (if stop.head? = some ';' then (subNegations 0 stop.tail).1 else stop)
        else e ++ (subNegations 0 stop).1
  | [], _ => by rw [if_neg (by decide)]; rfl
  | c :: e, he => by
      have he' : ';' ∉ e ∧ '\n' ∉ e :=
        ⟨fun h => he.1 (List.mem_cons_of_mem c h), fun h => he.2 (List.mem_cons_of_mem c h)⟩
      rcases eq_or_ne (c :: e) hostOsNegation with heq | hne
      · rw [heq, subNegations_negation hstop, if_pos (endsWith_iff.mpr List.suffix_rfl)]
        rfl
      · have hends : endsWith (c :: e) hostOsNegation = endsWith e hostOsNegation := by
          rw [Bool.eq_iff_iff, endsWith_iff, endsWith_iff, List.suffix_cons_iff]
          exact or_iff_right (Ne.symm hne)
        have hnone : negationLength (c :: (e ++ stop)) = none := negationLength_eq_none he hne hstop
        rw [List.cons_append, subNegations_keep hnone, subNegations_entry hstop he', hends]
        split
        · next h =>
          obtain ⟨t, rfl⟩ := endsWith_iff.mp h
          have hcons : removeSuffix (c :: (t ++ hostOsNegation)) hostOsNegation = c :: t :=
            removeSuffix_append (c :: t) hostOsNegation
          rw [hcons, removeSuffix_append, List.cons_append]
        · rfl

theorem subNegations_join {stop : Text} (hstop : stop = [] ∨ stop = ['\n']) :
    ∀ {es : List Text}, es ≠ [] → (∀ e ∈ es, ';' ∉ e ∧ '\n' ∉ e) → ∀ run : Text,
      run ++ (subNegations 0 ([';'].intercalate es ++ stop)).1
        = [';'].intercalate (unnegated run es) ++ stop
  | [], hne, _, _ => absurd rfl hne
  | [e], _, h, run => by
      have hhead : stop.head? ≠ some ';' := by
        rcases hstop with rfl | rfl <;> decide
      have hself : (subNegations 0 stop).1 = stop := by
        rcases hstop with rfl | rfl <;> rfl
      have hstops : Stops stop := hstop.imp_right .inl
      rw [List.intercalate_singleton, subNegations_entry hstops (h e List.mem_cons_self), if_neg hhead,
        unnegated, List.intercalate_singleton, hself, List.append_assoc]
      split
      · rfl
      · next hends => rw [removeSuffix_of_not_endsWith hends]
  | e :: e' :: es, _, h, run => by
      have ih := subNegations_join hstop (List.cons_ne_nil e' es)
        (fun e he => h e (List.mem_cons_of_mem _ he))
      have hjoin : [';'].intercalate (e :: e' :: es) ++ stop
          = e ++ ';' :: ([';'].intercalate (e' :: es) ++ stop) := by
        rw [List.intercalate_cons_cons]
        simp only [List.append_assoc, List.cons_append, List.nil_append]
      rw [hjoin, subNegations_entry (.inr (.inr rfl)) (h e List.mem_cons_self), unnegated]
      split
      · rw [← ih, List.head?_cons, if_pos rfl, List.tail_cons, List.append_assoc]
      · have hkeep : negationLength (';' :: ([';'].intercalate (e' :: es) ++ stop)) = none := rfl
        have hrest := ih []
        rw [List.nil_append] at hrest
        rw [subNegations_keep hkeep, hrest, List.intercalate_cons_of_ne_nil (unnegated_ne_nil _ _)]
        simp only [List.append_assoc, List.cons_append, List.nil_append]

/-- The substitution in a line of `filesystems`. -/
theorem subNegations_line {value stop : Text} (hvalue : '\n' ∉ value) (hstop : stop = [] ∨ stop = ['\n']) :
    (subNegations 0 (filesystemsKey ++ (value ++ stop))).1
      = filesystemsKey ++ (withoutNegations value ++ stop) := by
  have hentries : ∀ e ∈ value.splitOn ';', ';' ∉ e ∧ '\n' ∉ e := fun e he =>
    ⟨not_mem_of_mem_splitOn ';' he, fun h => hvalue (mem_of_mem_splitOn h he)⟩
  have hjoin := subNegations_join hstop (List.splitOn_ne_nil ';' value) hentries []
  rw [List.intercalate_splitOn, List.nil_append] at hjoin
  rw [subNegations_append (by decide), hjoin, withoutNegations]

/-! ### The lines that are left -/

/-- What `remove_overrides_from_file` makes of a line. -/
def lineLeft (noHostOs ldPreload : Bool) (line : Text) : Option Text :=
  if noHostOs ∧ startsWith line filesystemsKey then some (subNegations 0 line).1
  else if ldPreload ∧ startsWith line ldPreloadKey then none
  else some line

theorem subNegations_eq_self : ∀ (n : ℕ) (s : Text), (subNegations n s).2 = 0 →
    (subNegations n s).1 = s.drop n
  | 0, [], _ => rfl
  | _ + 1, [], _ => rfl
  | n + 1, _ :: s, h => subNegations_eq_self n s h
  | 0, c :: s, h => by
      rw [subNegations] at h ⊢
      split at h
      · exact absurd h (Nat.succ_ne_zero _)
      · exact congrArg (c :: ·) (subNegations_eq_self 0 s h)

theorem mem_of_mem_subNegations {c : Char} : ∀ {n : ℕ} {s : Text}, c ∈ (subNegations n s).1 → c ∈ s
  | 0, [], h => h
  | _ + 1, [], h => h
  | _ + 1, d :: _, h => List.mem_cons_of_mem d (mem_of_mem_subNegations h)
  | 0, d :: s, h => by
      rw [subNegations] at h
      split at h
      · exact List.mem_cons_of_mem d (mem_of_mem_subNegations h)
      · rcases List.mem_cons.mp h with rfl | h
        · exact List.mem_cons_self
        · exact List.mem_cons_of_mem d (mem_of_mem_subNegations h)

/-- The loop collects what is left, and notices a change. -/
theorem foldl_removeOverridesStep (noHostOs ldPreload : Bool) :
    ∀ (lines : List Text) (st : Bool × Text),
      let st' := lines.foldl (removeOverridesStep noHostOs ldPreload) st
      st'.2 = st.2 ++ (lines.filterMap (lineLeft noHostOs ldPreload)).flatten ∧
        (st'.1 = false → st.1 = false ∧ lines.filterMap (lineLeft noHostOs ldPreload) = lines)
  | [], st => ⟨(List.append_nil _).symm, fun h => ⟨h, rfl⟩⟩
  | line :: lines, st => by
      have ih := foldl_removeOverridesStep noHostOs ldPreload lines
      intro st'
      obtain ⟨htext, hsame⟩ := ih (removeOverridesStep noHostOs ldPreload st line)
      change st'.2 = _ at htext
      change st'.1 = false → _ at hsame
      rw [htext]
      unfold removeOverridesStep at hsame ⊢
      by_cases hfs : noHostOs = true ∧ startsWith line filesystemsKey = true
      · have hleft : lineLeft noHostOs ldPreload line = some (subNegations 0 line).1 := if_pos hfs
        rw [if_pos hfs] at hsame ⊢
        rw [List.filterMap_cons_some hleft, List.flatten_cons]
        refine ⟨List.append_assoc .., fun h => ?_⟩
        obtain ⟨hst, hlines⟩ := hsame h
        dsimp only at hst
        split at hst
        · exact nomatch hst
        · next hsubs =>
          exact ⟨hst, by rw [subNegations_eq_self 0 line (Nat.eq_zero_of_not_pos hsubs), hlines]; rfl⟩
      · rw [if_neg hfs] at hsame ⊢
        by_cases hld : ldPreload = true ∧ startsWith line ldPreloadKey = true
        · have hleft : lineLeft noHostOs ldPreload line = none := by
            rw [lineLeft, if_neg hfs, if_pos hld]
          rw [if_pos hld] at hsame ⊢
          rw [List.filterMap_cons_none hleft]
          exact ⟨rfl, fun h => nomatch (hsame h).1⟩
        · have hleft : lineLeft noHostOs ldPreload line = some line := by
            rw [lineLeft, if_neg hfs, if_neg hld]
          rw [if_neg hld] at hsame ⊢
          rw [List.filterMap_cons_some hleft, List.flatten_cons]
          exact ⟨List.append_assoc .., fun h => ⟨(hsame h).1, by rw [(hsame h).2]⟩⟩

theorem startsWith_line {key l stop : Text} (hkey : '\n' ∉ key) (hstop : stop = [] ∨ stop = ['\n'])
    (h : startsWith (l ++ stop) key) : ∃ rest, l = key ++ rest := by
  have hprefix : key <+: l := by
    rw [startsWith_iff] at h
    rcases hstop with rfl | rfl
    · rwa [List.append_nil] at h
    · exact (List.prefix_concat_iff.mp h).resolve_left fun he => hkey (he ▸ by simp)
  exact hprefix.imp fun _ => Eq.symm

/-- A line stays a line. -/
theorem lineLeft_line {noHostOs ldPreload : Bool} {l l' stop : Text} (hl : '\n' ∉ l)
    (hstop : stop = [] ∨ stop = ['\n']) (h : lineLeft noHostOs ldPreload (l ++ stop) = some l') :
    ∃ m, '\n' ∉ m ∧ l' = m ++ stop ∧ (l ≠ [] → m ≠ []) := by
  rw [lineLeft] at h
  split at h
  · next hfs =>
    obtain ⟨value, rfl⟩ := startsWith_line (by decide) hstop hfs.2
    have hvalue : '\n' ∉ value := fun hn => hl (List.mem_append_right _ hn)
    have hline := subNegations_line hvalue hstop
    rw [List.append_assoc, hline, ← List.append_assoc] at h
    refine ⟨filesystemsKey ++ withoutNegations value, ?_, (Option.some.inj h).symm, fun _ => ?_⟩
    · rw [List.mem_append, not_or]
      exact ⟨by decide, not_mem_withoutNegations (by decide) hvalue⟩
    · exact List.append_ne_nil_of_left_ne_nil (by decide) _
  · split at h
    · exact nomatch h
    · exact ⟨l, hl, (Option.some.inj h).symm, id⟩

theorem mem_of_mem_lineLeft {noHostOs ldPreload : Bool} {l l' : Text} {c : Char}
    (h : lineLeft noHostOs ldPreload l = some l') (hc : c ∈ l') : c ∈ l := by
  rw [lineLeft] at h
  split at h
  · rw [← Option.some.inj h] at hc
    exact mem_of_mem_subNegations hc
  · split at h
    · exact nomatch h
    · exact Option.some.inj h ▸ hc

theorem fileLines_removeOverridesFromFile (content : Text) (noHostOs ldPreload : Bool) :
    fileLines (removeOverridesFromFile content noHostOs ldPreload)
      = (fileLines content).filterMap (lineLeft noHostOs ldPreload) := by
  rw [removeOverridesFromFile]
  split
  · next h =>
    have hid : lineLeft noHostOs ldPreload = some := by
      funext line
      rw [lineLeft, if_neg fun hfs => h.1 hfs.1, if_neg fun hld => h.2 hld.1]
    rw [hid, List.filterMap_some]
  · obtain ⟨htext, hsame⟩ := foldl_removeOverridesStep noHostOs ldPreload (fileLines content) (false, [])
    dsimp only at htext hsame ⊢
    split
    · have hlines : IsLines ((fileLines content).filterMap (lineLeft noHostOs ldPreload)) := by
        refine (isLines_keepLines _).filterMap (fun l l' hl h => ?_) fun l l' hl hne h => ?_
        · obtain ⟨m, hm, hl', -⟩ := lineLeft_line hl (.inr rfl) h
          exact ⟨m, hm, hl'⟩
        · obtain ⟨m, hm, hl', hmne⟩ := lineLeft_line hl (.inl rfl) ((List.append_nil l).symm ▸ h)
          rw [hl', List.append_nil]
          exact ⟨hm, hmne hne⟩
      have hreturn : '\r' ∉ ((fileLines content).filterMap (lineLeft noHostOs ldPreload)).flatten := by
        intro hmem
        obtain ⟨l', hl', hmem⟩ := List.mem_flatten.mp hmem
        obtain ⟨l, hl, h⟩ := List.mem_filterMap.mp hl'
        exact not_mem_universalNewlines content (mem_of_mem_keepLines hl (mem_of_mem_lineLeft h hmem))
      rw [htext, List.nil_append, fileLines, universalNewlines_eq_self hreturn, keepLines_flatten hlines]
    · next hmod => exact (hsame (Bool.eq_false_of_not_eq_true hmod)).2.symm

/-! ### The entries of the lines that are left -/

theorem entry_filesystems (rest : Text) :
    KeyFile.entry (filesystemsKey ++ rest) = some (filesystemsName, removeSuffix rest ['\n']) := by
  have h : filesystemsKey ++ rest = filesystemsName ++ '=' :: rest := rfl
  rw [h, KeyFile.entry_line (by decide) (by decide) (by decide)]

theorem entry_ldPreload (rest : Text) :
    KeyFile.entry (ldPreloadKey ++ rest) = some (ldPreload, removeSuffix rest ['\n']) := by
  have h : ldPreloadKey ++ rest = ldPreload ++ '=' :: rest := rfl
  rw [h, KeyFile.entry_line (by decide) (by decide) (by decide)]

theorem subNegations_filesystems (rest : Text) : (subNegations 0 (filesystemsKey ++ rest)).1
    = filesystemsKey ++ (subNegations 0 rest).1 := subNegations_append (by decide) rest

/-- The lines that are left are those of the same entries. -/
theorem keyLines_lineLeft (noHostOs ldPreload : Bool) (name key : Text) (lines : List Text) :
    KeyFile.keyLines name key (lines.filterMap (lineLeft noHostOs ldPreload))
      = (KeyFile.keyLines name key lines).filterMap (lineLeft noHostOs ldPreload) := by
  have hheader : ∀ rest, KeyFile.header (filesystemsKey ++ rest) = none := fun rest =>
    KeyFile.header_of_head (by decide) (by decide) _
  have hheader' : ∀ rest, KeyFile.header (ldPreloadKey ++ rest) = none := fun rest =>
    KeyFile.header_of_head (by decide) (by decide) _
  refine KeyFile.keyLines_filterMap (fun line line' h => ?_) (fun line h => ?_) (fun line line' h => ?_) ..
  · rw [lineLeft] at h
    split at h
    · next hfs =>
      obtain ⟨rest, rfl⟩ := startsWith_iff.mp hfs.2
      rw [subNegations_filesystems] at h
      rw [← Option.some.inj h, hheader, hheader]
    · split at h
      · exact nomatch h
      · rw [Option.some.inj h]
  · rw [lineLeft] at h
    split at h
    · exact nomatch h
    · split at h
      · next hld =>
        obtain ⟨rest, rfl⟩ := startsWith_iff.mp hld.2
        exact hheader' rest
      · exact nomatch h
  · rw [lineLeft] at h
    split at h
    · next hfs =>
      obtain ⟨rest, rfl⟩ := startsWith_iff.mp hfs.2
      rw [subNegations_filesystems] at h
      rw [← Option.some.inj h, entry_filesystems, entry_filesystems]
      rfl
    · split at h
      · exact nomatch h
      · rw [Option.some.inj h]

/-- The lines of another key than the two that are edited. -/
theorem keyLines_lineLeft_of_ne (noHostOs ldPreload' : Bool) {name key : Text}
    (hfs : key ≠ filesystemsName) (hld : key ≠ ldPreload) (lines : List Text) :
    KeyFile.keyLines name key (lines.filterMap (lineLeft noHostOs ldPreload'))
      = KeyFile.keyLines name key lines := by
  rw [keyLines_lineLeft]
  have hsome : ∀ line ∈ KeyFile.keyLines name key lines, lineLeft noHostOs ldPreload' line = some line := by
    intro line hline
    have hkey := (KeyFile.mem_keyLines hline).2
    rw [lineLeft, if_neg, if_neg]
    · rintro ⟨-, h⟩
      obtain ⟨rest, rfl⟩ := startsWith_iff.mp h
      rw [entry_ldPreload] at hkey
      exact hld (Option.some.inj hkey).symm
    · rintro ⟨-, h⟩
      obtain ⟨rest, rfl⟩ := startsWith_iff.mp h
      rw [entry_filesystems] at hkey
      exact hfs (Option.some.inj hkey).symm
  rw [List.filterMap_congr hsome, List.filterMap_some]

/-! ### The lines that count -/

/-- The line of a file that counts for a key. -/
def lastLine (name key : Text) (file : Option Text) : Option Text :=
  (KeyFile.keyLines name key (linesOf file)).getLast?

/-- The last line of the app's `LD_PRELOAD` that the script does not delete: one with blanks in front of
    the key or of the `=`. -/
def lastSpacedLine (file : Option Text) : Option Text :=
  ((KeyFile.keyLines environmentSection ldPreload (linesOf file)).filter fun line =>
    !startsWith line ldPreloadKey).getLast?

/-- The entries of a line that is a list. -/
def entriesOf (line : Text) : List Text := ((KeyFile.valueOf line).map listItems).getD []

/-- The entries of a list of filesystems where `!host-os` counts for nothing, if the line starts with the
    key and the `=` is right behind it. -/
def entriesLeft (line : Text) : List Text :=
  if startsWith line filesystemsKey then
    let value := ((KeyFile.entry line).map Prod.snd).getD []
    let entries := (unnegated [] (value.splitOn ';')).modifyHead (List.dropWhile KeyFile.blank)
    entries.filter fun e => decide (e ≠ [])
  else entriesOf line

/-- The last entry about the system. -/
def lastHostOs (entries : List Text) : Option Text :=
  (entries.filter fun e => decide ((Filesystem.ofPerm e).canonPath = hostOsName)).getLast?

def Denies (entry : Text) : Prop := (Filesystem.ofPerm entry).negated = true

/-- What the global file gives is not denied by the app's list of filesystems; and if that says nothing,
    it is in the list that counts of the global file. -/
structure HostOsKept (globalFile appFile : Option Text) : Prop where
  app : ∀ line ∈ lastLine contextSection filesystemsName appFile,
    ∀ entry ∈ lastHostOs (entriesLeft line), ¬Denies entry
  globally : (∀ line ∈ lastLine contextSection filesystemsName appFile,
      lastHostOs (entriesLeft line) = none) →
    ∃ line ∈ lastLine contextSection filesystemsName globalFile,
      ∃ entry ∈ lastHostOs (entriesOf line), ¬Denies entry

/-- The app does not unset the variable; a line of it that stays has the path; and if there is none, the
    line that counts of the global file has it, and the global file does not unset the variable. -/
structure LdPreloadKept (hmallocPath : Text) (globalFile appFile : Option Text) : Prop where
  app_unset : ∀ line ∈ lastLine contextSection unsetName appFile, ldPreload ∉ entriesOf line
  app : ∀ line ∈ lastSpacedLine appFile, ∃ value ∈ KeyFile.valueOf line, hmallocPath <:+: value
  globally : lastSpacedLine appFile = none →
    (∀ line ∈ lastLine contextSection unsetName globalFile, ldPreload ∉ entriesOf line) ∧
      ∃ line ∈ lastLine environmentSection ldPreload globalFile,
        ∃ value ∈ KeyFile.valueOf line, hmallocPath <:+: value

/-! ### What is left of the lines -/

/-- The items that are left of a line of `filesystems`: they lose `!host-os` where the line starts with
    the key and the `=` is right behind it. -/
def itemsLeft (line : Text) : Option (List Text) :=
  (KeyFile.entry line).map fun e =>
    let value := if startsWith line filesystemsKey then withoutNegations e.2 else e.2
    listItems (value.dropWhile KeyFile.blank)

def filesystemsLeft (lines : List Text) : List Text :=
  ((KeyFile.keyLines contextSection filesystemsName lines).getLast?.bind itemsLeft).getD []

/-- The value that is left of `LD_PRELOAD`: a line that starts with the key and the `=` right behind it
    is deleted. -/
def ldPreloadLeft (lines : List Text) : Option Text :=
  ((KeyFile.keyLines environmentSection ldPreload lines).filter fun line =>
    !startsWith line ldPreloadKey).getLast?.bind KeyFile.valueOf

/-- Blanks in front of a list are blanks in front of its first entry. -/
theorem listItems_dropWhile {es : List Text} (hsep : ∀ e ∈ es, ';' ∉ e) (hne : es ≠ []) :
    listItems (([';'].intercalate es).dropWhile KeyFile.blank)
      = (es.modifyHead (List.dropWhile KeyFile.blank)).filter fun e => decide (e ≠ []) := by
  obtain ⟨e, es, rfl⟩ := List.exists_cons_of_ne_nil hne
  have hdrop : ([';'].intercalate (e :: es)).dropWhile KeyFile.blank
      = [';'].intercalate (e.dropWhile KeyFile.blank :: es) := by
    cases es with
    | nil => simp
    | cons e' es =>
      rw [List.intercalate_cons_cons, List.intercalate_cons_cons, List.append_assoc, List.append_assoc,
        List.dropWhile_append]
      split
      · next hempty =>
        rw [List.isEmpty_iff.mp hempty]
        exact List.dropWhile_cons_of_neg (by decide)
      · rfl
  have hsep' : ∀ e' ∈ e.dropWhile KeyFile.blank :: es, ';' ∉ e' := by
    obtain ⟨he, hes⟩ := List.forall_mem_cons.mp hsep
    exact List.forall_mem_cons.mpr ⟨fun h => he ((List.dropWhile_suffix _).subset h), hes⟩
  rw [hdrop, listItems, List.splitOn_intercalate _ hsep' (List.cons_ne_nil _ _)]
  rfl

/-- The entries that are left are read from the line as it was. -/
theorem itemsLeft_getD (line : Text) : (itemsLeft line).getD [] = entriesLeft line := by
  rw [itemsLeft, entriesLeft, entriesOf, KeyFile.valueOf]
  cases KeyFile.entry line with
  | none =>
    split
    · rfl
    · rfl
  | some e =>
    dsimp only [Option.map_some, Option.getD_some]
    split
    · have hsep : ∀ e' ∈ unnegated [] (e.2.splitOn ';'), ';' ∉ e' := by
        intro e' he hmem
        obtain ⟨e'', he', hmem'⟩ := (mem_of_mem_unnegated he hmem).resolve_left List.not_mem_nil
        exact not_mem_of_mem_splitOn ';' he' hmem'
      exact listItems_dropWhile hsep (unnegated_ne_nil _ _)
    · rfl

theorem filesystemsLeft_eq (file : Option Text) : filesystemsLeft (linesOf file)
    = (lastLine contextSection filesystemsName file).elim [] entriesLeft := by
  rw [filesystemsLeft, lastLine]
  cases (KeyFile.keyLines contextSection filesystemsName (linesOf file)).getLast? with
  | none => rfl
  | some line => exact itemsLeft_getD line

theorem listOf_eq (key : Text) (file : Option Text) :
    listOf key (linesOf file) = (lastLine contextSection key file).elim [] entriesOf := by
  rw [listOf, KeyFile.value, lastLine]
  cases (KeyFile.keyLines contextSection key (linesOf file)).getLast? with
  | none => rfl
  | some line => rfl

theorem mem_elim {α : Type} {o : Option α} {f : α → List Text} {t : Text} :
    t ∈ o.elim [] f ↔ ∃ a ∈ o, t ∈ f a := by
  cases o <;> simp

theorem hostOsAccess_eq (entries : List Text) :
    hostOsAccess entries = (lastHostOs entries).map fun e => !(Filesystem.ofPerm e).negated := by
  rw [hostOsAccess, lastHostOs, List.filter_map, List.getLast?_map, Option.map_map]
  rfl

/-- What a list says of the system, its last entry about it says. -/
theorem or_hostOsAccess_iff (entries entries' : List Text) :
    (hostOsAccess entries).or (hostOsAccess entries') = some true ↔
      (∀ e ∈ lastHostOs entries, ¬Denies e) ∧
        (lastHostOs entries = none → ∃ e ∈ lastHostOs entries', ¬Denies e) := by
  rw [hostOsAccess_eq, hostOsAccess_eq]
  cases lastHostOs entries with
  | none => simp [Denies]
  | some e => simp [Denies]

theorem hostOsKept_iff (globalFile appFile : Option Text) : HostOsKept globalFile appFile ↔
    (hostOsAccess (filesystemsLeft (linesOf appFile))).or
      (hostOsAccess (readContext (linesOf globalFile)).filesystems) = some true := by
  have hglobal : (readContext (linesOf globalFile)).filesystems
      = (lastLine contextSection filesystemsName globalFile).elim [] entriesOf := listOf_eq ..
  have hsome : ∀ {f : Text → List Text} (file : Option Text),
      (∃ entry ∈ lastHostOs ((lastLine contextSection filesystemsName file).elim [] f), ¬Denies entry) ↔
        ∃ line ∈ lastLine contextSection filesystemsName file,
          ∃ entry ∈ lastHostOs (f line), ¬Denies entry := by
    intro f file
    cases lastLine contextSection filesystemsName file <;> simp [lastHostOs]
  rw [or_hostOsAccess_iff, filesystemsLeft_eq, hglobal, hsome]
  cases hline : lastLine contextSection filesystemsName appFile with
  | none =>
    have hnone : ∀ line, line ∉ lastLine contextSection filesystemsName appFile := by simp [hline]
    exact ⟨fun h => ⟨nofun, fun _ => h.globally fun line hmem => absurd hmem (hnone line)⟩,
      fun h => ⟨fun line hmem => absurd hmem (hnone line), fun _ => h.2 rfl⟩⟩
  | some line =>
    constructor
    · exact fun h => ⟨h.app line hline, fun hnone => h.globally fun line' hline' => by
        rwa [Option.mem_unique hline' hline]⟩
    · exact fun h => ⟨fun line' hline' => Option.mem_unique hline' hline ▸ h.1,
        fun hnone => h.2 (hnone line hline)⟩

/-- A line of a key has a value. -/
theorem exists_valueOf {name key line : Text} {lines : List Text}
    (h : line ∈ KeyFile.keyLines name key lines) : ∃ value, KeyFile.valueOf line = some value := by
  obtain ⟨e, he, -⟩ := Option.map_eq_some_iff.mp (KeyFile.mem_keyLines h).2
  exact ⟨_, by rw [KeyFile.valueOf, he, Option.map_some]⟩

theorem mem_unset_iff {name : Text} (file : Option Text) :
    name ∈ (readContext (linesOf file)).unset ↔
      ∃ line ∈ lastLine contextSection unsetName file, name ∈ entriesOf line := by
  have hunset : (readContext (linesOf file)).unset
      = (lastLine contextSection unsetName file).elim [] entriesOf := listOf_eq ..
  rw [hunset, mem_elim]

theorem ldPreloadKept_iff (hmallocPath : Text) (globalFile appFile : Option Text) :
    LdPreloadKept hmallocPath globalFile appFile ↔
      ldPreload ∉ (readContext (linesOf appFile)).unset ∧
        ∃ value, (ldPreloadLeft (linesOf appFile)).or ((readContext (linesOf globalFile)).env ldPreload)
          = some value ∧ hmallocPath <:+: value := by
  have happ : ldPreloadLeft (linesOf appFile) = (lastSpacedLine appFile).bind KeyFile.valueOf := rfl
  have hunset : ∀ file, ldPreload ∉ (readContext (linesOf file)).unset ↔
      ∀ line ∈ lastLine contextSection unsetName file, ldPreload ∉ entriesOf line := by
    intro file
    rw [mem_unset_iff]
    push Not
    rfl
  have henv : ∀ value, (readContext (linesOf globalFile)).env ldPreload = some value ↔
      ldPreload ∉ (readContext (linesOf globalFile)).unset ∧
        ∃ line ∈ lastLine environmentSection ldPreload globalFile, KeyFile.valueOf line = some value := by
    intro value
    rw [Context.env]
    split
    · next h => exact ⟨nofun, fun hnot => absurd h hnot.1⟩
    · next h => exact (Option.bind_eq_some_iff).trans ⟨fun hline => ⟨h, hline⟩, And.right⟩
  rw [happ, hunset]
  cases hline : lastSpacedLine appFile with
  | none =>
    simp only [Option.bind_none, Option.none_or, henv]
    constructor
    · intro h
      obtain ⟨hglobal, line, hmem, value, hvalue, hcontains⟩ := h.globally hline
      exact ⟨h.app_unset, value, ⟨(hunset globalFile).mpr hglobal, line, hmem, hvalue⟩, hcontains⟩
    · rintro ⟨happUnset, value, ⟨hglobal, line, hmem, hvalue⟩, hcontains⟩
      refine ⟨happUnset, fun line' hline' => ?_, fun _ => ⟨(hunset globalFile).mp hglobal, line, hmem, value,
        hvalue, hcontains⟩⟩
      rw [hline] at hline'
      exact nomatch hline'
  | some line =>
    -- a line of the app that stays has a value, and so counts
    obtain ⟨value, hvalue⟩ := exists_valueOf (List.mem_of_mem_filter (List.mem_of_getLast? hline))
    simp only [Option.bind_some, hvalue, Option.some_or, Option.some.injEq, exists_eq_left']
    constructor
    · intro h
      obtain ⟨value', hvalue', hcontains⟩ := h.app line hline
      exact ⟨h.app_unset, Option.mem_unique hvalue' hvalue ▸ hcontains⟩
    · rintro ⟨happUnset, hcontains⟩
      refine ⟨happUnset, fun line' hline' => ⟨value, ?_, hcontains⟩, fun hnone => ?_⟩
      · rw [Option.mem_unique hline' hline]
        exact hvalue
      · rw [hline] at hnone
        exact nomatch hnone

theorem removeSuffix_stop {value stop : Text} (hvalue : '\n' ∉ value) (hstop : stop = [] ∨ stop = ['\n']) :
    removeSuffix (value ++ stop) ['\n'] = value := by
  rcases hstop with rfl | rfl
  · rw [List.append_nil, removeSuffix_of_not_endsWith]
    exact fun h => hvalue ((endsWith_iff.mp h).subset (List.mem_singleton_self _))
  · exact removeSuffix_append value _

theorem getLast_filterMap {α β γ : Type} {f : α → Option β} {p : β → Option γ} {q : α → Option γ}
    {l : List α} (h : ∀ a ∈ l, ∃ b, f a = some b ∧ p b = q a) :
    (l.filterMap f).getLast?.bind p = l.getLast?.bind q := by
  rcases List.eq_nil_or_concat l with rfl | ⟨l, a, rfl⟩
  · rfl
  · rw [List.concat_eq_append] at h ⊢
    obtain ⟨b, hb, hpq⟩ := h a (by simp)
    rw [List.filterMap_append, List.filterMap_cons_some hb, List.filterMap_nil, List.getLast?_concat,
      List.getLast?_concat]
    exact hpq

theorem listOf_filesystems_left {lines : List Text} (hlines : IsLines lines) (ldPreload' : Bool) :
    listOf filesystemsName (lines.filterMap (lineLeft true ldPreload')) = filesystemsLeft lines := by
  have hleft : ∀ line ∈ KeyFile.keyLines contextSection filesystemsName lines,
      ∃ line', lineLeft true ldPreload' line = some line' ∧
        (KeyFile.valueOf line').map listItems = itemsLeft line := by
    intro line hline
    have hkey := (KeyFile.mem_keyLines hline).2
    obtain ⟨l, stop, hl, hstop, rfl⟩ := hlines.mem (KeyFile.mem_keyLines hline |>.1)
    by_cases hfs : startsWith (l ++ stop) filesystemsKey
    · obtain ⟨value, rfl⟩ := startsWith_line (by decide) hstop hfs
      have hvalue : '\n' ∉ value := fun h => hl (List.mem_append_right _ h)
      have hvalue' := not_mem_withoutNegations (by decide) hvalue
      refine ⟨_, if_pos ⟨rfl, hfs⟩, ?_⟩
      rw [List.append_assoc, subNegations_line hvalue hstop, KeyFile.valueOf, entry_filesystems, itemsLeft,
        entry_filesystems, removeSuffix_stop hvalue hstop, removeSuffix_stop hvalue' hstop]
      rw [List.append_assoc] at hfs
      simp only [Option.map_some, if_pos hfs]
    · refine ⟨l ++ stop, ?_, ?_⟩
      · rw [lineLeft, if_neg fun h => hfs h.2, if_neg]
        rintro ⟨-, hld⟩
        obtain ⟨rest, hrest⟩ := startsWith_iff.mp hld
        rw [← hrest, entry_ldPreload] at hkey
        have hne : ldPreload ≠ filesystemsName := by decide
        exact hne (Option.some.inj hkey)
      · rw [KeyFile.valueOf, itemsLeft, Option.map_map]
        simp only [if_neg hfs]
        rfl
  have hlast := getLast_filterMap (p := fun line => (KeyFile.valueOf line).map listItems) hleft
  rw [listOf, KeyFile.value, keyLines_lineLeft, Option.map_bind]
  exact congrArg (·.getD []) hlast

theorem ldPreload_left (noHostOs : Bool) (lines : List Text) :
    KeyFile.value environmentSection ldPreload (lines.filterMap (lineLeft noHostOs true))
      = ldPreloadLeft lines := by
  have hleft : ∀ line ∈ KeyFile.keyLines environmentSection ldPreload lines,
      lineLeft noHostOs true line = Option.guard (fun line => !startsWith line ldPreloadKey) line := by
    intro line hline
    have hkey := (KeyFile.mem_keyLines hline).2
    rw [lineLeft, if_neg]
    · cases hld : startsWith line ldPreloadKey <;> simp [Option.guard, hld]
    · rintro ⟨-, hfs⟩
      obtain ⟨rest, rfl⟩ := startsWith_iff.mp hfs
      rw [entry_filesystems] at hkey
      have hne : filesystemsName ≠ ldPreload := by decide
      exact hne (Option.some.inj hkey)
  rw [KeyFile.value, keyLines_lineLeft, List.filterMap_congr hleft, List.filterMap_eq_filter, ldPreloadLeft]

/-- The file of the app as `flatpak override` finds it. -/
theorem linesOf_removeOverridesFromFile (noHostOs ldPreload : Bool) : ∀ appFile : Option Text,
    linesOf (appFile.map fun content => removeOverridesFromFile content noHostOs ldPreload)
      = (linesOf appFile).filterMap (lineLeft noHostOs ldPreload)
  | none => rfl
  | some content => fileLines_removeOverridesFromFile content noHostOs ldPreload

theorem isLines_linesOf : ∀ file : Option Text, IsLines (linesOf file)
  | none => .nil
  | some _ => isLines_keepLines _

theorem hostOsAccess_append_hostOsRo (filesystems : List Text) :
    hostOsAccess (filesystems ++ [hostOsRo]) = some true := by
  have hcanon : (Filesystem.ofPerm hostOsRo).canonPath = hostOsName := by decide +kernel
  have hnegated : (Filesystem.ofPerm hostOsRo).negated = false := by decide +kernel
  rw [hostOsAccess, List.map_append, List.filter_append, List.map_singleton,
    List.filter_cons, if_pos (decide_eq_true hcanon), List.filter_nil, List.getLast?_concat,
    Option.map_some, hnegated]
  rfl

section
variable (globalFile appFile : Option Text) (hmallocPath : Text)

theorem hardenedContext_filesystems :
    hostOsAccess (hardenedContext globalFile appFile hmallocPath).filesystems
      = if (currentOverrideStatus globalFile hmallocPath).1 then
          hostOsAccess (filesystemsLeft (linesOf appFile))
        else some true := by
  rw [hardenedContext, hardenFlatpakApp]
  rcases currentOverrideStatus globalFile hmallocPath with ⟨_ | _, _ | _⟩ <;> dsimp only <;>
    rw [linesOf_removeOverridesFromFile]
  · exact hostOsAccess_append_hostOsRo _
  · exact hostOsAccess_append_hostOsRo _
  · exact congrArg hostOsAccess (listOf_filesystems_left (isLines_linesOf appFile) false)
  · exact congrArg hostOsAccess (listOf_filesystems_left (isLines_linesOf appFile) true)

theorem hardenedContext_environment :
    (hardenedContext globalFile appFile hmallocPath).environment ldPreload
      = if (currentOverrideStatus globalFile hmallocPath).2 then ldPreloadLeft (linesOf appFile)
        else some hmallocPath := by
  have henv : ∀ context, ((OverrideOption.env ldPreload hmallocPath).apply context).environment ldPreload
      = some hmallocPath := fun _ => by simp [OverrideOption.apply]
  rw [hardenedContext, hardenFlatpakApp]
  rcases currentOverrideStatus globalFile hmallocPath with ⟨_ | _, _ | _⟩ <;> dsimp only <;>
    rw [linesOf_removeOverridesFromFile]
  · exact henv _
  · exact ldPreload_left false _
  · exact henv _
  · exact ldPreload_left true _

theorem hardenedContext_unset :
    ldPreload ∈ (hardenedContext globalFile appFile hmallocPath).unset ↔
      (currentOverrideStatus globalFile hmallocPath).2 ∧ ldPreload ∈ (readContext (linesOf appFile)).unset := by
  have hunset : ∀ noHostOs ldPreload', (readContext
      ((linesOf appFile).filterMap (lineLeft noHostOs ldPreload'))).unset
        = (readContext (linesOf appFile)).unset := by
    intro noHostOs ldPreload'
    rw [readContext, listOf, KeyFile.value, keyLines_lineLeft_of_ne _ _ (by decide) (by decide)]
    rfl
  have hfilter : ∀ names : List Text, ldPreload ∉ names.filter fun n => decide (n ≠ ldPreload) :=
    fun names h => of_decide_eq_true (List.mem_filter.mp h).2 rfl
  rw [hardenedContext, hardenFlatpakApp]
  rcases currentOverrideStatus globalFile hmallocPath with ⟨_ | _, _ | _⟩ <;> dsimp only <;>
    rw [linesOf_removeOverridesFromFile]
  · exact iff_of_false (hfilter _) (fun h => nomatch h.1)
  · exact ⟨fun h => ⟨rfl, hunset _ _ ▸ h⟩, fun h => hunset false true ▸ h.2⟩
  · exact iff_of_false (hfilter _) (fun h => nomatch h.1)
  · exact ⟨fun h => ⟨rfl, hunset _ _ ▸ h⟩, fun h => hunset true true ▸ h.2⟩

/-- CORRECT: after the script the app is hardened exactly when what the global file was found to give,
    and therefore is not given again, is in its lines that count and not undone by those of the app. -/
theorem hardenFlatpakApp_iff :
    Hardened hmallocPath (readContext (linesOf globalFile))
        (hardenedContext globalFile appFile hmallocPath) ↔
      ((currentOverrideStatus globalFile hmallocPath).1 → HostOsKept globalFile appFile) ∧
        ((currentOverrideStatus globalFile hmallocPath).2 →
          LdPreloadKept hmallocPath globalFile appFile) := by
  have hfs := hardenedContext_filesystems globalFile appFile hmallocPath
  have henv := hardenedContext_environment globalFile appFile hmallocPath
  have hunset := hardenedContext_unset globalFile appFile hmallocPath
  have hhost : effectiveHostOs (readContext (linesOf globalFile))
      (hardenedContext globalFile appFile hmallocPath) = some true ↔
        ((currentOverrideStatus globalFile hmallocPath).1 → HostOsKept globalFile appFile) := by
    rw [effectiveHostOs, hfs, hostOsKept_iff]
    cases (currentOverrideStatus globalFile hmallocPath).1 with
    | false => exact iff_of_true rfl fun h => nomatch h
    | true => exact ⟨fun h _ => h, fun h => h rfl⟩
  have hpreload : (∃ value, effectiveEnv (readContext (linesOf globalFile))
      (hardenedContext globalFile appFile hmallocPath) ldPreload = some value ∧ hmallocPath <:+: value) ↔
      ((currentOverrideStatus globalFile hmallocPath).2 →
        LdPreloadKept hmallocPath globalFile appFile) := by
    rw [effectiveEnv, henv, ldPreloadKept_iff]
    cases hstatus : (currentOverrideStatus globalFile hmallocPath).2 with
    | false =>
      rw [hstatus] at hunset
      rw [if_neg fun h => Bool.false_ne_true (hunset.mp h).1]
      exact iff_of_true ⟨hmallocPath, rfl, List.infix_rfl⟩ fun h => nomatch h
    | true =>
      rw [hstatus] at hunset
      split
      · next h =>
        refine iff_of_false (fun ⟨_, hnone, _⟩ => nomatch hnone) fun hkept => ?_
        exact (hkept rfl).1 (hunset.mp h).2
      · next h =>
        refine ⟨fun hvalue _ => ⟨fun hmem => h (hunset.mpr ⟨rfl, hmem⟩), hvalue⟩, fun hkept => ?_⟩
        exact (hkept rfl).2
  constructor
  · exact fun h => ⟨hhost.mp h.hostOs, hpreload.mp h.ldPreload⟩
  · exact fun h => ⟨hpreload.mpr h.2, hhost.mpr h.1⟩

end

/-- What `harden_flatpak.py` without an argument writes for all apps. -/
def globalOverrides : Text :=
  ("[Context]\nfilesystems=host-os:ro;\n\n[Environment]\n" : Text) ++
    "LD_PRELOAD=/var/run/host/usr/lib64/libhardened_malloc.so\n"

/-- What `flatpak override --unset-env=LD_PRELOAD` writes for an app. -/
def unsetOverrides : Text := "[Context]\nunset-environment=LD_PRELOAD;\n"

/-- The app that unsets the variable is left as it is: nothing is preloaded. -/
theorem unsetOverrides_not_hardened :
    let hmallocPath := libhardenedMallocPath none
    hardenFlatpakApp (some globalOverrides) (some unsetOverrides) hmallocPath = (some unsetOverrides, []) ∧
      ¬ Hardened hmallocPath (readContext (linesOf (some globalOverrides)))
        (hardenedContext (some globalOverrides) (some unsetOverrides) hmallocPath) := by
  intro hmallocPath
  refine ⟨by decide +kernel, fun h => ?_⟩
  obtain ⟨value, hvalue, -⟩ := h.ldPreload
  have hnone : effectiveEnv (readContext (linesOf (some globalOverrides)))
      (hardenedContext (some globalOverrides) (some unsetOverrides) hmallocPath) ldPreload = none := by
    decide +kernel
  rw [hnone] at hvalue
  exact nomatch hvalue

end Flatpak
