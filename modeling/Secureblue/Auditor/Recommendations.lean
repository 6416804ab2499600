import Secureblue.Auditor.Runner

/-! The recommendations at the end of an audit: how `Audit.run` collects them, and how `_print_recs`
    prints them.

    The recommendations with a mergeable name are printed after the others, one for each text, with the
    names of that text in the place of a line (`printRecs_eq`). A check that raises has printed its
    reports, but its recommendations are not collected (`collected_iff`). -/

namespace Auditor
open Py Trace

/-! ### The code -/

/-- `bold` -/
def bold (text : Text) : Text := ("\x1b[1m" : Text) ++ text ++ "\x1b[22m"

/-- `print_heading`: the printed texts. -/
def printHeading (text : Text) (width : ℕ) : List Text :=
  [("\n\x1b[1;38;5;228m\x1b[48;5;63m" : Text) ++ text ++ "\x1b[0m", List.replicate width '=']

/-- `rec_lines_raw` -/
def recLines (recText : Text) : List Text := ((splitlines recText).map strip).filter (· ≠ [])

/-- A line that is not the placeholder, as it is formatted. -/
def formatLine (line : Text) : Text :=
  if line.head? = some '$' ∨ line.head? = some '#' then bold line else line

/-- `name_text_lines` -/
def nameLines (names : List Text) : List Text := names.map (("  " : Text) ++ ·)

/-- `"\n  ".join(rec_lines_formatted) + "\n"` -/
def joinLines (lines : List Text) : Text := List.intercalate ("\n  " : Text) lines ++ ['\n']

/-- `_format_recommendation_text` -/
def formatRecommendationText (recText : Text) (mergeableNames : Option (List Text)) : Text :=
  joinLines ((recLines recText).flatMap fun line =>
    if line = namesPlaceholder then nameLines (mergeableNames.getD []) else [formatLine line])

/-- The loop body of `_print_recs`: the printed texts and `merged_recs_data`, or `none` for a
    `KeyError`. -/
def printRec (p : List Text × Dict Text (List Text)) (rec : Recommendation) :
    Option (List Text × Dict Text (List Text)) :=
  match rec.mergeableName with
  | none => some (p.1 ++ [formatRecommendationText rec.text none], p.2)
  | some name => do
    let names ← p.2.get rec.text
    return (p.1, p.2.set rec.text (names ++ [name]))

def recommendationsTitle : Text := "Recommendations"

/-- `_print_recs`: the printed texts. -/
def printRecs (recs : List Recommendation) (width : ℕ) : Option (List Text) := do
  let mergedRecsData : Dict Text (List Text) :=
    .ofList (recs.filterMap fun rec => rec.mergeableName.map fun _ => (rec.text, []))
  let (printed, mergedRecsData) ← recs.foldlM printRec (printHeading recommendationsTitle width, mergedRecsData)
  return printed ++ mergedRecsData.items.map fun e => formatRecommendationText e.1 (some e.2)

/-! ### Printing -/

/-- The mergeable names, each with the text of its recommendation. -/
def mergeables (recs : List Recommendation) : List (Text × Text) :=
  recs.filterMap fun rec => rec.mergeableName.map (rec.text, ·)

/-- The texts with mergeable names, in the order of their first appearance. -/
def mergeableTexts (recs : List Recommendation) : List Text := firsts ((mergeables recs).map Prod.fst)

/-- The names of the recommendations with a text. -/
def namesOf (recs : List Recommendation) (text : Text) : List Text :=
  ((mergeables recs).filter (·.1 = text)).map Prod.snd

/-- The line of a recommendation that the names stand in for. -/
def placeholder : Text := "[[NAMES_PLACEHOLDER]]"

/-- The lines of a recommendation that are not blank, without the blanks around them. -/
def contentLines (text : Text) : List Text := ((splitlines text).map strip).filter (· ≠ [])

/-- A line as it is shown: commands are bold. -/
def shownLine (line : Text) : Text :=
  if line.head? = some '$' ∨ line.head? = some '#' then ("\x1b[1m" : Text) ++ line ++ ("\x1b[22m" : Text) else line

/-- The lines one below the other, those below the first indented by two blanks, and the last one
    closed. -/
def linesText : List Text → Text
  | [] => ['\n']
  | line :: lines => line ++ (lines.flatMap fun line => ('\n' :: ' ' :: ' ' :: line)) ++ ['\n']

/-- A group as it is shown: the names, each on a line of its own and indented once more, between the
    lines before the placeholder and those behind it. -/
def groupText (before after names : List Text) : Text :=
  linesText (before.map shownLine ++ names.map (fun name => ' ' :: ' ' :: name) ++ after.map shownLine)

/-- The group of a mergeable text. -/
def printedGroup (names : List Text) (text : Text) : Text :=
  groupText ((contentLines text).takeWhile (· ≠ placeholder))
    (((contentLines text).dropWhile (· ≠ placeholder)).drop 1) names

/-- The other recommendations as they are shown, without placeholders. -/
def printedOthers (recs : List Recommendation) : List Text :=
  (recs.filter (·.mergeableName = none)).map fun rec =>
    linesText (((contentLines rec.text).filter (· ≠ placeholder)).map shownLine)

theorem joinLines_eq : ∀ lines : List Text, joinLines lines = linesText lines
  | [] => rfl
  | [line] => by simp [joinLines, linesText]
  | line :: line' :: lines => by
      have ih := joinLines_eq (line' :: lines)
      have hcons : joinLines (line :: line' :: lines) =
          line ++ ('\n' :: ' ' :: ' ' :: joinLines (line' :: lines)) := by
        simp [joinLines, List.intercalate]
      rw [hcons, ih]
      simp [linesText]

/-- Without names, the placeholder is left out. -/
theorem formatRecommendationText_none (text : Text) : formatRecommendationText text none =
    linesText (((contentLines text).filter (· ≠ placeholder)).map shownLine) := by
  have hlines : ∀ lines : List Text,
      (lines.flatMap fun line => if line = namesPlaceholder then nameLines [] else [formatLine line]) =
        (lines.filter (· ≠ placeholder)).map shownLine := by
    intro lines
    have hplaceholder : namesPlaceholder = placeholder := rfl
    rw [hplaceholder]
    induction lines with
    | nil => rfl
    | cons line lines ih =>
      rw [List.flatMap_cons, ih]
      by_cases hline : line = placeholder
      · rw [if_pos hline, List.filter_cons_of_neg (by simpa using hline)]
        rfl
      · rw [if_neg hline, List.filter_cons_of_pos (by simpa using hline)]
        rfl
  rw [formatRecommendationText, joinLines_eq, Option.getD_none, hlines]
  rfl

/-- The loop prints the other recommendations and adds the names to their texts. -/
theorem foldlM_printRec : ∀ (recs : List Recommendation) (printed : List Text) (merged : Dict Text (List Text)),
    (∀ e ∈ mergeables recs, e.1 ∈ merged.keys) → ∃ merged',
      recs.foldlM printRec (printed, merged) = some (printed ++ printedOthers recs, merged') ∧
        merged'.items = merged.items.map fun e => (e.1, e.2 ++ namesOf recs e.1)
  | [], printed, merged, _ => ⟨merged, by simp [printedOthers], by simp [namesOf, mergeables]⟩
  | rec :: recs, printed, merged, h => by
      rw [List.foldlM_cons, printRec]
      cases hname : rec.mergeableName with
      | none =>
        have hmergeables : mergeables (rec :: recs) = mergeables recs := by simp [mergeables, hname]
        rw [hmergeables] at h
        obtain ⟨merged', hrun, hitems⟩ :=
          foldlM_printRec recs (printed ++ [formatRecommendationText rec.text none]) merged h
        refine ⟨merged', ?_, ?_⟩
        · simpa [printedOthers, hname, formatRecommendationText_none] using hrun
        · simpa only [namesOf, hmergeables] using hitems
      | some name =>
        have hmergeables : mergeables (rec :: recs) = (rec.text, name) :: mergeables recs := by
          simp [mergeables, hname]
        rw [hmergeables, List.forall_mem_cons] at h
        obtain ⟨names, hnames⟩ := Option.isSome_iff_exists.mp (Dict.mem_keys.mp h.1)
        have hkeys : (merged.set rec.text (names ++ [name])).keys = merged.keys := by
          rw [Dict.keys_set, if_pos h.1]
        obtain ⟨merged', hrun, hitems⟩ :=
          foldlM_printRec recs printed (merged.set rec.text (names ++ [name])) (hkeys ▸ h.2)
        refine ⟨merged', ?_, ?_⟩
        · simpa [printedOthers, hname, hnames] using hrun
        · rw [hitems, Dict.items_set hnames (· ++ [name]), List.map_map]
          refine List.map_congr_left fun e _ => ?_
          by_cases he : e.1 = rec.text
          · simp [namesOf, hmergeables, he]
          · simp [namesOf, hmergeables, he, Ne.symm he]

/-- A dictionary with one value for all keys. -/
theorem items_ofList_const {α β : Type} [DecidableEq α] (v : β) (l : List α) :
    (Dict.ofList (l.map fun a => (a, v))).items = (firsts l).map fun a => (a, v) := by
  have hkeys : (l.map fun a => (a, v)).map Prod.fst = l := by simp [Function.comp_def]
  rw [Dict.items_eq, Dict.keys_ofList, hkeys]
  conv_rhs => rw [← List.filterMap_eq_map]
  refine List.filterMap_congr fun a ha => ?_
  rw [Dict.get_ofList, lastWins_const, if_pos (mem_firsts.mp ha)]
  rfl

/-- What is printed: the heading, the other recommendations, and the mergeable texts with their names. -/
theorem printRecs_eq_some (recs : List Recommendation) (width : ℕ) :
    printRecs recs width = some (printHeading recommendationsTitle width ++ printedOthers recs ++
      (mergeableTexts recs).map fun text => formatRecommendationText text (some (namesOf recs text))) := by
  have hentries : (recs.filterMap fun rec => rec.mergeableName.map fun _ => (rec.text, ([] : List Text))) =
      ((mergeables recs).map Prod.fst).map fun text => (text, []) := by
    rw [mergeables, List.map_filterMap, List.map_filterMap]
    refine List.filterMap_congr fun rec _ => ?_
    cases rec.mergeableName <;> rfl
  have hinit := items_ofList_const ([] : List Text) ((mergeables recs).map Prod.fst)
  have hkeys : ∀ e ∈ mergeables recs,
      e.1 ∈ (Dict.ofList (((mergeables recs).map Prod.fst).map fun text => (text, ([] : List Text)))).keys := by
    intro e he
    rw [Dict.keys, hinit]
    simpa [mem_firsts] using ⟨e.2, he⟩
  obtain ⟨merged', hrun, hitems⟩ := foldlM_printRec recs (printHeading recommendationsTitle width) _ hkeys
  rw [printRecs, hentries]
  simp only [Option.bind_eq_bind]
  rw [hrun, Option.bind_some, hitems, hinit, List.map_map, List.map_map]
  rfl

theorem flatMap_formatLine {lines : List Text} (h : namesPlaceholder ∉ lines) (names : List Text) :
    (lines.flatMap fun line => if line = namesPlaceholder then nameLines names else [formatLine line]) =
      lines.map shownLine := by
  induction lines with
  | nil => rfl
  | cons line lines ih =>
    rw [List.mem_cons, not_or] at h
    rw [List.flatMap_cons, if_neg (Ne.symm h.1), ih h.2]
    rfl

/-- The placeholder is replaced by the names, and all else stays in its place. -/
theorem formatRecommendationText_eq {text : Text} {before after : List Text}
    (hlines : contentLines text = before ++ placeholder :: after) (hbefore : placeholder ∉ before)
    (hafter : placeholder ∉ after) (names : List Text) :
    formatRecommendationText text (some names) = groupText before after names := by
  have hsplit : recLines text = before ++ namesPlaceholder :: after := hlines
  rw [formatRecommendationText, hsplit, List.flatMap_append, List.flatMap_cons, if_pos rfl, Option.getD_some,
    flatMap_formatLine hbefore, flatMap_formatLine hafter, joinLines_eq, groupText, List.append_assoc]
  rfl

theorem printedGroup_eq {text : Text} {before after : List Text}
    (hlines : contentLines text = before ++ placeholder :: after) (hbefore : placeholder ∉ before)
    (names : List Text) : printedGroup names text = groupText before after names := by
  rw [printedGroup, hlines, takeWhile_ne_append_cons hbefore, drop_dropWhile_ne_append_cons hbefore]

/-- A line that occurs once has the other lines before and after it. -/
theorem split_of_count {lines : List Text} {line : Text} (h : lines.count line = 1) :
    ∃ before after, lines = before ++ line :: after ∧ line ∉ before ∧ line ∉ after := by
  have hmem : line ∈ lines := List.count_pos_iff.mp (by omega)
  obtain ⟨before, after, hlines, hbefore⟩ := List.eq_append_cons_of_mem hmem
  refine ⟨before, after, hlines, hbefore, List.count_eq_zero.mp ?_⟩
  rw [hlines, List.count_append, List.count_cons_self] at h
  omega

/-- Every name is shown with its text, as often as it was recommended. -/
theorem perm_shown (recs : List Recommendation) :
    ((mergeableTexts recs).flatMap fun text => (namesOf recs text).map (text, ·)).Perm (mergeables recs) := by
  have hgroup : ∀ text, (namesOf recs text).map (text, ·) = (mergeables recs).filter (·.1 = text) := by
    intro text
    rw [namesOf, List.map_map]
    conv_rhs => rw [← List.map_id ((mergeables recs).filter (·.1 = text))]
    refine List.map_congr_left fun e he => ?_
    rw [Function.comp_apply, ← of_decide_eq_true (List.mem_filter.mp he).2]
    rfl
  simp only [hgroup]
  exact perm_groups Prod.fst (mergeables recs)

/-- CORRECT: the heading is printed, the recommendations without a mergeable name in their order, and
    then each mergeable text once, with its names in the place of the placeholder. -/
theorem printRecs_eq (recs : List Recommendation) (width : ℕ)
    (h : ∀ rec ∈ recs, rec.mergeableName ≠ none → (contentLines rec.text).count placeholder = 1) :
    printRecs recs width = some (printHeading recommendationsTitle width ++ printedOthers recs ++
        (mergeableTexts recs).map fun text => printedGroup (namesOf recs text) text) ∧
      (∀ text ∈ mergeableTexts recs, ∃ before after, contentLines text = before ++ placeholder :: after ∧
        placeholder ∉ before ∧ placeholder ∉ after ∧
        printedGroup (namesOf recs text) text = groupText before after (namesOf recs text)) ∧
      ((mergeableTexts recs).flatMap fun text => (namesOf recs text).map (text, ·)).Perm (mergeables recs) := by
  have hsplit : ∀ text ∈ mergeableTexts recs, ∃ before after,
      contentLines text = before ++ placeholder :: after ∧ placeholder ∉ before ∧ placeholder ∉ after := by
    intro text htext
    obtain ⟨e, he, rfl⟩ := List.mem_map.mp (mem_firsts.mp htext)
    obtain ⟨rec, hrec, hpair⟩ := List.mem_filterMap.mp he
    obtain ⟨name, hname, rfl⟩ := Option.map_eq_some_iff.mp hpair
    exact split_of_count (h rec hrec (by simp [hname]))
  refine ⟨?_, fun text htext => ?_, perm_shown recs⟩
  · have hgroups : (mergeableTexts recs).map (fun text => formatRecommendationText text (some (namesOf recs text))) =
        (mergeableTexts recs).map fun text => printedGroup (namesOf recs text) text := by
      refine List.map_congr_left fun text htext => ?_
      obtain ⟨before, after, hlines, hbefore, hafter⟩ := hsplit text htext
      rw [formatRecommendationText_eq hlines hbefore hafter, printedGroup_eq hlines hbefore]
    rw [printRecs_eq_some, hgroups]
  · obtain ⟨before, after, hlines, hbefore, hafter⟩ := hsplit text htext
    exact ⟨before, after, hlines, hbefore, hafter, printedGroup_eq hlines hbefore _⟩

/-- Recommendations of both kinds, two of them with the same text. -/
def sampleRecs : List Recommendation :=
  [⟨"To restrict it, run:\n[[NAMES_PLACEHOLDER]]\n$ ujust harden-flatpak", some "org.a.A"⟩,
    ⟨"To set hardened kernel arguments, run:\n$ ujust set-kargs-hardening", none⟩,
    ⟨"To restrict it, run:\n[[NAMES_PLACEHOLDER]]\n$ ujust harden-flatpak", some "org.b.B"⟩]

theorem printRecs_sample : printRecs sampleRecs 80 =
      some (printHeading recommendationsTitle 80 ++ printedOthers sampleRecs ++
        (mergeableTexts sampleRecs).map fun text => printedGroup (namesOf sampleRecs text) text) ∧
    (∀ text ∈ mergeableTexts sampleRecs, ∃ before after, contentLines text = before ++ placeholder :: after ∧
      placeholder ∉ before ∧ placeholder ∉ after ∧
      printedGroup (namesOf sampleRecs text) text = groupText before after (namesOf sampleRecs text)) ∧
    ((mergeableTexts sampleRecs).flatMap fun text => (namesOf sampleRecs text).map (text, ·)).Perm
      (mergeables sampleRecs) :=
  printRecs_eq sampleRecs 80 (by decide +kernel)

/-! ### Collecting -/

section
variable {V E : Type}

/-- A check that has not been run. -/
def Check.Fresh (check : Check V E) : Prop := check.done = false ∧ check.recs = []

/-- The recommendations that are printed in a run. -/
def printedRecs (trace : List (Event V E)) : List Recommendation :=
  trace.flatMap fun
    | .recommendations recs => recs
    | _ => []

/-- The recommendations of the reports that a call prints. -/
def shownRecs (expected : Dict Text Status) (call : Check V E × Dict Text V) : List Recommendation :=
  ((call.1.callback.call call.2).reports.filter fun report => !suppressed expected report).flatMap Report.recs

/-- The callback raises in a call. -/
def Raises (call : Check V E × Dict Text V) : Prop := (call.1.callback.call call.2).raised.isSome

instance instDecidableRaises (call : Check V E × Dict Text V) : Decidable (Raises call) :=
  inferInstanceAs (Decidable (_ = true))

/-- What one pass leaves of a fresh check: its recommendations, unless it raises. -/
theorem runCheck_fresh (expected : Dict Text Status) {check : Check V E} (h : check.Fresh) (p : Progress V E) :
    (p.runCheck expected check).state = (check.callback.call p.state).state ∧
      (p.runCheck expected check).recs =
        p.recs ++ if Raises (check, p.state) then [] else shownRecs expected (check, p.state) := by
  obtain ⟨hdone, hrecs⟩ := h
  rw [Progress.runCheck, Check.run, if_neg (by simp [hdone])]
  refine ⟨rfl, ?_⟩
  cases hraised : (check.callback.call p.state).raised with
  | none => simp [Raises, shownRecs, hraised, hrecs]
  | some e => simp [Raises, hraised]

/-- The recommendations of the calls are collected, without those of a call that raises. -/
theorem recs_foldl (expected : Dict Text Status) : ∀ {checks : List (Check V E)}, (∀ c ∈ checks, c.Fresh) →
    ∀ p : Progress V E, (checks.foldl (Progress.runCheck expected) p).recs =
      p.recs ++ (calls checks p.state).flatMap fun call => if Raises call then [] else shownRecs expected call
  | [], _, p => by simp [calls]
  | check :: checks, h, p => by
      have hcheck := h check List.mem_cons_self
      obtain ⟨hstate, hrecs⟩ := runCheck_fresh expected hcheck p
      have ih := recs_foldl expected fun c hc => h c (List.mem_cons_of_mem check hc)
      rw [List.foldl_cons, ih, calls, hcheck.1, if_neg Bool.false_ne_true, List.flatMap_cons, hstate, hrecs,
        List.append_assoc]

/-- Dropping parts of a list of lists changes nothing exactly if they are empty. -/
theorem flatMap_ite_nil_iff {α β : Type} {p : α → Prop} [DecidablePred p] {f : α → List β} {l : List α} :
    (l.flatMap fun a => if p a then [] else f a) = l.flatMap f ↔ ∀ a ∈ l, p a → f a = [] := by
  have hle : ∀ m : List α, (m.flatMap fun a => if p a then [] else f a).length ≤ (m.flatMap f).length := by
    intro m
    induction m with
    | nil => simp
    | cons a m ih =>
      simp only [List.flatMap_cons, List.length_append]
      split
      · simp only [List.length_nil]
        omega
      · omega
  induction l with
  | nil => simp
  | cons a l ih =>
    rw [List.flatMap_cons, List.flatMap_cons, List.forall_mem_cons]
    refine Iff.trans ?_ (and_congr_right fun _ => ih)
    by_cases hp : p a
    · rw [if_pos hp, List.nil_append]
      constructor
      · intro h
        have hlen := congrArg List.length h
        rw [List.length_append] at hlen
        have hnil : f a = [] := List.length_eq_zero_iff.mp (by have := hle l; omega)
        exact ⟨fun _ => hnil, by rw [h, hnil, List.nil_append]⟩
      · rintro ⟨hnil, h⟩
        rw [hnil hp, h, List.nil_append]
    · rw [if_neg hp, List.append_cancel_left_eq]
      exact ⟨fun h => ⟨fun hp' => absurd hp' hp, h⟩, And.right⟩

/-- No recommendation is printed before the end. -/
theorem printedRecs_calls (expected : Dict Text Status) (cs : List (Check V E × Dict Text V)) :
    printedRecs (cs.flatMap (callEvents expected)) = [] := by
  refine List.flatMap_eq_nil_iff.mpr fun e he => ?_
  obtain ⟨call, -, he⟩ := List.mem_flatMap.mp he
  rw [callEvents, List.cons_append, List.mem_cons, List.mem_append, List.mem_map, List.mem_singleton] at he
  rcases he with rfl | ⟨report, -, rfl⟩ | rfl
  · rfl
  · rfl
  · cases (call.1.callback.call call.2).raised <;> rfl

theorem printedRecs_run (self : Audit V E) : printedRecs self.run.trace =
    ((self.checks.filter fun check => !self.isSkipped check).foldl (Progress.runCheck self.expected)
      ⟨self.state, self.recs, [], []⟩).recs := by
  rw [Audit.run]
  simp only [trace_foldl, List.nil_append]
  have happend : ∀ l m : List (Event V E), printedRecs (l ++ m) = printedRecs l ++ printedRecs m :=
    fun l m => List.flatMap_append
  have homitted : printedRecs (if self.skip ≠ ∅ ∨ self.expected ≠ ∅ then [(.omitted : Event V E)] else []) = [] := by
    split <;> rfl
  rw [happend, happend, printedRecs_calls, homitted, List.append_nil, List.nil_append]
  exact List.append_nil _

/-- The recommendations of the printed reports are those that the calls show. -/
theorem recs_printed (self : Audit V E) :
    (printedReports self.run.trace).flatMap (·.2.recs) = self.calls.flatMap (shownRecs self.expected) := by
  rw [printed_run, yields, List.filter_flatMap, List.flatMap_assoc]
  refine List.flatMap_congr fun call _ => ?_
  rw [List.filter_map, List.flatMap_map]
  rfl

/-- CORRECT: the recommendations that a run prints are those of the reports that it prints, exactly if
    no check that raises has printed a report with a recommendation. -/
theorem collected_iff {skip : Finset Text} {expected : Dict Text Status} {checks : List (Check V E)}
    {a : Audit V E} (hfresh : ∀ check ∈ checks, check.Fresh)
    (h : (Audit.init skip expected).register checks = .ok a) :
    printedRecs a.run.trace = (printedReports a.run.trace).flatMap (·.2.recs) ↔
      ∀ call ∈ a.calls, Raises call → ∀ report ∈ (call.1.callback.call call.2).reports,
        suppressed expected report = false → report.recs = [] := by
  obtain ⟨hchecks, -, hexpected, hrecs, -⟩ := register_eq_ok h
  have hran : ∀ c ∈ a.checks.filter fun check => !a.isSkipped check, c.Fresh := fun c hc =>
    hfresh c (by simpa [hchecks, Audit.init] using List.mem_of_mem_filter hc)
  have hinit : (Audit.init skip expected : Audit V E).recs = [] := rfl
  rw [printedRecs_run, recs_printed, recs_foldl _ hran, hrecs, hinit, List.nil_append, ← Audit.calls,
    flatMap_ite_nil_iff, hexpected]
  refine forall₂_congr fun call _ => imp_congr_right fun _ => ?_
  rw [shownRecs, List.flatMap_eq_nil_iff]
  simp [Audit.init, List.mem_filter]

/-- The report on the first of two apps. -/
def firstApp : Report where
  description := "Auditing org.a.A"
  status := .fail
  notes := []
  recs := [⟨"To restrict it, run: $ ujust harden-flatpak", none⟩]

/-- A check of two apps. The permissions of the second one cannot be read. -/
def twoApps : Check Bool Text where
  name := "audit_flatpak_permissions"
  callback := .plain [firstApp] (some "AsyncProcessError")

/-- The check registered in a new audit. -/
def twoAppsAudit : Audit Bool Text := { (Audit.init ∅ ∅ : Audit Bool Text) with checks := [twoApps] }

theorem register_twoApps : (Audit.init ∅ ∅).register [twoApps] = .ok twoAppsAudit := rfl

theorem twoApps_fresh : ∀ check ∈ [twoApps], check.Fresh := by
  intro check hcheck
  rw [List.mem_singleton.mp hcheck]
  exact ⟨rfl, rfl⟩

theorem collected_iff_twoApps : printedRecs twoAppsAudit.run.trace =
      (printedReports twoAppsAudit.run.trace).flatMap (·.2.recs) ↔
    ∀ call ∈ twoAppsAudit.calls, Raises call → ∀ report ∈ (call.1.callback.call call.2).reports,
      suppressed ∅ report = false → report.recs = [] :=
  collected_iff twoApps_fresh register_twoApps

/-- The report of the first app is printed, and its recommendation is not. -/
theorem twoApps_lost : (Audit.init ∅ ∅).register [twoApps] = .ok twoAppsAudit ∧
    printedReports twoAppsAudit.run.trace = [(twoApps, firstApp)] ∧ firstApp.recs ≠ [] ∧
    printedRecs twoAppsAudit.run.trace = [] := by
  refine ⟨register_twoApps, ?_, List.cons_ne_nil _ _, rfl⟩
  rw [printed_run]
  rfl

end

end Auditor
