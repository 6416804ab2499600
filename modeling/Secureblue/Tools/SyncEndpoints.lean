import Secureblue.Pipeline
import Secureblue.Py.Index

/-! Keeping the list of allowed endpoints in the workflows in sync with the policy
    (`sync_runner_allowed_endpoints.py`).

    The region between the markers is cut out by counted offsets. The file is read and written in text mode,
    which ends all of its lines the same way. -/

namespace Tools.SyncEndpoints
open Py

/-! ### The script -/

/-- `START_LINE` -/
def startLine : Text := "##### BEGIN ALLOWED ENDPOINT LIST #####"

/-- `END_LINE` -/
def endLine : Text := "##### END ALLOWED ENDPOINT LIST #####"

def isBlank (c : Char) : Bool := c = ' ' || c = '\t'

/-- `^([ \t]*)START_LINE` at a line: what the group has matched. -/
def lineIndentation (line : Text) : Option Text :=
  if startsWith (line.dropWhile isBlank) startLine then some (line.takeWhile isBlank) else none

/-- `indentation_pattern.search(text)` -/
def searchIndentation (text : Text) : Option Text := (text.splitOn '\n').findSome? lineIndentation

def indentedLine (indentation line : Text) : Text := if line ≠ [] then indentation ++ line else []

def indentedEndpointList (indentation endpointList : Text) : Text :=
  ['\n'].intercalate ((splitlines endpointList).map (indentedLine indentation))

/-- What is written to a workflow file, or `none` for a `ValueError`. -/
def sync (policyFile workflowFile : Text) : Option Text :=
  let endpointList := universalNewlines policyFile
  let oldWorkflowText := universalNewlines workflowFile
  match searchIndentation oldWorkflowText with
  | none => some workflowFile
  | some indentation =>
    (index (between (indentation ++ startLine)) oldWorkflowText).bind fun i =>
      let startIndex := i + 1
      (indexFrom (between (indentation ++ endLine)) oldWorkflowText startIndex).map fun j =>
        let endIndex := j + indentation.length + endLine.length + 1
        oldWorkflowText.take startIndex ++ indentedEndpointList indentation endpointList
          ++ oldWorkflowText.drop endIndex

/-! ### Workflows and policies -/

/-- A text with neither of the markers. -/
def Unmarked (s : Text) : Prop := ¬startLine <:+: s ∧ ¬endLine <:+: s

/-- A workflow with one region, between two lines of the same indentation. -/
structure Workflow where
  content : Text
  before : List (Text × Text)
  indentation : Text
  startStop : Text
  old : List (Text × Text)
  endStop : Text
  after : List (Text × Text)
  lines : rawLines content = before ++ (indentation ++ startLine, startStop) ::
    (old ++ (indentation ++ endLine, endStop) :: after)
  first : before ≠ []
  blank : ∀ c ∈ indentation, isBlank c
  ended : endStop ≠ []
  unmarked : ∀ line ∈ before ++ old ++ after, Unmarked line.1

/-- A policy from one marker to the other. -/
structure Policy where
  content : Text
  endpoints : List Text
  lines : splitlines content = startLine :: (endpoints ++ [endLine])
  unmarked : ∀ line ∈ endpoints, Unmarked line

/-- Lines as they stand in a file. -/
def rawText (lines : List (Text × Text)) : Text := lines.flatMap fun line => line.1 ++ line.2

/-- The lines of a policy at an indentation. -/
def region (policy : Policy) (indentation : Text) : Text :=
  unlines ((splitlines policy.content).map (indentedLine indentation))

/-- The region is the policy, all else is as it was, and a second run changes nothing. -/
structure Synced (policy : Policy) (w : Workflow) : Prop where
  frame : sync policy.content w.content = some (rawText w.before ++ region policy w.indentation ++ rawText w.after)
  again : ∀ result, sync policy.content w.content = some result → sync policy.content result = some result

/-! ### The region of a text -/

section
variable {policyFile workflowFile indentation rest : Text} {before old : List Text}

theorem splitOn_line {l : Text} (hl : '\n' ∉ l) (s : Text) :
    (l ++ '\n' :: s).splitOn '\n' = l :: s.splitOn '\n' := by
  rw [List.splitOn_eq_splitOnP, List.splitOnP_append_cons _ _ (by simp), ← List.splitOn_eq_splitOnP,
    ← List.splitOn_eq_splitOnP, List.splitOn_eq_singleton hl, List.singleton_append]

theorem lineIndentation_of_not_infix {l : Text} (h : ¬startLine <:+: l) : lineIndentation l = none := by
  rw [lineIndentation, if_neg]
  exact fun hstart => h ((startsWith_iff.mp hstart).isInfix.trans (List.dropWhile_suffix isBlank).isInfix)

theorem lineIndentation_marker (hblank : ∀ c ∈ indentation, isBlank c) :
    lineIndentation (indentation ++ startLine) = some indentation := by
  have hdrop : (indentation ++ startLine).dropWhile isBlank = startLine := by
    rw [List.dropWhile_append_of_pos hblank]
    rfl
  have htake : (indentation ++ startLine).takeWhile isBlank = indentation := by
    rw [List.takeWhile_append_of_pos hblank]
    exact List.append_nil indentation
  rw [lineIndentation, hdrop, htake, if_pos (by simp [startsWith])]

/-- The pattern finds the line of the marker. -/
theorem searchIndentation_eq (hblank : ∀ c ∈ indentation, isBlank c)
    (hbefore : ∀ l ∈ before, '\n' ∉ l ∧ ¬startLine <:+: l) (hnl : '\n' ∉ indentation ++ startLine) :
    searchIndentation (unlines before ++ (indentation ++ startLine ++ '\n' :: rest)) = some indentation := by
  induction before with
  | nil =>
    rw [unlines_nil, List.nil_append, searchIndentation, splitOn_line hnl,
      List.findSome?_cons, lineIndentation_marker hblank]
  | cons l before ih =>
    obtain ⟨⟨hl, hstart⟩, hbefore⟩ := List.forall_mem_cons.mp hbefore
    rw [unlines_cons, List.append_assoc, List.cons_append, searchIndentation, splitOn_line hl,
      List.findSome?_cons, lineIndentation_of_not_infix hstart]
    exact ih hbefore

theorem not_newline (hblank : ∀ c ∈ indentation, isBlank c) {marker : Text} (hmarker : '\n' ∉ marker) :
    '\n' ∉ indentation ++ marker := fun h =>
  (List.mem_append.mp h).elim (fun h => absurd (hblank _ h) (by decide)) hmarker

/-- A text with a region, line by line. -/
def regionText (indentation : Text) (before old : List Text) (rest : Text) : Text :=
  unlines before ++ (indentation ++ startLine ++ '\n' :: (unlines old ++ (indentation ++ endLine ++ '\n' :: rest)))

/-- The offsets cut the region out. -/
theorem sync_regionText (hblank : ∀ c ∈ indentation, isBlank c) (hfirst : before ≠ [])
    (hbefore : ∀ l ∈ before, '\n' ∉ l ∧ ¬startLine <:+: l) (hold : ∀ l ∈ old, '\n' ∉ l ∧ ¬endLine <:+: l)
    (htext : universalNewlines workflowFile = regionText indentation before old rest) :
    sync policyFile workflowFile = some (unlines before
      ++ indentedEndpointList indentation (universalNewlines policyFile) ++ '\n' :: rest) := by
  have hstart : '\n' ∉ indentation ++ startLine := not_newline hblank (by decide +kernel)
  have hend : '\n' ∉ indentation ++ endLine := not_newline hblank (by decide +kernel)
  obtain ⟨l, ls, rfl⟩ := List.exists_cons_of_ne_nil hfirst
  have hls : ∀ m ∈ ls, '\n' ∉ m ∧ m ≠ indentation ++ startLine := fun m hm => by
    obtain ⟨hnl, hmark⟩ := hbefore m (List.mem_cons_of_mem l hm)
    exact ⟨hnl, fun h => hmark (h ▸ (List.suffix_append indentation startLine).isInfix)⟩
  have hold' : ∀ m ∈ old, '\n' ∉ m ∧ m ≠ indentation ++ endLine := fun m hm => by
    obtain ⟨hnl, hmark⟩ := hold m hm
    exact ⟨hnl, fun h => hmark (h ▸ (List.suffix_append indentation endLine).isInfix)⟩
  rw [sync, htext, regionText, searchIndentation_eq hblank hbefore hstart]
  obtain ⟨i, hi, hlen⟩ := Option.map_eq_some_iff.mp
    (@index_between _ _ (unlines old ++ (indentation ++ endLine ++ '\n' :: rest)) _ hstart
      (hbefore l List.mem_cons_self).1 hls)
  dsimp only
  rw [hi, Option.bind_some, indexFrom, hlen, List.drop_left, List.take_left]
  obtain ⟨j, hj, hlen'⟩ := Option.map_eq_some_iff.mp (@index_between _ _ rest _ hend hstart hold')
  rw [unlines_cons, List.append_assoc, List.cons_append] at hj
  have hdrop : (unlines (l :: ls) ++ (indentation ++ startLine ++ '\n' :: (unlines old ++ (indentation ++ endLine
      ++ '\n' :: rest)))).drop (j + (unlines (l :: ls)).length + indentation.length + endLine.length + 1)
      = '\n' :: rest := by
    have hsplit : unlines (l :: ls) ++ (indentation ++ startLine ++ '\n' :: (unlines old ++ (indentation ++ endLine
        ++ '\n' :: rest))) = (unlines (l :: ls) ++ unlines ((indentation ++ startLine) :: old)
        ++ (indentation ++ endLine)) ++ '\n' :: rest := by simp
    rw [hsplit, List.drop_left']
    simp only [List.length_append, ← hlen']
    omega
  rw [hj, Option.map_some, Option.map_some, hdrop]

end

/-! ### The lines of a workflow -/

section
variable {lines : List (Text × Text)} {policy : Policy} {w : Workflow}

theorem readText_eq_unlines (h : ∀ line ∈ lines, line.2 ≠ []) : readText lines = unlines (lines.map Prod.fst) := by
  induction lines with
  | nil => rfl
  | cons line lines ih =>
    obtain ⟨hline, hlines⟩ := List.forall_mem_cons.mp h
    have hread : readText (line :: lines) = line.1 ++ readStop line.2 ++ readText lines := rfl
    rw [hread, ih hlines, readStop, if_neg hline, List.map_cons, unlines_cons, List.append_assoc,
      List.singleton_append]

/-- Text mode keeps the lines that end in a newline. -/
theorem readText_eq_rawText (h : ∀ line ∈ lines, line.2 = [] ∨ line.2 = ['\n']) :
    readText lines = rawText lines := by
  induction lines with
  | nil => rfl
  | cons line lines ih =>
    obtain ⟨hline, hlines⟩ := List.forall_mem_cons.mp h
    have hstop : readStop line.2 = line.2 := by rcases hline with hline | hline <;> rw [hline] <;> rfl
    have hread : readText (line :: lines) = line.1 ++ readStop line.2 ++ readText lines := rfl
    rw [hread, hstop, ih hlines]
    rfl

theorem stop_before (w : Workflow) :
    ∀ line ∈ w.before ++ (w.indentation ++ startLine, w.startStop) :: w.old, line.2 ≠ [] := by
  intro line hline
  refine stop_ne_nil (s := w.content) ?_
  have hlines : rawLines w.content = (w.before ++ (w.indentation ++ startLine, w.startStop) :: w.old)
      ++ (w.indentation ++ endLine, w.endStop) :: w.after := by
    rw [w.lines]
    simp
  rw [hlines, List.dropLast_append_of_ne_nil (List.cons_ne_nil _ _)]
  exact List.mem_append_left _ hline

/-- What text mode reads of a workflow. -/
theorem text_workflow (w : Workflow) : universalNewlines w.content =
    regionText w.indentation (w.before.map Prod.fst) (w.old.map Prod.fst) (readText w.after) := by
  have hlines : readText (rawLines w.content) =
      readText (w.before ++ (w.indentation ++ startLine, w.startStop) :: w.old)
        ++ (w.indentation ++ endLine ++ readStop w.endStop ++ readText w.after) := by
    rw [w.lines]
    simp [readText]
  rw [universalNewlines_eq, hlines, readText_eq_unlines (stop_before w), readStop, if_neg w.ended, regionText]
  simp [unlines_append]

theorem mem_lines (w : Workflow) {line : Text × Text} (h : line ∈ w.before ++ w.old ++ w.after) :
    line ∈ rawLines w.content := by
  rw [w.lines]
  simp only [List.mem_append, List.mem_cons] at h ⊢
  tauto

theorem indentedLine_marker (indentation : Text) {marker : Text} (h : marker ≠ []) :
    indentedLine indentation marker = indentation ++ marker := if_pos h

/-- The region that a run writes. -/
theorem region_eq (policy : Policy) (indentation : Text) : region policy indentation =
    indentation ++ startLine ++ '\n' :: (unlines (policy.endpoints.map (indentedLine indentation))
      ++ (indentation ++ endLine ++ ['\n'])) := by
  rw [region, policy.lines, List.map_cons, List.map_append, List.map_singleton, unlines_cons, unlines_append,
    indentedLine_marker _ (by decide), indentedLine_marker _ (by decide), unlines_cons, unlines_nil]

theorem indentedEndpointList_eq (policy : Policy) (indentation rest : Text) :
    indentedEndpointList indentation (universalNewlines policy.content) ++ '\n' :: rest
      = region policy indentation ++ rest := by
  have hne : (splitlines policy.content).map (indentedLine indentation) ≠ [] := by
    rw [policy.lines]
    exact List.cons_ne_nil _ _
  rw [region, ← join_newline hne, indentedEndpointList, splitlines_universalNewlines, List.append_assoc,
    List.singleton_append]

/-- The lines around the markers are lines without them. -/
theorem line_workflow (w : Workflow) {lines : List (Text × Text)} (h : lines ⊆ w.before ++ w.old ++ w.after) :
    ∀ l ∈ lines.map Prod.fst, '\n' ∉ l ∧ Unmarked l := by
  intro l hl
  obtain ⟨line, hline, rfl⟩ := List.mem_map.mp hl
  exact ⟨(mem_rawLines (mem_lines w (h hline))).1.1, w.unmarked line (h hline)⟩

theorem line_before (w : Workflow) : ∀ l ∈ w.before.map Prod.fst, '\n' ∉ l ∧ ¬startLine <:+: l := by
  intro l hl
  obtain ⟨hnl, hunmarked⟩ := line_workflow w (fun _ h => by simp [h]) l hl
  exact ⟨hnl, hunmarked.1⟩

theorem line_old (w : Workflow) : ∀ l ∈ w.old.map Prod.fst, '\n' ∉ l ∧ ¬endLine <:+: l := by
  intro l hl
  obtain ⟨hnl, hunmarked⟩ := line_workflow w (fun _ h => by simp [h]) l hl
  exact ⟨hnl, hunmarked.2⟩

/-- What the first run leaves is a region again. -/
theorem line_endpoints (policy : Policy) (w : Workflow) :
    ∀ l ∈ policy.endpoints.map (indentedLine w.indentation), '\n' ∉ l ∧ ¬endLine <:+: l := by
  intro l hl
  obtain ⟨line, hline, rfl⟩ := List.mem_map.mp hl
  have hmem : line ∈ splitlines policy.content := by
    rw [policy.lines]
    exact List.mem_cons_of_mem _ (List.mem_append_left _ hline)
  have hnl : '\n' ∉ line := fun h => absurd (not_lineBreak_of_mem_splitlines line hmem _ h) (by decide)
  rw [indentedLine]
  split
  · refine ⟨not_newline w.blank hnl, fun h => (policy.unmarked line hline).2 ?_⟩
    have hhash : '#' ∉ w.indentation := fun h => absurd (w.blank _ h) (by decide)
    exact (Pipeline.infix_append_of_head_not_mem hhash).mp h
  · refine ⟨List.not_mem_nil, fun h => ?_⟩
    exact absurd (List.infix_nil.mp h) (by decide)

/-- A run. -/
theorem sync_workflow (policy : Policy) (w : Workflow) : sync policy.content w.content =
    some (unlines (w.before.map Prod.fst) ++ (region policy w.indentation ++ readText w.after)) := by
  have hfirst : w.before.map Prod.fst ≠ [] := fun h => w.first (List.map_eq_nil_iff.mp h)
  rw [sync_regionText w.blank hfirst (line_before w) (line_old w) (text_workflow w), List.append_assoc,
    indentedEndpointList_eq]

theorem not_mem_unlines {c : Char} (hc : c ≠ '\n') {ls : List Text} (h : ∀ l ∈ ls, c ∉ l) : c ∉ unlines ls := by
  induction ls with
  | nil => exact List.not_mem_nil
  | cons l ls ih =>
    obtain ⟨hl, hls⟩ := List.forall_mem_cons.mp h
    simp [hl, hc, ih hls]

theorem not_mem_region (policy : Policy) (w : Workflow) : '\r' ∉ region policy w.indentation := by
  refine not_mem_unlines (by decide) fun l hl => ?_
  obtain ⟨line, hline, rfl⟩ := List.mem_map.mp hl
  have hcr : '\r' ∉ line := fun h => absurd (not_lineBreak_of_mem_splitlines line hline _ h) (by decide)
  have hblank : '\r' ∉ w.indentation := fun h => absurd (w.blank _ h) (by decide)
  rw [indentedLine]
  split
  · simp [hblank, hcr]
  · exact List.not_mem_nil

/-- The line ends that a run leaves are newlines. -/
theorem not_mem_sync (policy : Policy) (w : Workflow) :
    '\r' ∉ unlines (w.before.map Prod.fst) ++ (region policy w.indentation ++ readText w.after) := by
  have htext := not_mem_universalNewlines w.content
  rw [text_workflow w, regionText] at htext
  simp only [List.mem_append, List.mem_cons, not_or] at htext ⊢
  exact ⟨htext.1, not_mem_region policy w, htext.2.2.2.2.2.2⟩

/-- The second run finds the region of the first. -/
theorem sync_again (policy : Policy) (w : Workflow) {result : Text}
    (h : sync policy.content w.content = some result) : sync policy.content result = some result := by
  have hfirst : w.before.map Prod.fst ≠ [] := fun h => w.first (List.map_eq_nil_iff.mp h)
  rw [sync_workflow] at h
  obtain rfl := Option.some.inj h
  have hregion : unlines (w.before.map Prod.fst) ++ (region policy w.indentation ++ readText w.after) =
      regionText w.indentation (w.before.map Prod.fst) (policy.endpoints.map (indentedLine w.indentation))
        (readText w.after) := by
    rw [region_eq, regionText]
    simp
  have hread := universalNewlines_eq_self (not_mem_sync policy w)
  rw [sync_regionText w.blank hfirst (line_before w) (line_endpoints policy w) (hread.trans hregion),
    List.append_assoc, indentedEndpointList_eq]

end

/-- CORRECT: a run writes the policy into the region and keeps all else exactly if no line outside the region
    ends in a carriage return; a second run never changes anything. -/
theorem synced_iff (policy : Policy) (w : Workflow) :
    Synced policy w ↔ ∀ line ∈ w.before ++ w.after, '\r' ∉ line.2 := by
  constructor
  · intro h line hline hcr
    have hframe := h.frame
    rw [sync_workflow] at hframe
    have heq := Option.some.inj hframe
    have hnot := not_mem_sync policy w
    rw [heq] at hnot
    refine hnot ?_
    have hraw : ∀ lines : List (Text × Text), line ∈ lines → '\r' ∈ rawText lines := fun lines hmem =>
      List.mem_flatMap.mpr ⟨line, hmem, List.mem_append_right _ hcr⟩
    rcases List.mem_append.mp hline with hline | hline
    · exact List.mem_append_left _ (List.mem_append_left _ (hraw _ hline))
    · exact List.mem_append_right _ (hraw _ hline)
  · intro h
    have hstop : ∀ line ∈ w.before ++ w.after, line.2 = [] ∨ line.2 = ['\n'] := by
      intro line hline
      have hmem : line ∈ w.before ++ w.old ++ w.after := by
        simp only [List.mem_append] at hline ⊢
        tauto
      have hcr := h line hline
      rcases (mem_rawLines (mem_lines w hmem)).2 with hs | hs | hs | hs
      · exact .inl hs
      · exact .inr hs
      · exact absurd (hs ▸ List.mem_singleton_self _) hcr
      · exact absurd (hs ▸ List.mem_cons_self) hcr
    have hbefore : unlines (w.before.map Prod.fst) = rawText w.before := by
      rw [← readText_eq_unlines fun line hline => stop_before w line (List.mem_append_left _ hline),
        readText_eq_rawText fun line hline => hstop line (List.mem_append_left _ hline)]
    have hafter : readText w.after = rawText w.after :=
      readText_eq_rawText fun line hline => hstop line (List.mem_append_right _ hline)
    refine ⟨?_, fun result => sync_again policy w⟩
    rw [sync_workflow, hbefore, hafter, List.append_assoc]

/-- A policy without endpoints. -/
def emptyPolicy : Policy where
  content := startLine ++ '\n' :: endLine
  endpoints := []
  lines := by decide +kernel
  unmarked := by simp

/-- A workflow whose first line ends in a carriage return and a newline. -/
def returnWorkflow : Workflow where
  content := "on:\r\n" ++ startLine ++ '\n' :: (endLine ++ ['\n'])
  before := [("on:", ['\r', '\n'])]
  indentation := []
  startStop := ['\n']
  old := []
  endStop := ['\n']
  after := []
  lines := by decide +kernel
  first := by simp
  blank := by simp
  ended := by simp
  unmarked := by
    unfold Unmarked
    decide +kernel

/-- It loses the carriage return. -/
theorem not_synced_return : ¬Synced emptyPolicy returnWorkflow := fun h => absurd h.frame (by decide +kernel)

end Tools.SyncEndpoints
