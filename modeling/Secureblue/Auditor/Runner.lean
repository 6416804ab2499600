import Mathlib
import Secureblue.Auditor.Report
import Secureblue.Py.Dict
import Secureblue.Trace

/-! The audit framework (`auditor/__init__.py`): checks are registered in order, then run in order,
    with a shared state; a run prints reports, or emits them as JSON.

    Registration refuses a check whose dependencies were not registered before. The run leaves out
    the skipped checks and goes on after a failed one without looking at the dependencies again, so
    that a check runs without a dependency exactly when that one is skipped or raises
    (`dependencies_first_iff`). The JSON mode passes no expectations, so that it differs from the
    text mode exactly when one of them is met (`json_eq_printed_iff`). -/

namespace Auditor
open Py Trace

/-! ### The code -/

section
variable {V E : Type}

/-- What a generator does when it is run: the reports it yields, then its exception, if it raises
    one, and the shared state it leaves. -/
structure Outcome (V E : Type) where
  reports : List Report
  raised : Option E
  state : Dict Text V

/-- The callback of a check, which takes the shared state if it is `stateful`. -/
inductive Callback (V E : Type) where
  | plain (reports : List Report) (raised : Option E)
  | stateful (gen : Dict Text V → Outcome V E)

def Callback.call : Callback V E → Dict Text V → Outcome V E
  | plain reports raised, state => { reports, raised, state }
  | stateful gen, state => gen state

/-- A single check done as part of an audit. -/
structure Check (V E : Type) where
  name : Text
  callback : Callback V E
  categories : Finset Text := ∅
  dependencies : List Text := []
  done : Bool := false
  reports : List Report := []
  recs : List Recommendation := []

/-- What a run of a check yields, its exception, and the check and the state it leaves. -/
structure CheckRun (V E : Type) where
  yielded : List Report
  raised : Option E
  check : Check V E
  state : Dict Text V

/-- `expectations.get(report.description) == report.status` -/
def suppressed (expectations : Dict Text Status) (report : Report) : Bool :=
  decide (expectations.get report.description = some report.status)

/-- `Check.run` -/
def Check.run (self : Check V E) (state : Dict Text V) (rerun : Bool := false)
    (expectations : Dict Text Status := ∅) : CheckRun V E :=
  if self.done && !rerun then ⟨[], none, self, state⟩
  else
    let out := self.callback.call state
    let yielded := out.reports.filter fun report => !suppressed expectations report
    { yielded
      raised := out.raised
      check := { self with
        reports := self.reports ++ yielded
        recs := self.recs ++ yielded.flatMap Report.recs
        done := if out.raised.isSome then self.done else true }
      state := out.state }

/-- A system audit. -/
structure Audit (V E : Type) where
  checks : List (Check V E)
  state : Dict Text V
  recs : List Recommendation
  categories : Finset Text
  skip : Finset Text
  expected : Dict Text Status

namespace Audit

/-- `Audit(skip=skip, expected=expected)` -/
def init (skip : Finset Text) (expected : Dict Text Status) : Audit V E :=
  { checks := [], state := ∅, recs := [], categories := ∅, skip, expected }

/-- `names` -/
def names (self : Audit V E) : List Text := self.checks.map Check.name

/-- `add_check`, or the message of its `DependencyError`. -/
def addCheck (self : Audit V E) (check : Check V E) : Except Text (Audit V E) :=
  match check.dependencies.find? (· ∉ self.names) with
  | some dep => .error (("'" : Text) ++ check.name ++ "' requires '" ++ dep ++ "' to be run first.")
  | none => .ok { self with
      categories := self.categories ∪ check.categories
      checks := self.checks ++ [check] }

/-- The checks registered one after another. -/
def register (self : Audit V E) (checks : List (Check V E)) : Except Text (Audit V E) :=
  checks.foldlM addCheck self

/-- `check.name in self.skip or check.categories & self.skip` -/
def isSkipped (self : Audit V E) (check : Check V E) : Bool :=
  decide (check.name ∈ self.skip ∨ (check.categories ∩ self.skip).Nonempty)

end Audit

/-- What happens in a run, with the call of a callback and its end marked. -/
inductive Event (V E : Type) where
  | started (check : Check V E) (state : Dict Text V)
  | printed (check : Check V E) (report : Report)
  | completed (check : Check V E) (state : Dict Text V)
  | failed (check : Check V E) (e : E)
  /-- `_print_recs` -/
  | recommendations (recs : List Recommendation)
  /-- the closing note on omitted results -/
  | omitted

/-- The state of the loop of `Audit.run`. -/
structure Progress (V E : Type) where
  state : Dict Text V
  recs : List Recommendation
  ran : List (Check V E)
  trace : List (Event V E)

/-- The events of one pass. -/
def Check.events (check : Check V E) (state : Dict Text V) (run : CheckRun V E) : List (Event V E) :=
  if check.done then []
  else .started check state :: run.yielded.map (.printed check) ++
    [match run.raised with
      | some e => .failed check e
      | none => .completed check run.state]

/-- One pass of the loop of `Audit.run`. -/
def Progress.runCheck (expected : Dict Text Status) (p : Progress V E) (check : Check V E) :
    Progress V E :=
  let run := check.run p.state false expected
  { state := run.state
    ran := p.ran ++ [run.check]
    trace := p.trace ++ check.events p.state run
    recs := match run.raised with
      | some _ => p.recs
      | none => p.recs ++ run.check.recs }

namespace Audit

/-- `Audit.run` -/
def run (self : Audit V E) : Progress V E :=
  let checks := self.checks.filter fun check => !self.isSkipped check
  let p := checks.foldl (Progress.runCheck self.expected) ⟨self.state, self.recs, [], []⟩
  { p with trace := p.trace ++ [.recommendations p.recs] ++
      if self.skip ≠ ∅ ∨ self.expected ≠ ∅ then [.omitted] else [] }

end Audit

/-- The object that is dumped for a report. -/
structure JsonRecord where
  name : Text
  categories : List Text
  description : Text
  status : Text
  /-- `text` and `status` of each note -/
  notes : List (Text × Option Text)
  /-- `text` and `mergeable_name` of each recommendation -/
  recommendations : List (Text × Option Text)
  deriving DecidableEq

def jsonRecord (check : Check V E) (report : Report) : JsonRecord where
  name := check.name
  categories := check.categories.sort (· ≤ ·)
  description := report.description
  status := report.status.lowerName
  notes := report.notes.map fun note => (note.text, note.status.map Status.lowerName)
  recommendations := report.recs.map fun rec => (rec.text, rec.mergeableName)

namespace Audit

/-- The loop of `run_json`: the emitted records, and the exception that ended it. -/
def runJsonFrom (self : Audit V E) : List (Check V E) → Dict Text V → List JsonRecord × Option E
  | [], _ => ([], none)
  | check :: checks, state =>
    if self.isSkipped check then runJsonFrom self checks state
    else
      let run := check.run state
      let records := run.yielded.map (jsonRecord check)
      match run.raised with
      | some e => (records, some e)
      | none =>
        let (rest, e) := runJsonFrom self checks run.state
        (records ++ rest, e)

/-- `run_json` -/
def runJson (self : Audit V E) : List JsonRecord × Option E := self.runJsonFrom self.checks self.state

end Audit

/-! ### Calls -/

/-- The callbacks that a run calls, each with the state it is called with. -/
def calls : List (Check V E) → Dict Text V → List (Check V E × Dict Text V)
  | [], _ => []
  | check :: checks, state =>
    if check.done then calls checks state
    else (check, state) :: calls checks (check.callback.call state).state

def Audit.calls (self : Audit V E) : List (Check V E × Dict Text V) :=
  Auditor.calls (self.checks.filter fun check => !self.isSkipped check) self.state

/-- The events of a call. -/
def callEvents (expected : Dict Text Status) (call : Check V E × Dict Text V) : List (Event V E) :=
  let out := call.1.callback.call call.2
  .started call.1 call.2 ::
    (out.reports.filter fun report => !suppressed expected report).map (.printed call.1) ++
      [match out.raised with
        | some e => .failed call.1 e
        | none => .completed call.1 out.state]

theorem trace_foldl (expected : Dict Text Status) : ∀ (checks : List (Check V E)) (p : Progress V E),
    (checks.foldl (Progress.runCheck expected) p).trace
      = p.trace ++ (calls checks p.state).flatMap (callEvents expected)
  | [], p => by simp [calls]
  | check :: checks, p => by
      rw [List.foldl_cons, trace_foldl expected checks, calls]
      rcases hd : check.done with _ | _
      · simp [Progress.runCheck, Check.run, Check.events, callEvents, hd]
      · simp [Progress.runCheck, Check.run, Check.events, hd]

/-- The trace of a run: its calls in order, then the closing events. -/
theorem trace_run (self : Audit V E) : ∃ closing, self.run.trace
    = self.calls.flatMap (callEvents self.expected) ++ closing ∧
      ∀ e ∈ closing, (∃ recs, e = .recommendations recs) ∨ e = .omitted := by
  refine ⟨_, by rw [Audit.run]; simp only [trace_foldl, List.nil_append, List.append_assoc]; rfl, ?_⟩
  intro e he
  rcases List.mem_append.mp he with he | he
  · exact .inl ⟨_, List.mem_singleton.mp he⟩
  · split at he
    · exact .inr (List.mem_singleton.mp he)
    · exact absurd he (by simp)

/-! ### Dependencies -/

/-- `R` relates each start of a check to the events before it. -/
def OnStart (R : List (Event V E) → Check V E → Dict Text V → Prop) (before : List (Event V E)) :
    Event V E → Prop
  | .started check state => R before check state
  | _ => True

/-- Each check starts after all its dependencies have completed. -/
def DependenciesFirst : List (Event V E) → Prop :=
  Each (OnStart fun before check _ => ∀ dep ∈ check.dependencies,
    ∃ dependency state, .completed dependency state ∈ before ∧ dependency.name = dep)

/-- Each check starts with every entry that the completed checks left in the shared state. -/
def EntriesPresent : List (Event V E) → Prop :=
  Each (OnStart fun before _ state => ∀ check state', .completed check state' ∈ before →
    ∀ key, (state'.get key).isSome → (state.get key).isSome)

/-- The check is skipped by its name or a category. -/
def Check.Skipped (skip : Finset Text) (check : Check V E) : Prop :=
  check.name ∈ skip ∨ (check.categories ∩ skip).Nonempty

instance (skip : Finset Text) (check : Check V E) : Decidable (check.Skipped skip) :=
  inferInstanceAs (Decidable (_ ∨ _))

/-- The callback of the check is to be called. -/
def Check.Due (skip : Finset Text) (check : Check V E) : Prop := ¬ check.Skipped skip ∧ check.done = false

instance (skip : Finset Text) (check : Check V E) : Decidable (check.Due skip) :=
  inferInstanceAs (Decidable (_ ∧ _))

/-- The shared state that the callbacks of the checks leave, one after another. -/
def stateAfter (skip : Finset Text) (checks : List (Check V E)) : Dict Text V :=
  checks.foldl (fun state check => if check.Due skip then (check.callback.call state).state else state) ∅

/-- Behind other checks, the check is not skipped, and its callback does not raise. -/
def Check.Completes (skip : Finset Text) (before : List (Check V E)) (check : Check V E) : Prop :=
  check.Due skip ∧ (check.callback.call (stateAfter skip before)).raised = none

/-- A check of the name completes. -/
def CompletesNamed (skip : Finset Text) (before : List (Check V E)) (name : Text) : Prop :=
  ∃ earlier check later, before = earlier ++ check :: later ∧ check.name = name ∧ check.Completes skip earlier

/-- For each check that is not skipped, one under each name that it depends on completes before. -/
def DependenciesComplete (skip : Finset Text) : List (Check V E) → Prop :=
  Each fun before check => check.Due skip → ∀ dep ∈ check.dependencies, CompletesNamed skip before dep

/-- No check that one depends on is skipped or raises, unless that one is skipped. -/
def NoneBroken (skip : Finset Text) (checks : List (Check V E)) : Prop :=
  Each (fun before dependency => (∃ check ∈ checks, check.Due skip ∧ dependency.name ∈ check.dependencies) →
    dependency.Completes skip before) checks

/-- The callback deletes no entry of the shared state. -/
def Check.KeepsEntries (check : Check V E) : Prop :=
  ∀ state key, (state.get key).isSome → ((check.callback.call state).state.get key).isSome

/-- A relation about the starts of checks is one about the calls of the run. -/
theorem each_started (self : Audit V E) (R : List (Event V E) → Check V E → Dict Text V → Prop) :
    Each (OnStart R) self.run.trace
      ↔ Each (fun before call => R (before.flatMap (callEvents self.expected)) call.1 call.2)
          self.calls := by
  obtain ⟨closing, htrace, hclosing⟩ := trace_run self
  have hend : ∀ before, Each (fun pre => OnStart R (before ++ pre)) closing := by
    intro before
    refine Each.of_forall fun pre e he => ?_
    rcases hclosing e he with ⟨recs, rfl⟩ | rfl <;> trivial
  rw [htrace, each_append, each_flatMap, and_iff_left (hend _)]
  refine each_congr fun before call => ?_
  rw [callEvents, List.cons_append, each_cons, List.append_nil]
  refine and_iff_left (Each.of_forall fun pre e he => ?_)
  rcases List.mem_append.mp he with he | he
  · obtain ⟨report, -, rfl⟩ := List.mem_map.mp he
    trivial
  · rw [List.mem_singleton.mp he]
    split <;> trivial

/-- The completed calls of a part of a run. -/
theorem mem_completed {expected : Dict Text Status} {before : List (Check V E × Dict Text V)}
    {check : Check V E} {state : Dict Text V} :
    .completed check state ∈ before.flatMap (callEvents expected)
      ↔ ∃ call ∈ before, call.1 = check ∧ (call.1.callback.call call.2).raised = none ∧
          (call.1.callback.call call.2).state = state := by
  rw [List.mem_flatMap]
  refine exists_congr fun call => and_congr_right fun _ => ?_
  simp only [callEvents, List.cons_append, List.mem_cons, List.mem_append, List.mem_map]
  rcases (call.1.callback.call call.2).raised with _ | e
  · simp only [reduceCtorEq, and_false, exists_false, false_or, List.not_mem_nil, or_false,
      Event.completed.injEq, true_and]
    exact and_congr eq_comm eq_comm
  · simp

/-- Each call comes after one of each dependency that does not raise. -/
theorem dependencies_iff (self : Audit V E) : DependenciesFirst self.run.trace ↔
    Each (fun before call => ∀ dep ∈ call.1.dependencies, ∃ call' ∈ before, call'.1.name = dep ∧
      (call'.1.callback.call call'.2).raised = none) self.calls := by
  rw [DependenciesFirst, each_started]
  refine each_congr fun before call => forall₂_congr fun dep _ => ?_
  constructor
  · rintro ⟨dependency, state, hmem, rfl⟩
    obtain ⟨call', hcall', rfl, hraised, -⟩ := mem_completed.mp hmem
    exact ⟨call', hcall', rfl, hraised⟩
  · rintro ⟨call', hcall', rfl, hraised⟩
    exact ⟨call'.1, _, mem_completed.mpr ⟨call', hcall', rfl, hraised, rfl⟩, rfl⟩

/-- The calls of a run that starts in some state. -/
def dueCallsFrom (skip : Finset Text) (checks : List (Check V E)) (state : Dict Text V) :
    List (Check V E × Dict Text V) :=
  calls (checks.filter fun check => !decide (check.Skipped skip)) state

/-- The calls of a run from the empty state. -/
def dueCalls (skip : Finset Text) (checks : List (Check V E)) : List (Check V E × Dict Text V) :=
  dueCallsFrom skip checks ∅

/-- The first check is called if it is due. -/
theorem dueCallsFrom_cons (skip : Finset Text) (check : Check V E) (checks : List (Check V E))
    (state : Dict Text V) : dueCallsFrom skip (check :: checks) state = if check.Due skip
      then (check, state) :: dueCallsFrom skip checks (check.callback.call state).state
      else dueCallsFrom skip checks state := by
  by_cases hs : check.Skipped skip
  · simp [dueCallsFrom, Check.Due, hs]
  · cases hd : check.done <;> simp [dueCallsFrom, calls, Check.Due, hs, hd]

/-- One check more is one call more, with the state that the others leave, if it is due. -/
theorem dueCallsFrom_concat (skip : Finset Text) (check : Check V E) : ∀ (checks : List (Check V E))
    (state : Dict Text V), dueCallsFrom skip (checks ++ [check]) state = dueCallsFrom skip checks state ++
      if check.Due skip then [(check, checks.foldl (fun state check => if check.Due skip
        then (check.callback.call state).state else state) state)] else []
  | [], state => by
      rw [List.nil_append, dueCallsFrom_cons]
      rfl
  | c :: checks, state => by
      rw [List.cons_append, dueCallsFrom_cons, dueCallsFrom_cons, List.foldl_cons,
        dueCallsFrom_concat skip check checks,
        dueCallsFrom_concat skip check checks]
      split <;> rfl

theorem dueCalls_concat (skip : Finset Text) (checks : List (Check V E)) (check : Check V E) :
    dueCalls skip (checks ++ [check]) =
      dueCalls skip checks ++ if check.Due skip then [(check, stateAfter skip checks)] else [] :=
  dueCallsFrom_concat skip check checks ∅

/-- The calls of a run are the due checks, each with the state that those before it leave. -/
theorem each_dueCalls {skip : Finset Text} {checks : List (Check V E)}
    {R : List (Check V E × Dict Text V) → Check V E × Dict Text V → Prop} :
    Each R (dueCalls skip checks) ↔ Each (fun before check => check.Due skip →
      R (dueCalls skip before) (check, stateAfter skip before)) checks := by
  induction checks using List.reverseRecOn with
  | nil => exact ⟨fun _ => Each.nil, fun _ => Each.nil⟩
  | append_singleton checks check ih =>
    rw [dueCalls_concat, each_append, each_append, ih, each_cons, List.append_nil, and_iff_left Each.nil]
    refine and_congr_right fun _ => ?_
    split
    · next h => simp [each_cons, h, Each.nil]
    · next h => simp [h, Each.nil]

theorem mem_dueCalls {skip : Finset Text} {checks : List (Check V E)} {check : Check V E}
    {state : Dict Text V} : (check, state) ∈ dueCalls skip checks ↔
      ∃ earlier later, checks = earlier ++ check :: later ∧ check.Due skip ∧ state = stateAfter skip earlier := by
  induction checks using List.reverseRecOn with
  | nil => simp [dueCalls, dueCallsFrom, calls]
  | append_singleton checks c ih =>
    rw [dueCalls_concat, List.mem_append, ih]
    constructor
    · rintro (⟨earlier, later, rfl, hdue, rfl⟩ | hlast)
      · exact ⟨earlier, later ++ [c], by simp, hdue, rfl⟩
      · split at hlast
        · next hdue =>
          obtain ⟨rfl, rfl⟩ := Prod.mk.inj (List.mem_singleton.mp hlast)
          exact ⟨checks, [], rfl, hdue, rfl⟩
        · exact absurd hlast (by simp)
    · rintro ⟨earlier, later, hsplit, hdue, rfl⟩
      rcases List.eq_nil_or_concat later with rfl | ⟨later, last, rfl⟩
      · obtain ⟨rfl, hlast⟩ := List.append_inj' hsplit rfl
        obtain rfl := (List.singleton_inj.mp hlast)
        exact .inr (by simp [hdue])
      · rw [List.concat_eq_append, ← List.cons_append, ← List.append_assoc] at hsplit
        obtain ⟨rfl, -⟩ := List.append_inj' hsplit rfl
        exact .inl ⟨earlier, later, rfl, hdue, rfl⟩

/-- A call that does not raise is that of a check that completes. -/
theorem completesNamed_iff {skip : Finset Text} {before : List (Check V E)} {name : Text} :
    CompletesNamed skip before name ↔ ∃ call ∈ dueCalls skip before, call.1.name = name ∧
      (call.1.callback.call call.2).raised = none := by
  constructor
  · rintro ⟨earlier, check, later, hsplit, hname, hdue, hraised⟩
    exact ⟨(check, _), mem_dueCalls.mpr ⟨earlier, later, hsplit, hdue, rfl⟩, hname, hraised⟩
  · rintro ⟨⟨check, state⟩, hcall, hname, hraised⟩
    obtain ⟨earlier, later, hsplit, hdue, rfl⟩ := mem_dueCalls.mp hcall
    exact ⟨earlier, check, later, hsplit, hname, hdue, hraised⟩

/-- Callbacks that delete no entry are called with all the entries of the initial state. -/
theorem calls_keep : ∀ {checks : List (Check V E)}, (∀ c ∈ checks, c.KeepsEntries) →
    ∀ {state : Dict Text V} {call : Check V E × Dict Text V}, call ∈ calls checks state →
    ∀ key, (state.get key).isSome → (call.2.get key).isSome
  | [], _, _, _, hcall, _, _ => absurd hcall (by simp [calls])
  | check :: checks, h, state, call, hcall, key, hkey => by
      have hchecks : ∀ c ∈ checks, c.KeepsEntries := fun c hc => h c (List.mem_cons_of_mem _ hc)
      rw [calls] at hcall
      split at hcall
      · exact calls_keep hchecks hcall key hkey
      · rcases List.mem_cons.mp hcall with rfl | hcall
        · exact hkey
        · exact calls_keep hchecks hcall key (h check List.mem_cons_self state key hkey)

/-- And with all the entries that the calls before them left. -/
theorem calls_entries : ∀ {checks : List (Check V E)}, (∀ c ∈ checks, c.KeepsEntries) →
    ∀ state : Dict Text V, Each (fun before call => ∀ call' ∈ before, ∀ key,
      ((call'.1.callback.call call'.2).state.get key).isSome → (call.2.get key).isSome)
      (calls checks state)
  | [], _, _ => Each.nil
  | check :: checks, h, state => by
      have hchecks : ∀ c ∈ checks, c.KeepsEntries := fun c hc => h c (List.mem_cons_of_mem _ hc)
      rw [calls]
      split
      · exact calls_entries hchecks state
      · refine each_cons.mpr ⟨nofun, fun before call after hcalls call' hcall' key hkey => ?_⟩
        rcases List.mem_cons.mp hcall' with rfl | hcall'
        · exact calls_keep hchecks (hcalls ▸ List.mem_append_right _ List.mem_cons_self) key hkey
        · exact calls_entries hchecks _ before call after hcalls call' hcall' key hkey

/-- Registration keeps the checks, in order, and the rest of the audit. -/
theorem register_eq_ok : ∀ {checks : List (Check V E)} {self a : Audit V E},
    self.register checks = .ok a → a.checks = self.checks ++ checks ∧ a.skip = self.skip ∧
      a.expected = self.expected ∧ a.recs = self.recs ∧ a.state = self.state
  | [], self, a, h => by
      obtain rfl : self = a := Except.ok.inj h
      exact ⟨(List.append_nil _).symm, rfl, rfl, rfl, rfl⟩
  | check :: checks, self, a, h => by
      rw [Audit.register, List.foldlM_cons, Audit.addCheck] at h
      split at h
      · exact nomatch h
      · have hrest : Audit.register _ checks = .ok a := h
        obtain ⟨hchecks, hrest⟩ := register_eq_ok hrest
        exact ⟨by simpa using hchecks, hrest⟩

/-- Registered checks name dependencies that were registered before. -/
theorem register_dependencies : ∀ {checks : List (Check V E)} {self a : Audit V E},
    self.register checks = .ok a → Each (fun before check => ∀ dep ∈ check.dependencies,
      ∃ dependency ∈ self.checks ++ before, dependency.name = dep) checks
  | [], _, _, _ => Each.nil
  | check :: checks, self, a, h => by
      rw [Audit.register, List.foldlM_cons, Audit.addCheck] at h
      split at h
      · exact nomatch h
      · next hfind =>
        have hrest : Audit.register _ checks = .ok a := h
        refine each_cons.mpr ⟨fun dep hdep => ?_, ?_⟩
        · have hname := List.find?_eq_none.mp hfind dep hdep
          simpa [Audit.names] using hname
        · exact (each_congr fun before c => by simp).mp (register_dependencies hrest)

/-- Of checks with names of their own, those that another one depends on are the ones registered before
    it. -/
theorem complete_iff_noneBroken {skip : Finset Text} {checks : List (Check V E)}
    (hregistered : Each (fun before check => ∀ dep ∈ check.dependencies,
      ∃ dependency ∈ before, dependency.name = dep) checks) (hnames : (checks.map Check.name).Nodup) :
    DependenciesComplete skip checks ↔ NoneBroken skip checks := by
  -- a place is told by the name
  have hplace : ∀ {before before' after after' : List (Check V E)} {check check' : Check V E},
      checks = before ++ check :: after → checks = before' ++ check' :: after' → check.name = check'.name →
        before = before' ∧ check = check' := by
    intro before before' after after' check check' hsplit hsplit' hname
    have hbefore : ∀ {before after : List (Check V E)} {check : Check V E}, checks = before ++ check :: after →
        check.name ∉ before.map Check.name := by
      rintro before after check rfl hmem
      rw [List.map_append, List.map_cons, List.nodup_append] at hnames
      exact hnames.2.2 _ hmem _ List.mem_cons_self rfl
    have hmap : before.map Check.name = before'.map Check.name := by
      have hcut := congrArg (List.map Check.name) (hsplit.symm.trans hsplit')
      rw [List.map_append, List.map_append, List.map_cons, List.map_cons, ← hname] at hcut
      exact (Occurs.cut_unique (hbefore hsplit) (hname ▸ hbefore hsplit') hcut).1
    have hlength : before.length = before'.length := by simpa using congrArg List.length hmap
    obtain ⟨rfl, htail⟩ := List.append_inj (hsplit.symm.trans hsplit') hlength
    exact ⟨rfl, (List.cons.inj htail).1⟩
  constructor
  · rintro h before dependency after hsplit ⟨check, hcheck, hdue, hdep⟩
    obtain ⟨before', after', hsplit'⟩ := List.append_of_mem hcheck
    obtain ⟨earlier, found, later, hearlier, hname, hcompletes⟩ := h before' check after' hsplit' hdue _ hdep
    obtain ⟨rfl, rfl⟩ := hplace (by rw [hsplit', hearlier, List.append_assoc, List.cons_append]) hsplit hname
    exact hcompletes
  · intro h before check after hsplit hdue dep hdep
    obtain ⟨dependency, hmem, rfl⟩ := hregistered before check after hsplit dep hdep
    obtain ⟨earlier, later, rfl⟩ := List.append_of_mem hmem
    refine ⟨earlier, dependency, later, rfl, rfl, h earlier dependency (later ++ check :: after) ?_ ?_⟩
    · rw [hsplit, List.append_assoc, List.cons_append]
    · exact ⟨check, hsplit ▸ List.mem_append_right _ List.mem_cons_self, hdue, hdep⟩

/-- CORRECT: in a run of registered checks each starts after all its dependencies have completed iff
    under each name that an unskipped check depends on one registered before it completes: if the names
    differ, iff no dependency of an unskipped check is skipped or raises. And if no callback deletes
    entries of the shared state, each starts with the entries of the completed ones. -/
theorem dependencies_first_iff {skip : Finset Text} {expected : Dict Text Status}
    {checks : List (Check V E)} {a : Audit V E}
    (h : (Audit.init skip expected).register checks = .ok a) :
    (DependenciesFirst a.run.trace ↔ DependenciesComplete skip checks) ∧
      ((checks.map Check.name).Nodup → (DependenciesFirst a.run.trace ↔ NoneBroken skip checks)) ∧
      ((∀ check ∈ checks, check.KeepsEntries) → EntriesPresent a.run.trace) := by
  obtain ⟨hchecks, hskip, -, -, hstate⟩ := register_eq_ok h
  have hchecks : a.checks = checks := hchecks
  have hcalls : a.calls = dueCalls skip checks := by
    rw [Audit.calls, hchecks, hstate]
    simp only [Audit.isSkipped, hskip]
    rfl
  have hcomplete : DependenciesFirst a.run.trace ↔ DependenciesComplete skip checks := by
    rw [dependencies_iff, hcalls, each_dueCalls]
    exact each_congr fun before check => imp_congr_right fun _ =>
      forall₂_congr fun dep _ => completesNamed_iff.symm
  refine ⟨hcomplete, fun hnames => ?_, fun hkeep => ?_⟩
  · exact hcomplete.trans (complete_iff_noneBroken (register_dependencies h) hnames)
  · have hran : ∀ c ∈ a.checks.filter fun check => !a.isSkipped check, c.KeepsEntries := fun c hc =>
      hkeep c (hchecks ▸ List.mem_of_mem_filter hc)
    rw [EntriesPresent, each_started]
    intro before call after hcalls check state' hmem key hkey
    obtain ⟨call', hcall', -, -, rfl⟩ := mem_completed.mp hmem
    exact calls_entries hran a.state before call after hcalls call' hcall' key hkey

/-- A module check that records a fact. -/
def modprobeCheck : Check Bool Exn where
  name := "audit_modprobe"
  callback := .stateful fun state => ⟨[⟨"Ensuring no modprobe overrides", .pass, [], []⟩], none,
    state.set "bluetooth_loaded" false⟩

/-- A permission check that needs the fact. -/
def permissionsCheck : Check Bool Exn where
  name := "audit_flatpak_permissions"
  callback := .stateful fun state => match state.get "bluetooth_loaded" with
    | none => ⟨[], some .keyError, state⟩
    | some _ => ⟨[], none, state⟩
  categories := {("flatpak" : Text)}
  dependencies := ["audit_modprobe"]

theorem dependencies_first_both : ∃ a : Audit Bool Exn,
    (Audit.init ∅ ∅).register [modprobeCheck, permissionsCheck] = .ok a ∧
      (DependenciesFirst a.run.trace ↔ NoneBroken ∅ [modprobeCheck, permissionsCheck]) ∧
      EntriesPresent a.run.trace := by
  have h : (Audit.init ∅ ∅).register [modprobeCheck, permissionsCheck] = .ok _ := rfl
  obtain ⟨-, hiff, hentries⟩ := dependencies_first_iff h
  refine ⟨_, h, hiff (by decide +kernel), hentries fun check hcheck state key hkey => ?_⟩
  rcases List.mem_pair.mp hcheck with rfl | rfl
  · change ((state.set "bluetooth_loaded" false).get key).isSome
    rw [Dict.get_set]
    split
    · rfl
    · exact hkey
  · change ((match state.get "bluetooth_loaded" with
      | none => (⟨[], some .keyError, state⟩ : Outcome Bool Exn)
      | some _ => ⟨[], none, state⟩).state.get key).isSome
    split <;> exact hkey

/-- With the dependency skipped, the dependent check starts all the same, and raises. -/
theorem skipped_dependency_started : ∃ a,
    (Audit.init {("audit_modprobe" : Text)} ∅).register [modprobeCheck, permissionsCheck] = .ok a ∧
      .failed permissionsCheck .keyError ∈ a.run.trace ∧ ¬ DependenciesFirst a.run.trace := by
  refine ⟨_, rfl, ?_⟩
  generalize ha : Audit.mk _ _ _ _ _ _ = a
  have hcalls : a.calls = [(permissionsCheck, ∅)] := by
    rw [← ha]
    rfl
  constructor
  · obtain ⟨closing, htrace, -⟩ := trace_run a
    have hevents : callEvents a.expected (permissionsCheck, ∅)
        = [.started permissionsCheck ∅, .failed permissionsCheck .keyError] := rfl
    rw [htrace, hcalls, List.flatMap_singleton, hevents]
    exact List.mem_append_left _ (List.mem_cons_of_mem _ List.mem_cons_self)
  · rw [dependencies_iff, hcalls]
    intro h
    obtain ⟨call, hcall, -⟩ := h [] (permissionsCheck, ∅) [] rfl _ List.mem_cons_self
    exact absurd hcall List.not_mem_nil

/-! ### The two modes -/

/-- Everything the called callbacks yield. -/
def yields (calls : List (Check V E × Dict Text V)) : List (Check V E × Report) :=
  calls.flatMap fun call => (call.1.callback.call call.2).reports.map (call.1, ·)

/-- The reports printed in a run, each with its check. -/
def printedReports (trace : List (Event V E)) : List (Check V E × Report) :=
  trace.filterMap fun
    | .printed check report => some (check, report)
    | _ => none

/-- A record determines the name of the check and the report. -/
theorem jsonRecord_inj {check check' : Check V E} {report report' : Report}
    (h : jsonRecord check report = jsonRecord check' report') :
    check.name = check'.name ∧ report = report' := by
  obtain ⟨description, status, notes, recs⟩ := report
  obtain ⟨description', status', notes', recs'⟩ := report'
  simp only [jsonRecord, JsonRecord.mk.injEq] at h
  obtain ⟨hname, -, rfl, hstatus, hnotes, hrecs⟩ := h
  obtain rfl := Status.lowerName_injective hstatus
  have hnote : Function.Injective fun note : Note => (note.text, note.status.map Status.lowerName) := by
    rintro ⟨text, status⟩ ⟨text', status'⟩ he
    obtain ⟨rfl, he⟩ := Prod.mk.inj he
    obtain rfl := Option.map_injective Status.lowerName_injective he
    rfl
  have hrec : Function.Injective fun rec : Recommendation => (rec.text, rec.mergeableName) := by
    rintro ⟨text, name⟩ ⟨text', name'⟩ he
    obtain ⟨rfl, rfl⟩ := Prod.mk.inj he
    rfl
  rw [List.map_injective_iff.mpr hnote hnotes, List.map_injective_iff.mpr hrec hrecs]
  exact ⟨hname, rfl⟩

theorem printedReports_append (l m : List (Event V E)) :
    printedReports (l ++ m) = printedReports l ++ printedReports m := List.filterMap_append

theorem printedReports_call (expected : Dict Text Status) (call : Check V E × Dict Text V) :
    printedReports (callEvents expected call)
      = ((call.1.callback.call call.2).reports.map (call.1, ·)).filter
          fun e => !suppressed expected e.2 := by
  have hend : printedReports [match (call.1.callback.call call.2).raised with
      | some e => .failed call.1 e
      | none => .completed call.1 (call.1.callback.call call.2).state] = [] := by
    split <;> rfl
  have hmap : ∀ reports : List Report,
      printedReports (reports.map (.printed call.1) : List (Event V E)) = reports.map (call.1, ·) := by
    intro reports
    rw [printedReports, List.filterMap_map]
    exact congrFun (List.filterMap_eq_map (f := fun report => (call.1, report))) reports
  rw [callEvents, List.cons_append]
  change printedReports (_ ++ _) = _
  rw [printedReports_append, hend, List.append_nil, hmap, List.filter_map]
  rfl

/-- The text mode prints what is yielded and not suppressed. -/
theorem printed_run (self : Audit V E) : printedReports self.run.trace
    = (yields self.calls).filter fun e => !suppressed self.expected e.2 := by
  obtain ⟨closing, htrace, hclosing⟩ := trace_run self
  have hend : printedReports closing = [] := by
    refine List.filterMap_eq_nil_iff.mpr fun e he => ?_
    rcases hclosing e he with ⟨recs, rfl⟩ | rfl <;> rfl
  have hcalls : ∀ cs : List (Check V E × Dict Text V),
      printedReports (cs.flatMap (callEvents self.expected))
        = (yields cs).filter fun e => !suppressed self.expected e.2 := by
    intro cs
    induction cs with
    | nil => rfl
    | cons call cs ih =>
      rw [List.flatMap_cons, printedReports_append, printedReports_call, ih, yields, yields,
        List.flatMap_cons, List.filter_append]
  rw [htrace, printedReports_append, hend, List.append_nil, hcalls]

/-- The JSON mode emits everything that is yielded, if no callback raises. -/
theorem json_run (self : Audit V E) : ∀ {checks : List (Check V E)},
    (∀ c ∈ checks, ∀ state, (c.callback.call state).raised = none) → ∀ state,
      (self.runJsonFrom checks state).1
        = (yields (calls (checks.filter fun check => !self.isSkipped check) state)).map
            fun e => jsonRecord e.1 e.2
  | [], _, _ => rfl
  | check :: checks, h, state => by
      have hchecks := json_run self fun c hc => h c (List.mem_cons_of_mem _ hc)
      rw [Audit.runJsonFrom]
      rcases hs : self.isSkipped check with _ | _
      · rw [if_neg Bool.false_ne_true, List.filter_cons_of_pos (by simp [hs]), calls]
        rcases hd : check.done with _ | _
        · have hraised := h check List.mem_cons_self state
          have hall : (check.callback.call state).reports.filter
              (fun report => !suppressed ∅ report) = (check.callback.call state).reports :=
            List.filter_eq_self.mpr fun report _ => rfl
          simp only [Check.run, hd, Bool.false_and, Bool.false_eq_true, if_false, hraised, hall,
            hchecks, yields, List.flatMap_cons, List.map_append, List.map_map]
          rfl
        · simp only [Check.run, hd, Bool.true_and, Bool.not_false, if_true, hchecks, List.map_nil,
            List.nil_append]
      · rw [if_pos rfl, List.filter_cons_of_neg (by simp [hs]), hchecks]

/-- CORRECT: of checks whose callbacks do not raise, the two modes show the same reports iff no
    yielded report has the status that is expected of its description; and a record tells the check and
    the whole report. -/
theorem json_eq_printed_iff (self : Audit V E)
    (h : ∀ c ∈ self.checks, ∀ state, (c.callback.call state).raised = none) :
    (self.runJson.1 = (printedReports self.run.trace).map (fun e => jsonRecord e.1 e.2)
      ↔ ∀ e ∈ yields self.calls, self.expected.get e.2.description ≠ some e.2.status) ∧
    ∀ (check check' : Check V E) (report report' : Report),
      jsonRecord check report = jsonRecord check' report' → check.name = check'.name ∧ report = report' := by
  refine ⟨?_, fun _ _ _ _ => jsonRecord_inj⟩
  rw [Audit.runJson, json_run self h, printed_run]
  change (yields self.calls).map _ = _ ↔ _
  have hkeep : ∀ e : Check V E × Report, (!suppressed self.expected e.2) = true
      ↔ self.expected.get e.2.description ≠ some e.2.status := fun e => by simp [suppressed]
  constructor
  · intro heq e he
    have hlen := congrArg List.length heq
    rw [List.length_map, List.length_map] at hlen
    exact (hkeep e).mp (List.length_filter_eq_length_iff.mp hlen.symm e he)
  · intro hall
    rw [List.filter_eq_self.mpr fun e he => (hkeep e).mpr (hall e he)]

/-- An audit of the module check. -/
def modprobeAudit (expected : Dict Text Status) : Audit Bool Exn :=
  { (Audit.init ∅ expected : Audit Bool Exn) with checks := [modprobeCheck] }

theorem modprobe_not_raises (expected : Dict Text Status) : ∀ c ∈ (modprobeAudit expected).checks, ∀ state,
    (c.callback.call state).raised = none := by
  intro c hc state
  rw [List.mem_singleton.mp hc]
  rfl

theorem json_eq_printed_modprobe : (modprobeAudit ∅).runJson.1
      = (printedReports (modprobeAudit ∅).run.trace).map (fun e => jsonRecord e.1 e.2)
    ↔ ∀ e ∈ yields (modprobeAudit ∅).calls,
        (modprobeAudit ∅).expected.get e.2.description ≠ some e.2.status :=
  (json_eq_printed_iff (modprobeAudit ∅) (modprobe_not_raises ∅)).1

/-- A report with the expected status: only the JSON mode shows it. -/
theorem expected_report_emitted :
    let a := modprobeAudit (Dict.ofList [("Ensuring no modprobe overrides", .pass)])
    printedReports a.run.trace = [] ∧
      a.runJson.1 ≠ (printedReports a.run.trace).map fun e => jsonRecord e.1 e.2 := by
  intro a
  have hprinted : printedReports a.run.trace = [] := by
    rw [printed_run]
    rfl
  have hjson : a.runJson.1.length = 1 := rfl
  refine ⟨hprinted, fun h => ?_⟩
  rw [h, hprinted] at hjson
  exact nomatch hjson

end

end Auditor
