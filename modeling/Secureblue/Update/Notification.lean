import Mathlib.Data.List.Count
import Secureblue.Py.Text

/-! The notifications of `security-update-notification`, at most one of a kind a day.

    A run recognises the ones before it by two stamp files with a date. It reads them in a command
    substitution with two redirections, which bash takes for a command without output. -/

namespace Update.Notification
open Py

/-! ### The stamps -/

/-- The output of `date '+%Y%m%d'`. -/
structure Date where
  text : Text
  ne_nil : text ≠ []
  deriving DecidableEq

/-- A redirection in a command. -/
inductive Redirection where
  | errors
  | input (file : Option Text)

/-- `$(…)` of redirections alone: only `$(< file)` is the contents of the file. -/
def substitution : List Redirection → Text
  | [.input (some content)] => content.rdropWhile (· = '\n')
  | _ => []

inductive Urgency where | normal | critical
  deriving DecidableEq

/-- The stamp files, and the notifications that have been sent. -/
structure State where
  criticalTimestampFile : Option Text
  normalTimestampFile : Option Text
  sent : List (Date × Urgency)

/-- `[[ "$(2>/dev/null <"${timestamp_file}")" == "${timestamp_today}" ]]` -/
def recent (timestampFile : Option Text) (timestampToday : Date) : Bool :=
  decide (substitution [.errors, .input timestampFile] = timestampToday.text)

def recentCriticalNotification (today : Date) (s : State) : Bool := recent s.criticalTimestampFile today

def recentNormalNotification (today : Date) (s : State) : Bool := recent s.normalTimestampFile today

def stamp (today : Date) : Text := today.text ++ ['\n']

def writeCriticalTimestamp (today : Date) (s : State) : State :=
  { s with criticalTimestampFile := some (stamp today) }

def writeNormalTimestamp (today : Date) (s : State) : State :=
  { s with normalTimestampFile := some (stamp today) }

def notifySend (today : Date) (urgency : Urgency) (s : State) : State :=
  { s with sent := s.sent ++ [(today, urgency)] }

def notifyCritical (today : Date) (s : State) : State :=
  writeCriticalTimestamp today (notifySend today .critical s)

def notifyNormal (today : Date) (s : State) : State :=
  if !recentNormalNotification today s then writeNormalTimestamp today (notifySend today .normal s) else s

/-! ### The update -/

/-- An advisory of a cached update. -/
structure Advisory where
  kind : ℕ
  severity : ℕ

/-- `cached-update`: the names of the packages that it upgrades, and its advisories. -/
structure CachedUpdate where
  upgraded : List Text
  advisories : List Advisory

inductive Severity where | none | low | moderate | important | critical | unknown
  deriving DecidableEq

/-- The lines of the names, one package each. -/
def upgradedPackages (update : CachedUpdate) : List Text := update.upgraded.flatMap fun name => name.splitOn '\n'

def kernelUpdated (update : CachedUpdate) : Bool := "kernel".toList ∈ upgradedPackages update

def trivalentUpdated (update : CachedUpdate) : Bool := "trivalent".toList ∈ upgradedPackages update

/-- `[.advisories[]? | select(.[1] == 1) | .[2]] | max`, as a string. -/
def maxAdvisorySeverity (update : CachedUpdate) : Severity :=
  match ((update.advisories.filter fun advisory => advisory.kind = 1).map Advisory.severity).max? with
  | Option.none => .none
  | some 1 => .low
  | some 2 => .moderate
  | some 3 => .important
  | some 4 => .critical
  | some _ => .unknown

/-! ### The script -/

/-- What a run finds: the date, whether a deployment is staged, the cached update. -/
structure Run where
  timestampToday : Date
  staged : Bool
  cachedUpdate : Option CachedUpdate

/-- `security-update-notification`, with or without `/usr/bin/rpm-ostree`. -/
def securityUpdateNotification (rpmOstree : Bool) (r : Run) (s : State) : State :=
  if recentCriticalNotification r.timestampToday s then s
  else if !rpmOstree then
    if r.staged then notifyCritical r.timestampToday s else s
  else match r.cachedUpdate with
  | none => s
  | some update =>
    if trivalentUpdated update || maxAdvisorySeverity update = .critical then notifyCritical r.timestampToday s
    else if kernelUpdated update || maxAdvisorySeverity update = .important
        || maxAdvisorySeverity update = .unknown then
      notifyNormal r.timestampToday s
    else s

/-- The runs one after the other. -/
def runs (rpmOstree : Bool) (s : State) (rs : List Run) : State :=
  rs.foldl (fun s r => securityUpdateNotification rpmOstree r s) s

/-! ### The throttle -/

/-- At most one notification of a kind a day, and no normal one after a critical one. -/
structure Throttled (sent : List (Date × Urgency)) : Prop where
  critical : ∀ date, sent.count (date, .critical) ≤ 1
  normal : ∀ date, sent.count (date, .normal) ≤ 1
  order : ∀ date, ¬List.Sublist [(date, .critical), (date, .normal)] sent

/-- The notification that an update calls for. -/
def CachedUpdate.urgency (update : CachedUpdate) : Option Urgency :=
  if trivalentUpdated update || maxAdvisorySeverity update = .critical then some .critical
  else if kernelUpdated update || maxAdvisorySeverity update = .important
      || maxAdvisorySeverity update = .unknown then some .normal
  else none

/-- The notification that a run on an rpm-ostree system calls for. -/
def Run.urgency (r : Run) : Option Urgency := r.cachedUpdate.bind CachedUpdate.urgency

/-- The only two runs on one day that call for a notification are a normal one and a critical one, in this
    order. -/
def SeparateDays (rs : List Run) : Prop := rs.Pairwise fun r r' => r.timestampToday = r'.timestampToday →
  ∀ u ∈ r.urgency, ∀ u' ∈ r'.urgency, u = .normal ∧ u' = .critical

section
variable {r : Run} {rs : List Run} {s : State} {sent : List (Date × Urgency)}

theorem throttled_iff : Throttled sent ↔
    sent.Pairwise fun a b => a.1 = b.1 → a.2 = .normal ∧ b.2 = .critical := by
  rw [List.pairwise_iff_forall_sublist]
  constructor
  · rintro h ⟨date, u⟩ ⟨date', u'⟩ hsub rfl
    cases u with
    | normal =>
      cases u' with
      | normal =>
        have htwice : 2 ≤ sent.count (date, .normal) := List.replicate_sublist_iff.mp hsub
        exact absurd (h.normal date) (by omega)
      | critical => exact ⟨rfl, rfl⟩
    | critical =>
      cases u' with
      | normal => exact absurd hsub (h.order date)
      | critical =>
        have htwice : 2 ≤ sent.count (date, .critical) := List.replicate_sublist_iff.mp hsub
        exact absurd (h.critical date) (by omega)
  · intro h
    have hcount : ∀ a, sent.count a ≤ 1 := by
      intro a
      by_contra hc
      have hsub : List.Sublist (List.replicate 2 a) sent := List.replicate_sublist_iff.mpr (by omega)
      obtain ⟨hn, hc⟩ := h hsub rfl
      rw [hn] at hc
      cases hc
    refine ⟨fun date => hcount _, fun date => hcount _, fun date hsub => ?_⟩
    cases (h hsub rfl).1

/-- No stamp is ever recognised. -/
theorem recent_eq_false (timestampFile : Option Text) (today : Date) : recent timestampFile today = false :=
  decide_eq_false fun h => today.ne_nil h.symm

/-- A run sends what it calls for, whatever has been sent. -/
theorem sent_run (r : Run) (s : State) : (securityUpdateNotification true r s).sent
    = s.sent ++ r.urgency.toList.map fun u => (r.timestampToday, u) := by
  rw [securityUpdateNotification, recentCriticalNotification, recent_eq_false, Run.urgency]
  cases r.cachedUpdate with
  | none => simp
  | some update =>
    simp only [Bool.false_eq_true, Bool.not_true, if_false, Option.bind_some, CachedUpdate.urgency]
    split
    · rfl
    · split
      · rw [notifyNormal, recentNormalNotification, recent_eq_false]
        rfl
      · simp

theorem sent_runs (rs : List Run) (s : State) : (runs true s rs).sent
    = s.sent ++ rs.flatMap fun r => r.urgency.toList.map fun u => (r.timestampToday, u) := by
  induction rs generalizing s with
  | nil => simp [runs]
  | cons r rs ih =>
    have hruns := ih (securityUpdateNotification true r s)
    rw [runs] at hruns
    rw [runs, List.foldl_cons, hruns, sent_run, List.flatMap_cons, List.append_assoc]

end

/-- CORRECT: on an rpm-ostree system the notifications are throttled exactly if the runs call for no more
    than that: a normal and then a critical one a day. -/
theorem throttled_runs_iff (criticalTimestampFile normalTimestampFile : Option Text) (rs : List Run) :
    Throttled (runs true ⟨criticalTimestampFile, normalTimestampFile, []⟩ rs).sent ↔ SeparateDays rs := by
  rw [throttled_iff, sent_runs, List.nil_append, List.pairwise_flatMap, SeparateDays]
  have hself : ∀ r ∈ rs, (r.urgency.toList.map fun u => (r.timestampToday, u)).Pairwise
      fun a b => a.1 = b.1 → a.2 = .normal ∧ b.2 = .critical := by
    intro r _
    cases r.urgency with
    | none => exact .nil
    | some u => exact List.pairwise_singleton _ _
  rw [and_iff_right hself]
  constructor
  · intro h
    refine h.imp fun {r r'} hr hdate u hu u' hu' => ?_
    exact hr (_, u) (by simpa using hu) (_, u') (by simpa using hu') hdate
  · intro h
    refine h.imp fun {r r'} hr a ha b hb hdate => ?_
    simp only [List.mem_map, Option.mem_toList] at ha hb
    obtain ⟨u, hu, rfl⟩ := ha
    obtain ⟨u', hu', rfl⟩ := hb
    exact hr hdate u hu u' hu'

/-- A run that finds a critical advisory. -/
def criticalRun : Run := ⟨⟨"20260101", by decide⟩, false, some ⟨[], [⟨1, 4⟩]⟩⟩

/-- Two such runs on one day send two critical notifications. -/
theorem not_throttled_criticalRun : ¬Throttled (runs true ⟨none, none, []⟩ [criticalRun, criticalRun]).sent := by
  intro h
  exact absurd (h.critical criticalRun.timestampToday) (by decide)

end Update.Notification
