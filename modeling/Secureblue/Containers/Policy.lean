import Mathlib
import Secureblue.Auditor.Report
import Secureblue.Py.Dict

/-! Auditing the containers policy (`audit_utils/containers.py`, `audit_container_policy`).

    A pull is checked against one list of requirements, found by looking up the most specific scope
    of the image first, then the default of the transport, then the default of the policy. The audit
    walks over the levels instead; `auditContainerPolicy_iff` says that it warns exactly when some
    lookup ends at a list that verifies nothing. -/

namespace Containers
open Py Auditor

/-! ### The code -/

/-- A requirement, with the value of its `type` field if it has one. A value that is no text compares
    like a text that is none of `verifyingTypes`. -/
structure Requirement where
  type : Option Text
  deriving DecidableEq

/-- The provided containers policy is invalid. -/
structure ContainersPolicyError where
  msg : Text
  deriving DecidableEq

abbrev Scopes := Dict Text (List Requirement)

/-- The object in a policy file. -/
structure Policy where
  default : Option (List Requirement)
  transports : Option (Dict Text Scopes) := none

/-- The types of requirements that do not accept every image. -/
def verifyingTypes : List Text := ["reject", "signedBy", "sigstoreSigned"]

/-- Assess if a list of container policy requirements are secure: `any` stops at the first. -/
def policyRequirementsSecure : List Requirement → Except ContainersPolicyError Bool
  | [] => .ok false
  | req :: requirements =>
    match req.type with
    | none => .error ⟨"container policy requirements must have a \"type\" field"⟩
    | some type => if type ∈ verifyingTypes then .ok true else policyRequirementsSecure requirements

/-- Audit of container policy for a specific transport. -/
structure TransportPolicyAudit where
  defaultSecure : Bool
  insecureScopes : List Text
  deriving DecidableEq

/-- The loop body of `TransportPolicyAudit.from_data`, on `default_secure` and `insecure_scopes`. -/
def auditScope (st : Bool × List Text) (e : Text × List Requirement) :
    Except ContainersPolicyError (Bool × List Text) := do
  let secure ← policyRequirementsSecure e.2
  if e.1 = [] then return (secure, st.2)
  else if !secure then return (st.1, st.2 ++ [e.1])
  else return st

/-- Analyze container transport policy from given JSON data. -/
def TransportPolicyAudit.fromData (scopes : Scopes) :
    Except ContainersPolicyError TransportPolicyAudit := do
  let (defaultSecure, insecureScopes) ← scopes.items.foldlM auditScope (true, [])
  return ⟨defaultSecure, insecureScopes.insertionSort (· ≤ ·)⟩

/-- Audit of contents of containers-policy.json -/
structure ContainersPolicyAudit where
  defaultSecure : Bool
  transports : Dict Text TransportPolicyAudit

/-- Parse containers policy from JSON data. -/
def ContainersPolicyAudit.fromData (policy : Policy) :
    Except ContainersPolicyError ContainersPolicyAudit := do
  let some default := policy.default
    | throw ⟨"key \"default\" is mandatory for containers-policy.json"⟩
  let defaultSecure ← policyRequirementsSecure default
  let transports := policy.transports.getD ∅
  let transportAudits ← transports.items.mapM fun e =>
    return (e.1, ← TransportPolicyAudit.fromData e.2)
  return ⟨defaultSecure, .ofList transportAudits⟩

/-- `"\n".join(lines)` -/
def joinLines (lines : List Text) : Text := ['\n'].intercalate lines

/-- What `audit_container_policy` says of a policy file that is not the one of the distribution. -/
def overrideNotes (policyPath : Text) : Status × List Note × Option Text :=
  if policyPath = "/usr/share/containers/policy.json" then (.pass, [], none)
  else if policyPath = "/etc/containers/policy.json" then
    let message := "Container policy has a system-wide override at " ++ policyPath ++ "."
    (Status.pass.downgradeTo .info, [⟨message, some .info⟩],
      some (joinLines [message, "To restore the default container policy, run:",
        "$ run0 -i rm /etc/containers/policy.json"]))
  else
    let message := "Container policy has a local override at " ++ policyPath ++ "."
    (Status.pass.downgradeTo .info, [⟨message, some .info⟩],
      some (joinLines [message, "To restore the default container policy, run:",
        "$ rm '" ++ policyPath ++ "'"]))

/-- The loop body of `audit_container_policy`, on `status`, `notes` and `insecure_scopes`. -/
def auditTransport (st : Status × List Note × List Text) (e : Text × TransportPolicyAudit) :
    Status × List Note × List Text :=
  let (status, notes, insecureScopes) := st
  let (status, notes) :=
    if !e.2.defaultSecure then
      (status.downgradeTo .fail, notes ++
        [⟨"The default container policy for transport '" ++ e.1 ++ "' is insecure.", some .fail⟩])
    else (status, notes)
  (status, notes, insecureScopes ++ e.2.insecureScopes.map fun scope => e.1 ++ [':'] ++ scope)

/-- The step of `audit_container_policy` that looks at the default. -/
def auditDefault (defaultSecure : Bool) (status : Status) (notes : List Note) :
    Status × List Note :=
  if !defaultSecure then
    (status.downgradeTo .fail, notes ++ [⟨"The default container policy is insecure.", some .fail⟩])
  else (status, notes)

/-- The step that looks at the collected scopes. -/
def auditScopes (insecureScopes : List Text) (status : Status) (notes : List Note) :
    Status × List Note :=
  if insecureScopes ≠ [] then
    (status.downgradeTo .warn, notes ++
      [⟨"Signature validation is disabled for containers at the following scopes:\n" ++
        joinLines insecureScopes, some .warn⟩])
  else (status, notes)

/-- `audit_container_policy`, on what `analyze_active_container_policy` returns -/
def auditContainerPolicy (policyAudit : ContainersPolicyAudit) (policyPath : Text) : Report :=
  let (status, notes, rec) := overrideNotes policyPath
  let (status, notes) := auditDefault policyAudit.defaultSecure status notes
  let (status, notes, insecureScopes) :=
    policyAudit.transports.items.foldl auditTransport (status, notes, [])
  let (status, notes) := auditScopes insecureScopes status notes
  ⟨"Analyzing container policy", status, notes, (rec.map fun text => ⟨text, none⟩).toList⟩

/-! ### Looking up the requirements of an image -/

/-- Where the requirements of an image come from. -/
inductive Level where | scope | transport | policy
  deriving DecidableEq

/-- A policy as it is looked up: every requirement has a type. -/
structure Policy.Typed (policy : Policy) : Prop where
  default_some : policy.default.isSome
  default_typed : ∀ reqs ∈ policy.default, ∀ req ∈ reqs, req.type.isSome
  transports_typed : ∀ transports ∈ policy.transports, ∀ e ∈ transports.items, ∀ s ∈ e.2.items,
    ∀ req ∈ s.2, req.type.isSome

/-- The requirements that an image has to meet, the scopes that match it given from the most specific
    one on. -/
def Policy.effective (policy : Policy) (transport : Text) (candidates : List Text) :
    Level × List Requirement :=
  let default := (.policy, policy.default.getD [])
  match (policy.transports.getD ∅).get transport with
  | none => default
  | some scopes =>
    match candidates.findSome? scopes.get with
    | some reqs => (.scope, reqs)
    | none => match scopes.get [] with
      | some reqs => (.transport, reqs)
      | none => default

/-- No requirement rejects or verifies an image. -/
def Insecure (reqs : List Requirement) : Prop := ∀ req ∈ reqs, ∀ type ∈ req.type, type ∉ verifyingTypes

instance : DecidablePred Insecure := fun _ => inferInstanceAs (Decidable (∀ req ∈ _, _))

/-! ### What the audit computes -/

theorem insecure_cons {req : Requirement} {type : Text} (h : req.type = some type)
    (reqs : List Requirement) :
    Insecure (req :: reqs) ↔ type ∉ verifyingTypes ∧ Insecure reqs := by
  simp [Insecure, h]

/-- What the test says of a list of requirements when it does not raise. -/
def Assessed (reqs : List Requirement) : Prop := policyRequirementsSecure reqs = .ok !decide (Insecure reqs)

theorem policyRequirementsSecure_eq : ∀ {reqs : List Requirement}, (∀ req ∈ reqs, req.type.isSome) →
    Assessed reqs
  | [], _ => rfl
  | req :: reqs, h => by
      have ih : policyRequirementsSecure reqs = _ :=
        policyRequirementsSecure_eq fun r hr => h r (List.mem_cons_of_mem req hr)
      obtain ⟨type, htype⟩ := Option.isSome_iff_exists.mp (h req List.mem_cons_self)
      simp only [Assessed, policyRequirementsSecure, htype, insecure_cons htype]
      split
      · next hmem => simp [hmem]
      · next hmem => simp [hmem, ih]

/-- The audit of a transport whose requirements have types. -/
def auditOf (scopes : Scopes) : TransportPolicyAudit where
  defaultSecure := ((scopes.get []).map fun reqs => !decide (Insecure reqs)).getD true
  insecureScopes := ((scopes.items.filter fun e => e.1 ≠ [] ∧ Insecure e.2).map
    Prod.fst).insertionSort (· ≤ ·)

theorem foldlM_auditScope : ∀ {l : List (Text × List Requirement)} (st : Bool × List Text),
    (∀ e ∈ l, Assessed e.2) →
    l.foldlM auditScope st = .ok (((lastWins l []).map fun reqs => !decide (Insecure reqs)).getD st.1,
      st.2 ++ (l.filter fun e => e.1 ≠ [] ∧ Insecure e.2).map Prod.fst)
  | [], st, _ => by simp [lastWins, pure, Except.pure]
  | (scope, reqs) :: l, (defaultSecure, insecureScopes), h => by
      have ih := fun st => foldlM_auditScope (l := l) st fun f hf => h f (List.mem_cons_of_mem _ hf)
      have hstep : auditScope (defaultSecure, insecureScopes) (scope, reqs)
          = .ok (if scope = [] then !decide (Insecure reqs) else defaultSecure,
              insecureScopes ++ if scope ≠ [] ∧ Insecure reqs then [scope] else []) := by
        have hreqs : policyRequirementsSecure reqs = _ := h (scope, reqs) List.mem_cons_self
        rw [auditScope, hreqs]
        by_cases hscope : scope = [] <;> by_cases hi : Insecure reqs <;>
          simp [hscope, hi, bind, Except.bind, pure, Except.pure]
      rw [List.foldlM_cons, hstep]
      refine (ih _).trans ?_
      rw [lastWins_cons, List.filter_cons]
      by_cases hscope : scope = []
      · subst hscope
        cases lastWins l [] <;> simp
      · simp only [hscope, Ne.symm hscope, if_false, Option.or_none, ne_eq, not_false_eq_true, true_and]
        by_cases hi : Insecure reqs <;> simp [hi]

theorem fromData_transport {scopes : Scopes} (h : ∀ e ∈ scopes.items, Assessed e.2) :
    TransportPolicyAudit.fromData scopes = .ok (auditOf scopes) := by
  rw [TransportPolicyAudit.fromData, foldlM_auditScope _ h, Dict.lastWins_items]
  rfl

theorem mapM_ok {ε α β : Type} {f : α → Except ε β} {g : α → β} : ∀ {l : List α},
    (∀ a ∈ l, f a = .ok (g a)) → l.mapM f = .ok (l.map g)
  | [], _ => rfl
  | a :: l, h => by
      rw [List.mapM_cons, h a List.mem_cons_self, mapM_ok fun b hb => h b (List.mem_cons_of_mem a hb)]
      rfl

/-- The audit of a policy whose requirements have types. -/
def policyAuditOf (policy : Policy) : ContainersPolicyAudit where
  defaultSecure := !decide (Insecure (policy.default.getD []))
  transports := .ofList ((policy.transports.getD ∅).items.map fun e => (e.1, auditOf e.2))

/-- The audit of a policy no list of which makes the test raise. -/
theorem fromData_assessed {policy : Policy} {default : List Requirement} (hdefault : policy.default = some default)
    (hassessed : Assessed default)
    (h : ∀ e ∈ (policy.transports.getD ∅).items, ∀ s ∈ e.2.items, Assessed s.2) :
    ContainersPolicyAudit.fromData policy = .ok (policyAuditOf policy) := by
  have htransports : (policy.transports.getD ∅).items.mapM (fun e => do
        return (e.1, ← TransportPolicyAudit.fromData e.2))
      = Except.ok ((policy.transports.getD ∅).items.map fun e => (e.1, auditOf e.2)) := by
    refine mapM_ok fun e he => ?_
    rw [fromData_transport (h e he)]
    rfl
  have hreqs : policyRequirementsSecure default = _ := hassessed
  simp only [ContainersPolicyAudit.fromData, policyAuditOf, hdefault, hreqs, htransports]
  rfl

theorem fromData_policy {policy : Policy} (h : policy.Typed) :
    ContainersPolicyAudit.fromData policy = .ok (policyAuditOf policy) := by
  obtain ⟨default, hdefault⟩ := Option.isSome_iff_exists.mp h.default_some
  refine fromData_assessed hdefault (policyRequirementsSecure_eq (h.default_typed default hdefault)) ?_
  intro e he s hs
  cases htr : policy.transports with
  | none => rw [htr] at he; cases he
  | some transports =>
    rw [htr] at he
    exact policyRequirementsSecure_eq (h.transports_typed transports htr e he s hs)

/-! ### What the audit reports -/

/-- The status that a flag contributes. -/
def failIf (b : Bool) : Status := if b then .fail else .pass

theorem failIf_or (a b : Bool) : failIf (a || b) = max (failIf a) (failIf b) := by
  cases a <;> cases b <;> rfl

theorem auditTransport_status (st : Status × List Note × List Text)
    (e : Text × TransportPolicyAudit) :
    (auditTransport st e).1 = max st.1 (failIf !e.2.defaultSecure) := by
  rw [auditTransport]
  cases e.2.defaultSecure with
  | true => exact (Status.max_pass _).symm
  | false => exact Status.downgradeTo_eq_max _ _

theorem auditTransport_scopes (st : Status × List Note × List Text)
    (e : Text × TransportPolicyAudit) : (auditTransport st e).2.2
      = st.2.2 ++ e.2.insecureScopes.map fun scope => e.1 ++ [':'] ++ scope := by
  rw [auditTransport]

/-- The loop raises the status to `FAIL` if some transport's default is insecure. -/
theorem foldl_auditTransport_status : ∀ (l : List (Text × TransportPolicyAudit))
    (st : Status × List Note × List Text), (l.foldl auditTransport st).1
      = max st.1 (failIf (l.any (!·.2.defaultSecure)))
  | [], st => (Status.max_pass _).symm
  | e :: l, st => by
      rw [List.foldl_cons, foldl_auditTransport_status l, auditTransport_status, max_assoc,
        List.any_cons, failIf_or]

theorem foldl_auditTransport_scopes : ∀ (l : List (Text × TransportPolicyAudit))
    (st : Status × List Note × List Text), (l.foldl auditTransport st).2.2
      = st.2.2 ++ l.flatMap fun e => e.2.insecureScopes.map fun scope => e.1 ++ [':'] ++ scope
  | [], st => (List.append_nil _).symm
  | e :: l, st => by
      rw [List.foldl_cons, foldl_auditTransport_scopes l, auditTransport_scopes, List.append_assoc]
      rfl

theorem overrideNotes_status (policyPath : Text) : (overrideNotes policyPath).1 ≤ .info := by
  have hinfo : Status.pass.downgradeTo .info ≤ .info := by decide
  unfold overrideNotes
  split_ifs
  · exact Status.pass_le _
  · exact hinfo
  · exact hinfo

theorem auditDefault_status (defaultSecure : Bool) (status : Status) (notes : List Note) :
    (auditDefault defaultSecure status notes).1 = max status (failIf !defaultSecure) := by
  cases defaultSecure with
  | true => exact (Status.max_pass _).symm
  | false => exact Status.downgradeTo_eq_max _ _

theorem auditScopes_status (insecureScopes : List Text) (status : Status) (notes : List Note) :
    (auditScopes insecureScopes status notes).1
      = max status (if insecureScopes ≠ [] then .warn else .pass) := by
  rw [auditScopes]
  split
  · exact Status.downgradeTo_eq_max _ _
  · exact (Status.max_pass _).symm

/-- The status, as the most severe of what the four parts of the audit contribute. -/
theorem auditContainerPolicy_status (policyAudit : ContainersPolicyAudit) (policyPath : Text) :
    (auditContainerPolicy policyAudit policyPath).status
      = max (max (max (overrideNotes policyPath).1 (failIf !policyAudit.defaultSecure))
          (failIf (policyAudit.transports.items.any (!·.2.defaultSecure))))
        (if policyAudit.transports.items.flatMap (fun e =>
          e.2.insecureScopes.map fun scope => e.1 ++ [':'] ++ scope) ≠ [] then .warn else .pass) := by
  unfold auditContainerPolicy
  generalize overrideNotes policyPath = override
  obtain ⟨status, notes, rec⟩ := override
  let st := auditDefault policyAudit.defaultSecure status notes
  have hdefault : st.1 = _ := auditDefault_status policyAudit.defaultSecure status notes
  have hstatus := foldl_auditTransport_status policyAudit.transports.items (st.1, st.2, [])
  have hscopes := foldl_auditTransport_scopes policyAudit.transports.items (st.1, st.2, [])
  dsimp only at hstatus hscopes ⊢
  rw [← hdefault, ← hstatus, ← List.nil_append (List.flatMap ..), ← hscopes]
  exact auditScopes_status _ _ _

/-! ### What some lookup ends at -/

section Lookup
variable (policy : Policy)

/-- A transport that the policy does not mention is left to the default. -/
theorem exists_effective_default :
    ∃ transport, policy.effective transport [] = (.policy, policy.default.getD []) := by
  obtain ⟨transport, hfresh⟩ :=
    Infinite.exists_notMem_finset (policy.transports.getD ∅).keys.toFinset
  have hget : (policy.transports.getD ∅).get transport = none := by
    rw [List.mem_toFinset, Dict.mem_keys] at hfresh
    exact Option.not_isSome_iff_eq_none.mp hfresh
  exact ⟨transport, by rw [Policy.effective, hget]⟩

/-- The three places where a lookup can end. -/
theorem effective_cases (transport : Text) (candidates : List Text) :
    policy.effective transport candidates = (.policy, policy.default.getD []) ∨
    (∃ e ∈ (policy.transports.getD ∅).items, ∃ reqs, e.2.get [] = some reqs ∧
      policy.effective transport candidates = (.transport, reqs)) ∨
    ∃ e ∈ (policy.transports.getD ∅).items, ∃ s ∈ e.2.items,
      policy.effective transport candidates = (.scope, s.2) := by
  unfold Policy.effective
  cases htr : (policy.transports.getD ∅).get transport with
  | none => exact .inl rfl
  | some scopes =>
    have hmem := Dict.mem_items_of_get htr
    dsimp only
    cases hcand : candidates.findSome? scopes.get with
    | some reqs =>
      obtain ⟨scope, -, hget⟩ := List.exists_of_findSome?_eq_some hcand
      exact .inr (.inr ⟨(transport, scopes), hmem, (scope, reqs), Dict.mem_items_of_get hget, rfl⟩)
    | none =>
      cases hempty : scopes.get [] with
      | none => exact .inl rfl
      | some reqs => exact .inr (.inl ⟨(transport, scopes), hmem, reqs, hempty, rfl⟩)

/-- The lookups that end at a default. -/
theorem exists_insecure_default_iff :
    (∃ transport candidates, (policy.effective transport candidates).1 ≠ .scope ∧
      Insecure (policy.effective transport candidates).2) ↔
    Insecure (policy.default.getD []) ∨
      ∃ e ∈ (policy.transports.getD ∅).items, ∃ reqs, e.2.get [] = some reqs ∧ Insecure reqs := by
  constructor
  · rintro ⟨transport, candidates, hlevel, hinsecure⟩
    obtain heff | ⟨e, he, reqs, hget, heff⟩ | ⟨e, he, s, hs, heff⟩ :=
      effective_cases policy transport candidates
    · exact .inl (by rwa [heff] at hinsecure)
    · exact .inr ⟨e, he, reqs, hget, by rwa [heff] at hinsecure⟩
    · exact absurd (congrArg Prod.fst heff) hlevel
  · rintro (hinsecure | ⟨⟨transport, scopes⟩, hmem, reqs, hget, hinsecure⟩)
    · obtain ⟨transport, heff⟩ := exists_effective_default policy
      exact ⟨transport, [], by rw [heff]; simp, by rw [heff]; exact hinsecure⟩
    · have heff : policy.effective transport [] = (.transport, reqs) := by
        simp only [Policy.effective, Dict.get_of_mem_items hmem, List.findSome?_nil, hget]
      exact ⟨transport, [], by rw [heff]; simp, by rw [heff]; exact hinsecure⟩

/-- The lookups that end anywhere. -/
theorem exists_insecure_iff :
    (∃ transport candidates, Insecure (policy.effective transport candidates).2) ↔
    Insecure (policy.default.getD []) ∨
      ∃ e ∈ (policy.transports.getD ∅).items, ∃ s ∈ e.2.items, Insecure s.2 := by
  constructor
  · rintro ⟨transport, candidates, hinsecure⟩
    obtain heff | ⟨e, he, reqs, hget, heff⟩ | ⟨e, he, s, hs, heff⟩ :=
      effective_cases policy transport candidates
    · exact .inl (by rwa [heff] at hinsecure)
    · exact .inr ⟨e, he, ([], reqs), Dict.mem_items_of_get hget, by rwa [heff] at hinsecure⟩
    · exact .inr ⟨e, he, s, hs, by rwa [heff] at hinsecure⟩
  · rintro (hinsecure | ⟨⟨transport, scopes⟩, hmem, ⟨scope, reqs⟩, hscope, hinsecure⟩)
    · obtain ⟨transport, heff⟩ := exists_effective_default policy
      exact ⟨transport, [], by rw [heff]; exact hinsecure⟩
    · have heff : policy.effective transport [scope] = (.scope, reqs) := by
        simp only [Policy.effective, Dict.get_of_mem_items hmem, List.findSome?_cons,
          Dict.get_of_mem_items hscope]
      exact ⟨transport, [scope], by rw [heff]; exact hinsecure⟩

end Lookup

/-! ### The audit and the lookups -/

theorem mem_insecureScopes {scopes : Scopes} {scope : Text} :
    scope ∈ (auditOf scopes).insecureScopes ↔
      scope ≠ [] ∧ ∃ reqs, scopes.get scope = some reqs ∧ Insecure reqs := by
  rw [auditOf, List.mem_insertionSort, List.mem_map]
  constructor
  · rintro ⟨⟨scope, reqs⟩, hmem, rfl⟩
    obtain ⟨hitem, hcond⟩ := List.mem_filter.mp hmem
    obtain ⟨hne, hinsecure⟩ := of_decide_eq_true hcond
    exact ⟨hne, reqs, Dict.get_of_mem_items hitem, hinsecure⟩
  · rintro ⟨hne, reqs, hget, hinsecure⟩
    exact ⟨(scope, reqs), List.mem_filter.mpr ⟨Dict.mem_items_of_get hget,
      decide_eq_true ⟨hne, hinsecure⟩⟩, rfl⟩

/-- The insecure scopes are in increasing order, so each is there once. -/
theorem sorted_insecureScopes (scopes : Scopes) :
    (auditOf scopes).insecureScopes.Pairwise (· < ·) := by
  have hnodup : (auditOf scopes).insecureScopes.Nodup :=
    (List.perm_insertionSort _ _).nodup_iff.mpr (scopes.nodup.sublist (List.filter_sublist.map _))
  have hsorted : (auditOf scopes).insecureScopes.Pairwise (· ≤ ·) := List.pairwise_insertionSort _ _
  exact (hsorted.and hnodup).imp fun h => lt_of_le_of_ne h.1 h.2

theorem items_policyAuditOf (policy : Policy) : (policyAuditOf policy).transports.items
    = (policy.transports.getD ∅).items.map fun e => (e.1, auditOf e.2) := by
  refine Dict.items_ofList ?_
  rw [List.map_map]
  exact (policy.transports.getD ∅).nodup

/-- Some scope with a name is insecure. -/
theorem scopes_ne_nil_iff (policy : Policy) :
    (policyAuditOf policy).transports.items.flatMap (fun e =>
        e.2.insecureScopes.map fun scope => e.1 ++ [':'] ++ scope) ≠ [] ↔
      ∃ e ∈ (policy.transports.getD ∅).items, ∃ s ∈ e.2.items, s.1 ≠ [] ∧ Insecure s.2 := by
  have hsome : ∀ scopes : Scopes, (auditOf scopes).insecureScopes ≠ [] ↔
      ∃ s ∈ scopes.items, s.1 ≠ [] ∧ Insecure s.2 := by
    intro scopes
    constructor
    · intro hne
      obtain ⟨scope, hmem⟩ := List.exists_mem_of_ne_nil _ hne
      obtain ⟨hne, reqs, hget, hinsecure⟩ := mem_insecureScopes.mp hmem
      exact ⟨(scope, reqs), Dict.mem_items_of_get hget, hne, hinsecure⟩
    · rintro ⟨s, hs, hne, hinsecure⟩
      exact List.ne_nil_of_mem
        (mem_insecureScopes.mpr ⟨hne, s.2, Dict.get_of_mem_items hs, hinsecure⟩)
  rw [items_policyAuditOf, List.flatMap_map, Ne, List.flatMap_eq_nil_iff]
  push Not
  refine exists_congr fun e => and_congr_right fun _ => ?_
  rw [Ne, List.map_eq_nil_iff]
  exact hsome e.2

/-- Some transport's default is insecure. -/
theorem any_default_iff (policy : Policy) :
    (policyAuditOf policy).transports.items.any (!·.2.defaultSecure) ↔
      ∃ e ∈ (policy.transports.getD ∅).items, ∃ reqs, e.2.get [] = some reqs ∧ Insecure reqs := by
  have hdefault : ∀ scopes : Scopes, (!(auditOf scopes).defaultSecure) = true ↔
      ∃ reqs, scopes.get [] = some reqs ∧ Insecure reqs := by
    intro scopes
    rw [auditOf]
    cases scopes.get [] <;> simp
  rw [items_policyAuditOf, List.any_map, List.any_eq_true]
  exact exists_congr fun e => and_congr_right fun _ => hdefault e.2

/-- A scope is the default of its transport or has a name. -/
theorem exists_insecure_scope_iff (policy : Policy) :
    (∃ e ∈ (policy.transports.getD ∅).items, ∃ s ∈ e.2.items, Insecure s.2) ↔
      (∃ e ∈ (policy.transports.getD ∅).items, ∃ reqs, e.2.get [] = some reqs ∧ Insecure reqs) ∨
      ∃ e ∈ (policy.transports.getD ∅).items, ∃ s ∈ e.2.items, s.1 ≠ [] ∧ Insecure s.2 := by
  constructor
  · rintro ⟨e, he, ⟨scope, reqs⟩, hs, hinsecure⟩
    by_cases hempty : scope = []
    · subst hempty
      exact .inl ⟨e, he, reqs, Dict.get_of_mem_items hs, hinsecure⟩
    · exact .inr ⟨e, he, (scope, reqs), hs, hempty, hinsecure⟩
  · rintro (⟨e, he, reqs, hget, hinsecure⟩ | ⟨e, he, s, hs, -, hinsecure⟩)
    · exact ⟨e, he, ([], reqs), Dict.mem_items_of_get hget, hinsecure⟩
    · exact ⟨e, he, s, hs, hinsecure⟩

theorem warn_le_iff {o : Status} (ho : o ≤ .info) (b b' : Bool) (c : Prop) [Decidable c] :
    .warn ≤ max (max (max o (failIf b)) (failIf b')) (if c then .warn else .pass) ↔
      b ∨ b' ∨ c := by
  by_cases hc : c
  · simp only [hc, if_true, or_true, iff_true]
    exact le_max_right _ _
  · simp only [hc, if_false, or_false, Status.max_pass]
    revert ho
    cases o <;> cases b <;> cases b' <;> decide

theorem eq_fail_iff {o : Status} (ho : o ≤ .info) (b b' : Bool) (c : Prop) [Decidable c] :
    max (max (max o (failIf b)) (failIf b')) (if c then .warn else .pass) = .fail ↔ b ∨ b' := by
  have hweak : (if c then Status.warn else .pass) ≤ .warn := by
    split
    · exact le_rfl
    · exact Status.pass_le _
  generalize (if c then Status.warn else .pass) = w at hweak ⊢
  revert ho hweak
  cases o <;> cases b <;> cases b' <;> cases w <;> decide

/-- CORRECT: the audit of a policy whose requirements have types warns exactly when some lookup ends
    at requirements that accept every image, fails exactly when they are a default, and lists the
    insecure scopes of each transport in order. -/
theorem auditContainerPolicy_iff {policy : Policy} (h : policy.Typed) (policyPath : Text) :
    ∃ policyAudit, ContainersPolicyAudit.fromData policy = .ok policyAudit ∧
      let status := (auditContainerPolicy policyAudit policyPath).status
      (.warn ≤ status ↔
        ∃ transport candidates, Insecure (policy.effective transport candidates).2) ∧
      (status = .fail ↔
        ∃ transport candidates, (policy.effective transport candidates).1 ≠ .scope ∧
          Insecure (policy.effective transport candidates).2) ∧
      policyAudit.transports.keys = (policy.transports.getD ∅).keys ∧
      ∀ transport scopes, (policy.transports.getD ∅).get transport = some scopes →
        ∃ transportAudit, policyAudit.transports.get transport = some transportAudit ∧
          transportAudit.insecureScopes.Pairwise (· < ·) ∧
          ∀ scope, scope ∈ transportAudit.insecureScopes ↔
            scope ≠ [] ∧ ∃ reqs, scopes.get scope = some reqs ∧ Insecure reqs := by
  refine ⟨policyAuditOf policy, fromData_policy h, ?_⟩
  have hstatus := auditContainerPolicy_status (policyAuditOf policy) policyPath
  have hoverride := overrideNotes_status policyPath
  have hdefault : (!(policyAuditOf policy).defaultSecure) = true ↔ Insecure (policy.default.getD []) := by
    simp [policyAuditOf]
  have hany := any_default_iff policy
  have hscopes := scopes_ne_nil_iff policy
  dsimp only
  refine ⟨?_, ?_, ?_, ?_⟩
  · rw [exists_insecure_iff, exists_insecure_scope_iff, ← hdefault, ← hany, ← hscopes, hstatus]
    exact warn_le_iff hoverride _ _ _
  · rw [exists_insecure_default_iff, ← hdefault, ← hany, hstatus]
    exact eq_fail_iff hoverride _ _ _
  · rw [Dict.keys, items_policyAuditOf, List.map_map]
    rfl
  · intro transport scopes hget
    refine ⟨auditOf scopes, Dict.get_of_mem_items ?_, sorted_insecureScopes scopes,
      fun scope => mem_insecureScopes⟩
    rw [items_policyAuditOf]
    exact List.mem_map_of_mem (f := fun e : Text × Scopes => (e.1, auditOf e.2))
      (Dict.mem_items_of_get hget)

/-- A policy with one registry that is not verified. -/
def oneUnverified : Policy where
  default := some [⟨some "reject"⟩]
  transports := some (.ofList [("docker", .ofList
    [("quay.io/toolbx", [⟨some "insecureAcceptAnything"⟩]), ([], [⟨some "signedBy"⟩]),
      ("ghcr.io", [⟨some "insecureAcceptAnything"⟩])])])

theorem oneUnverified_typed : oneUnverified.Typed where
  default_some := rfl
  default_typed := by decide
  transports_typed := by decide

theorem auditContainerPolicy_oneUnverified :
    ∃ policyAudit, ContainersPolicyAudit.fromData oneUnverified = .ok policyAudit ∧
      .warn ≤ (auditContainerPolicy policyAudit "/etc/containers/policy.json").status := by
  obtain ⟨policyAudit, hdata, hwarn, -⟩ :=
    auditContainerPolicy_iff oneUnverified_typed "/etc/containers/policy.json"
  exact ⟨policyAudit, hdata, hwarn.mpr ⟨"docker", ["ghcr.io"], by decide +kernel⟩⟩

example : (policyAuditOf oneUnverified).transports.get "docker"
    = some ⟨true, ["ghcr.io", "quay.io/toolbx"]⟩ := by decide +kernel

end Containers
