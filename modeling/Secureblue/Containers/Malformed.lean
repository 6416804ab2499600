import Mathlib
import Secureblue.Containers.Policy
import Secureblue.Pointwise

/-! Which policies the audit rejects (`ContainersPolicyAudit.from_data`).

    A requirement must have a type, but the test of a list stops at the first requirement that verifies
    images: what follows is not looked at, and the order of a list decides whether its malformed
    requirements are noticed. `fromData_agrees_iff` says for which policies that makes no difference. -/

namespace Containers
open Py Auditor

/-! ### What a policy should be rejected for -/

/-- Some requirement of the list has no type. -/
def Untyped (reqs : List Requirement) : Prop := ∃ req ∈ reqs, req.type = none

instance : DecidablePred Untyped := fun _ => inferInstanceAs (Decidable (∃ req ∈ _, _))

/-- All the lists of requirements of a policy. -/
def Policy.lists (policy : Policy) : List (List Requirement) :=
  policy.default.getD [] :: (policy.transports.getD ∅).items.flatMap fun e => e.2.items.map Prod.snd

/-- The same keys in the same order, with related values. -/
def Alike {β : Type} (R : β → β → Prop) (d d' : Dict Text β) : Prop :=
  List.Forall₂ (fun e e' => e.1 = e'.1 ∧ R e.2 e'.2) d.items d'.items

/-- The same policy, but for the order of the requirements within each list. -/
structure Policy.Reordered (policy policy' : Policy) : Prop where
  default : Option.Rel List.Perm policy.default policy'.default
  transports : Option.Rel (Alike (Alike List.Perm)) policy.transports policy'.transports

/-- The audit raises exactly when some requirement has no type. -/
def RejectsUntyped (policy : Policy) : Prop :=
  (∃ e, ContainersPolicyAudit.fromData policy = .error e) ↔ ∃ reqs ∈ policy.lists, Untyped reqs

/-- The order within the lists decides neither whether the audit raises nor what it finds. -/
def OrderFree (policy : Policy) : Prop :=
  ∀ policy', policy.Reordered policy' →
    ContainersPolicyAudit.fromData policy' = ContainersPolicyAudit.fromData policy

/-! ### The test of a list -/

/-- The error of a requirement without a type. -/
def missingType : ContainersPolicyError := ⟨"container policy requirements must have a \"type\" field"⟩

/-- The test raises. -/
def Rejected (reqs : List Requirement) : Prop := policyRequirementsSecure reqs = .error missingType

theorem rejected_cons {req : Requirement} (h : req.type = none) (reqs : List Requirement) :
    Rejected (req :: reqs) := by
  rw [Rejected, policyRequirementsSecure, h]
  rfl

theorem assessed_or_rejected (reqs : List Requirement) : Assessed reqs ∨ Rejected reqs := by
  induction reqs with
  | nil => exact .inl rfl
  | cons req reqs ih =>
    cases htype : req.type with
    | none => exact .inr (rejected_cons htype reqs)
    | some type =>
      by_cases hmem : type ∈ verifyingTypes
      · left
        simp [Assessed, policyRequirementsSecure, htype, hmem, insecure_cons htype]
      · simpa [Assessed, Rejected, policyRequirementsSecure, htype, hmem, insecure_cons htype] using ih

theorem not_assessed_of_rejected {reqs : List Requirement} (h : Rejected reqs) : ¬ Assessed reqs := by
  intro hassessed
  rw [Rejected, hassessed] at h
  cases h

theorem untyped_of_rejected {reqs : List Requirement} (h : Rejected reqs) : Untyped reqs := by
  by_contra htyped
  refine not_assessed_of_rejected h (policyRequirementsSecure_eq fun req hreq => ?_)
  rw [Option.isSome_iff_ne_none]
  exact fun hnone => htyped ⟨req, hreq, hnone⟩

/-- A list that verifies nothing is gone through to the end. -/
theorem rejected_of_insecure {reqs : List Requirement} (huntyped : Untyped reqs) (h : Insecure reqs) :
    Rejected reqs := by
  induction reqs with
  | nil =>
    obtain ⟨req, hreq, -⟩ := huntyped
    cases hreq
  | cons req reqs ih =>
    cases htype : req.type with
    | none => exact rejected_cons htype reqs
    | some type =>
      obtain ⟨hmem, hreqs⟩ := (insecure_cons htype reqs).mp h
      obtain ⟨r, hr, hnone⟩ := huntyped
      have hr' : r ∈ reqs := (List.mem_cons.mp hr).resolve_left (by rintro rfl; simp [hnone] at htype)
      have ih := ih ⟨r, hr', hnone⟩ hreqs
      simpa [Rejected, policyRequirementsSecure, htype, hmem] using ih

theorem Insecure.perm {reqs reqs' : List Requirement} (hperm : reqs.Perm reqs') :
    Insecure reqs ↔ Insecure reqs' :=
  forall_congr' fun _ => imp_congr_left hperm.mem_iff

theorem Untyped.perm {reqs reqs' : List Requirement} (hperm : reqs.Perm reqs') :
    Untyped reqs ↔ Untyped reqs' :=
  exists_congr fun _ => and_congr_left' hperm.mem_iff

/-- The requirements that verify images first. -/
def verifyingFirst (reqs : List Requirement) : List Requirement :=
  let verifies (req : Requirement) : Bool := ∃ type ∈ req.type, type ∈ verifyingTypes
  reqs.filter verifies ++ reqs.filter fun req => !verifies req

theorem perm_verifyingFirst (reqs : List Requirement) : reqs.Perm (verifyingFirst reqs) :=
  (List.filter_append_perm _ reqs).symm

/-- With those first the test does not get to the others. -/
theorem assessed_verifyingFirst {reqs : List Requirement} (h : Untyped reqs → ¬ Insecure reqs) :
    Assessed (verifyingFirst reqs) := by
  refine (assessed_or_rejected _).resolve_right fun hrejected => ?_
  have hperm := perm_verifyingFirst reqs
  have hsecure := h ((Untyped.perm hperm).mpr (untyped_of_rejected hrejected))
  rw [Insecure] at hsecure
  push Not at hsecure
  obtain ⟨req, hreq, type, htype, hmem⟩ := hsecure
  have hhead : ∀ first ∈ (verifyingFirst reqs).head?, ∃ type ∈ first.type, type ∈ verifyingTypes := by
    intro first hfirst
    rw [verifyingFirst, List.head?_append_of_ne_nil] at hfirst
    · simpa using List.of_mem_filter (List.mem_of_mem_head? hfirst)
    · exact List.ne_nil_of_mem (List.mem_filter.mpr ⟨hreq, decide_eq_true ⟨type, htype, hmem⟩⟩)
  obtain ⟨first, rest, heq⟩ := List.exists_cons_of_ne_nil (List.ne_nil_of_mem (hperm.mem_iff.mp hreq))
  obtain ⟨t, ht, hverifying⟩ := hhead first (by rw [heq]; rfl)
  rw [Rejected, heq, policyRequirementsSecure, show first.type = some t from ht] at hrejected
  simp [hverifying] at hrejected

/-! ### The loops over scopes and transports -/

/-- A loop whose steps can only fail with one error fails with it if some step does. -/
theorem foldlM_error {ε σ α : Type} {f : σ → α → Except ε σ} {e : ε} {a : α} {l : List α}
    (hstep : ∀ b ∈ l, ∀ st, (∃ st', f st b = .ok st') ∨ f st b = .error e) (ha : a ∈ l)
    (h : ∀ st, f st a = .error e) (st : σ) : l.foldlM f st = .error e := by
  induction l generalizing st with
  | nil => cases ha
  | cons b l ih =>
    rw [List.foldlM_cons]
    rcases hstep b List.mem_cons_self st with ⟨st', hok⟩ | herror
    · rw [hok]
      refine ih (fun c hc => hstep c (List.mem_cons_of_mem b hc)) ?_ st'
      refine (List.mem_cons.mp ha).resolve_left ?_
      rintro rfl
      rw [h st] at hok
      cases hok
    · rw [herror]
      rfl

theorem mapM_error {ε α β : Type} {f : α → Except ε β} {e : ε} {a : α} {l : List α}
    (hstep : ∀ b ∈ l, (∃ c, f b = .ok c) ∨ f b = .error e) (ha : a ∈ l) (h : f a = .error e) :
    l.mapM f = .error e := by
  induction l with
  | nil => cases ha
  | cons b l ih =>
    rw [List.mapM_cons]
    rcases hstep b List.mem_cons_self with ⟨c, hok⟩ | herror
    · rw [hok]
      have hmem : a ∈ l := (List.mem_cons.mp ha).resolve_left (by rintro rfl; simp [h] at hok)
      have htail := ih (fun d hd => hstep d (List.mem_cons_of_mem b hd)) hmem
      simp [bind, Except.bind, htail]
    · rw [herror]
      rfl

theorem auditScope_assessed {e : Text × List Requirement} (h : Assessed e.2) (st : Bool × List Text) :
    ∃ st', auditScope st e = .ok st' := by
  have hreqs : policyRequirementsSecure e.2 = _ := h
  rw [auditScope, hreqs]
  simp only [bind, Except.bind, pure, Except.pure]
  split_ifs <;> exact ⟨_, rfl⟩

theorem auditScope_rejected {e : Text × List Requirement} (h : Rejected e.2) (st : Bool × List Text) :
    auditScope st e = .error missingType := by
  have hreqs : policyRequirementsSecure e.2 = _ := h
  rw [auditScope, hreqs]
  rfl

theorem fromData_scopes_rejected {scopes : Scopes} {e : Text × List Requirement} (he : e ∈ scopes.items)
    (h : Rejected e.2) : TransportPolicyAudit.fromData scopes = .error missingType := by
  have hloop : scopes.items.foldlM auditScope (true, []) = .error missingType := by
    refine foldlM_error (fun f _ st => ?_) he (auditScope_rejected h) _
    exact (assessed_or_rejected f.2).imp (auditScope_assessed · st) (auditScope_rejected · st)
  rw [TransportPolicyAudit.fromData, hloop]
  rfl

theorem fromData_scopes_cases (scopes : Scopes) :
    TransportPolicyAudit.fromData scopes = .ok (auditOf scopes) ∨
      TransportPolicyAudit.fromData scopes = .error missingType := by
  by_cases h : ∀ e ∈ scopes.items, Assessed e.2
  · exact .inl (fromData_transport h)
  · push Not at h
    obtain ⟨e, he, hnot⟩ := h
    exact .inr (fromData_scopes_rejected he ((assessed_or_rejected e.2).resolve_left hnot))

theorem mem_lists {policy : Policy} {reqs : List Requirement} : reqs ∈ policy.lists ↔
    reqs = policy.default.getD [] ∨
      ∃ e ∈ (policy.transports.getD ∅).items, ∃ s ∈ e.2.items, s.2 = reqs := by
  simp [Policy.lists]

section Policies
variable {policy : Policy} (hdefault : policy.default.isSome)
include hdefault

/-- A policy with a default is rejected exactly if the test of some list raises. -/
theorem fromData_rejected {reqs : List Requirement} (hmem : reqs ∈ policy.lists) (h : Rejected reqs) :
    ContainersPolicyAudit.fromData policy = .error missingType := by
  obtain ⟨default, hsome⟩ := Option.isSome_iff_exists.mp hdefault
  rcases assessed_or_rejected default with hassessed | hrejected
  · rcases mem_lists.mp hmem with heq | ⟨e, he, s, hs, rfl⟩
    · rw [hsome, Option.getD_some] at heq
      exact absurd hassessed (not_assessed_of_rejected (heq ▸ h))
    · have hloop : (policy.transports.getD ∅).items.mapM (fun e => do
          return (e.1, ← TransportPolicyAudit.fromData e.2)) = Except.error missingType := by
        refine mapM_error (fun f _ => ?_) he ?_
        · rcases fromData_scopes_cases f.2 with hok | herror
          · exact .inl ⟨(f.1, auditOf f.2), by rw [hok]; rfl⟩
          · exact .inr (by rw [herror]; rfl)
        · rw [fromData_scopes_rejected hs h]
          rfl
      have hreqs : policyRequirementsSecure default = _ := hassessed
      simp only [ContainersPolicyAudit.fromData, hsome, hreqs, hloop]
      rfl
  · have hreqs : policyRequirementsSecure default = _ := hrejected
    simp only [ContainersPolicyAudit.fromData, hsome, hreqs]
    rfl

theorem fromData_accepted (h : ∀ reqs ∈ policy.lists, Assessed reqs) :
    ContainersPolicyAudit.fromData policy = .ok (policyAuditOf policy) := by
  obtain ⟨default, hsome⟩ := Option.isSome_iff_exists.mp hdefault
  refine fromData_assessed hsome (h default ?_) fun e he s hs => h s.2 ?_
  · exact mem_lists.mpr (.inl (by rw [hsome]; rfl))
  · exact mem_lists.mpr (.inr ⟨e, he, s, hs, rfl⟩)

end Policies

/-! ### The order within the lists -/

section Alike
variable {l l' : List (Text × List Requirement)}
  (h : List.Forall₂ (fun e e' => e.1 = e'.1 ∧ e.2.Perm e'.2) l l')
include h

theorem lastWins_alike (scope : Text) : (lastWins l scope).map (fun reqs => !decide (Insecure reqs))
    = (lastWins l' scope).map (fun reqs => !decide (Insecure reqs)) := by
  induction h with
  | nil => rfl
  | @cons e e' l l' hab _ ih =>
    obtain ⟨name, reqs⟩ := e
    obtain ⟨name', reqs'⟩ := e'
    obtain ⟨hname, hperm⟩ := hab
    dsimp only at hname hperm
    subst hname
    rw [lastWins_cons, lastWins_cons, Option.map_or, Option.map_or, ih]
    split
    · simp [Insecure.perm hperm]
    · rfl

theorem insecure_alike : (l.filter fun e => e.1 ≠ [] ∧ Insecure e.2).map Prod.fst
    = (l'.filter fun e => e.1 ≠ [] ∧ Insecure e.2).map Prod.fst := by
  induction h with
  | nil => rfl
  | @cons e e' l l' hab _ ih =>
    obtain ⟨hname, hperm⟩ := hab
    have hsame : decide (e.1 ≠ [] ∧ Insecure e.2) = decide (e'.1 ≠ [] ∧ Insecure e'.2) := by
      rw [hname, decide_eq_decide, Insecure.perm hperm]
    rw [List.filter_cons, List.filter_cons, hsame]
    split
    · rw [List.map_cons, List.map_cons, ih, hname]
    · exact ih

end Alike

/-- What a transport is assessed as depends on which of its lists are insecure. -/
theorem auditOf_alike {scopes scopes' : Scopes} (h : Alike List.Perm scopes scopes') :
    auditOf scopes = auditOf scopes' := by
  rw [auditOf, auditOf, ← Dict.lastWins_items, ← Dict.lastWins_items, lastWins_alike h, insecure_alike h]

namespace Policy.Reordered
variable {policy policy' : Policy} (h : policy.Reordered policy')
include h

theorem getD_default : (policy.default.getD []).Perm (policy'.default.getD []) := by
  obtain ⟨hrel, -⟩ := h
  generalize policy.default = default, policy'.default = default' at hrel
  cases hrel with
  | none => exact List.Perm.refl _
  | some hperm => exact hperm

theorem isSome_default : policy.default.isSome ↔ policy'.default.isSome := by
  obtain ⟨hrel, -⟩ := h
  generalize policy.default = default, policy'.default = default' at hrel
  cases hrel with
  | none => rfl
  | some hperm => rfl

theorem getD_transports :
    Alike (Alike List.Perm) (policy.transports.getD ∅) (policy'.transports.getD ∅) := by
  obtain ⟨-, hrel⟩ := h
  generalize policy.transports = transports, policy'.transports = transports' at hrel
  cases hrel with
  | none => exact List.Forall₂.nil
  | some halike => exact halike

theorem lists : List.Forall₂ List.Perm policy.lists policy'.lists := by
  refine List.Forall₂.cons h.getD_default (List.rel_flatMap h.getD_transports ?_)
  intro e e' he
  exact List.rel_map (fun s s' hs => hs.2) he.2

theorem policyAuditOf_eq : policyAuditOf policy = policyAuditOf policy' := by
  have htransports : (policy.transports.getD ∅).items.map (fun e => (e.1, auditOf e.2))
      = (policy'.transports.getD ∅).items.map fun e => (e.1, auditOf e.2) := by
    refine Pointwise.map_eq h.getD_transports ?_
    intro e e' he
    rw [he.1, auditOf_alike he.2]
  have hdefault : decide (Insecure (policy.default.getD []))
      = decide (Insecure (policy'.default.getD [])) :=
    decide_eq_decide.mpr (Insecure.perm h.getD_default)
  rw [policyAuditOf, policyAuditOf, htransports, hdefault]

end Policy.Reordered

/-- The policy with the verifying requirements first in every list. -/
def Policy.verifyingFirst (policy : Policy) : Policy where
  default := policy.default.map Containers.verifyingFirst
  transports := policy.transports.map (Dict.mapValues (Dict.mapValues Containers.verifyingFirst))

theorem alike_mapValues {β : Type} {R : β → β → Prop} {f : β → β} (hR : ∀ b, R b (f b)) (d : Dict Text β) :
    Alike R d (d.mapValues f) := by
  rw [Alike, Dict.mapValues, List.forall₂_map_right_iff, List.forall₂_same]
  exact fun e _ => ⟨rfl, hR e.2⟩

theorem reordered_verifyingFirst (policy : Policy) : policy.Reordered policy.verifyingFirst where
  default := by
    rw [Policy.verifyingFirst]
    cases policy.default with
    | none => exact .none
    | some reqs => exact .some (perm_verifyingFirst reqs)
  transports := by
    rw [Policy.verifyingFirst]
    cases policy.transports with
    | none => exact .none
    | some transports => exact .some (alike_mapValues (alike_mapValues perm_verifyingFirst) transports)

theorem mem_lists_verifyingFirst {policy : Policy} {reqs : List Requirement}
    (h : reqs ∈ policy.verifyingFirst.lists) : ∃ reqs' ∈ policy.lists, reqs = verifyingFirst reqs' := by
  rcases mem_lists.mp h with rfl | ⟨e, he, s, hs, rfl⟩
  · refine ⟨policy.default.getD [], mem_lists.mpr (.inl rfl), ?_⟩
    cases hd : policy.default <;> simp [Policy.verifyingFirst, hd, verifyingFirst]
  · cases ht : policy.transports with
    | none => simp [Policy.verifyingFirst, ht] at he; cases he
    | some transports =>
      rw [Policy.verifyingFirst, ht] at he
      obtain ⟨e', he', rfl⟩ := List.mem_map.mp he
      obtain ⟨s', hs', rfl⟩ := List.mem_map.mp hs
      exact ⟨s'.2, mem_lists.mpr (.inr ⟨e', by rw [ht]; exact he', s', hs', rfl⟩), rfl⟩

/-! ### The condition -/

/-- A policy is judged by its requirements, in whatever order, if none lacks a type or a list with one
    that does verifies nothing. -/
theorem agrees_of_cond {policy : Policy} (hdefault : policy.default.isSome)
    (h : (∀ reqs ∈ policy.lists, ¬ Untyped reqs) ∨ ∃ reqs ∈ policy.lists, Untyped reqs ∧ Insecure reqs) :
    RejectsUntyped policy ∧ OrderFree policy := by
  rcases h with htyped | ⟨reqs, hmem, huntyped, hinsecure⟩
  · have haccepted : ∀ {policy' : Policy}, policy.Reordered policy' →
        ContainersPolicyAudit.fromData policy' = .ok (policyAuditOf policy') := by
      intro policy' hre
      refine fromData_accepted (hre.isSome_default.mp hdefault) fun reqs' hmem' => ?_
      obtain ⟨reqs, hmem, hperm⟩ := Pointwise.exists_of_mem hre.lists.flip hmem'
      refine (assessed_or_rejected reqs').resolve_right fun hrejected => ?_
      exact htyped reqs hmem ((Untyped.perm hperm).mpr (untyped_of_rejected hrejected))
    have hself : ContainersPolicyAudit.fromData policy = .ok (policyAuditOf policy) := by
      refine fromData_accepted hdefault fun reqs hmem => (assessed_or_rejected reqs).resolve_right ?_
      exact fun hrejected => htyped reqs hmem (untyped_of_rejected hrejected)
    constructor
    · constructor
      · rintro ⟨e, he⟩
        rw [hself] at he
        cases he
      · rintro ⟨reqs, hmem, huntyped⟩
        exact absurd huntyped (htyped reqs hmem)
    · intro policy' hre
      rw [haccepted hre, hself, hre.policyAuditOf_eq]
  · have hself := fromData_rejected hdefault hmem (rejected_of_insecure huntyped hinsecure)
    constructor
    · exact ⟨fun _ => ⟨reqs, hmem, huntyped⟩, fun _ => ⟨missingType, hself⟩⟩
    · intro policy' hre
      obtain ⟨reqs', hmem', hperm⟩ := Pointwise.exists_of_mem hre.lists hmem
      have hrejected := rejected_of_insecure ((Untyped.perm hperm).mp huntyped)
        ((Insecure.perm hperm).mp hinsecure)
      rw [hself, fromData_rejected (hre.isSome_default.mp hdefault) hmem' hrejected]

/-- With the verifying requirements first, a policy whose malformed lists all verify images is
    accepted. -/
theorem fromData_verifyingFirst {policy : Policy} (hdefault : policy.default.isSome)
    (h : ∀ reqs ∈ policy.lists, Untyped reqs → ¬ Insecure reqs) :
    ContainersPolicyAudit.fromData policy.verifyingFirst = .ok (policyAuditOf policy.verifyingFirst) := by
  refine fromData_accepted ((reordered_verifyingFirst policy).isSome_default.mp hdefault) ?_
  intro reqs hmem
  obtain ⟨reqs', hmem', rfl⟩ := mem_lists_verifyingFirst hmem
  exact assessed_verifyingFirst (h reqs' hmem')

/-- CORRECT: the audit raises exactly for a requirement without a type, whatever the order within the
    lists, if and only if no requirement lacks one or one is in a list that verifies nothing. -/
theorem fromData_agrees_iff {policy : Policy} (hdefault : policy.default.isSome) :
    RejectsUntyped policy ∧ OrderFree policy ↔
      (∀ reqs ∈ policy.lists, ¬ Untyped reqs) ∨
        ∃ reqs ∈ policy.lists, Untyped reqs ∧ Insecure reqs := by
  refine ⟨fun ⟨hrejects, hfree⟩ => ?_, agrees_of_cond hdefault⟩
  by_contra hnot
  push Not at hnot
  obtain ⟨huntyped, hsecure⟩ := hnot
  obtain ⟨e, herror⟩ := hrejects.mpr huntyped
  have hok := fromData_verifyingFirst hdefault hsecure
  rw [hfree _ (reordered_verifyingFirst policy), herror] at hok
  cases hok

/-- A malformed requirement behind one that rejects all images. -/
def rejectFirst : Policy where
  default := some [⟨some "reject"⟩, ⟨none⟩]

theorem not_agrees_rejectFirst : ¬ (RejectsUntyped rejectFirst ∧ OrderFree rejectFirst) := by
  rintro ⟨hrejects, -⟩
  obtain ⟨e, herror⟩ := hrejects.mpr ⟨[⟨some "reject"⟩, ⟨none⟩], List.mem_cons_self, by decide⟩
  have hok : ∃ policyAudit, ContainersPolicyAudit.fromData rejectFirst = .ok policyAudit := ⟨_, rfl⟩
  obtain ⟨policyAudit, hok⟩ := hok
  rw [herror] at hok
  cases hok

theorem agrees_oneUnverified : RejectsUntyped oneUnverified ∧ OrderFree oneUnverified :=
  (fromData_agrees_iff rfl).mpr (.inl (by decide))

end Containers
