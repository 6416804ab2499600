import Mathlib.Data.List.Basic

/-! Filters that are built rule by rule, each of which allows or denies what it names.

    The first rule settles what the filter lists: what is allowed, or what is denied. A later rule of the
    same sign adds to the list, one of the other sign takes from it. However the list came about, the last
    rule that names a thing decides about it, and the first rule about what none names (`permits_rules`). -/

namespace SignedRules
variable {α : Type*}

structure Rule (α : Type*) where
  deny : Bool
  names : α → Bool

/-- A filter: whether it lists what is allowed, and the list. -/
structure Filter (α : Type*) where
  allows : Bool
  listed : α → Bool

/-- A rule is added to the filter, if there is one yet. -/
def add (f : Option (Filter α)) (r : Rule α) : Option (Filter α) :=
  match f with
  | none => some ⟨!r.deny, r.names⟩
  | some f => some ⟨f.allows, fun x => if r.names x then (!r.deny) == f.allows else f.listed x⟩

/-- Without a filter, everything is allowed. -/
def permits (f : Option (Filter α)) (x : α) : Bool :=
  match f with
  | none => true
  | some f => f.listed x == f.allows

/-- What the last rule that names `x` says. -/
def verdict (rules : List (Rule α)) (x : α) : Option Bool :=
  (rules.filter (·.names x)).getLast?.map fun r => !r.deny

theorem verdict_cons (r : Rule α) (rules : List (Rule α)) (x : α) :
    verdict (r :: rules) x = (verdict rules x).or (if r.names x then some (!r.deny) else none) := by
  unfold verdict
  cases hx : r.names x with
  | false => simp [hx]
  | true =>
    simp only [List.filter_cons, hx, if_true, List.getLast?_cons]
    cases (rules.filter (·.names x)).getLast? <;> rfl

/-- Where no rule denies, being named is being allowed. -/
theorem verdict_allow {rules : List (Rule α)} (h : ∀ r ∈ rules, r.deny = false) (x : α) :
    verdict rules x = if rules.any (·.names x) then some true else none := by
  induction rules with
  | nil => rfl
  | cons r rules ih =>
    rw [verdict_cons, ih fun q hq => h q (List.mem_cons_of_mem r hq), h r List.mem_cons_self, List.any_cons]
    cases r.names x <;> cases rules.any (·.names x) <;> rfl

theorem permits_add (f : Filter α) (r : Rule α) (x : α) :
    permits (add (some f) r) x = if r.names x then !r.deny else permits (some f) x := by
  unfold add permits
  cases hx : r.names x with
  | false => simp [hx]
  | true => cases f.allows <;> cases r.deny <;> simp [hx]

/-- More rules decide about what they name, and leave the rest to the filter. -/
theorem permits_foldl (rules : List (Rule α)) (x : α) : ∀ f : Filter α,
    permits (rules.foldl add (some f)) x = (verdict rules x).getD (permits (some f) x) := by
  induction rules with
  | nil => exact fun _ => rfl
  | cons r rules ih =>
    intro f
    obtain ⟨g, hg⟩ : ∃ g, add (some f) r = some g := ⟨_, rfl⟩
    rw [List.foldl_cons, hg, ih, verdict_cons, ← hg, permits_add]
    cases verdict rules x with
    | some b => rfl
    | none => cases r.names x <;> rfl

/-- CORRECT: the last rule that names a thing decides about it; what no rule names is treated the other
    way than the first rule treats what it names. -/
theorem permits_rules (r : Rule α) (rules : List (Rule α)) (x : α) :
    permits ((r :: rules).foldl add none) x = (verdict (r :: rules) x).getD r.deny := by
  rw [List.foldl_cons, show add none r = some ⟨!r.deny, r.names⟩ from rfl, permits_foldl, verdict_cons]
  cases verdict rules x with
  | some b => rfl
  | none =>
    cases hx : r.names x <;> cases r.deny <;> simp [permits, hx]

end SignedRules
