import Mathlib.Data.List.Basic
import Mathlib.Data.List.Nodup
import Mathlib.Data.List.TakeWhile

/-! Insertion-ordered dictionaries, the `dict` of Python 3.7 and later.

    Assigning to a present key overwrites its value and keeps its place; assigning to a fresh key
    appends it. Building a dictionary by assignments therefore lists the keys by first occurrence
    and gives every key the value of its last occurrence (`get_update`, `keys_update`). -/

namespace Py

universe u v
variable {α : Type u} {β : Type v} [DecidableEq α]

/-! ### First occurrences -/

/-- The elements in the order of their first occurrences. -/
def firsts (l : List α) : List α := l.eraseDups

@[simp] theorem firsts_nil : firsts ([] : List α) = [] := rfl

theorem firsts_cons (a : α) (l : List α) : firsts (a :: l) = a :: firsts (l.filter (· ≠ a)) := by
  rw [firsts, List.eraseDups_cons]
  congr 3
  funext b
  by_cases h : b = a <;> simp [h]

theorem mem_firsts {a : α} {l : List α} : a ∈ firsts l ↔ a ∈ l := List.mem_eraseDups

theorem firsts_filter (p : α → Bool) : ∀ l : List α, firsts (l.filter p) = (firsts l).filter p
  | [] => rfl
  | a :: l => by
      have hlen := List.length_filter_le (· ≠ a) l
      have ih := firsts_filter p (l.filter (· ≠ a))
      rw [firsts_cons]
      rcases hp : p a with _ | _
      · -- no element that is kept is `a`
        rw [List.filter_cons_of_neg (by simp [hp]), List.filter_cons_of_neg (by simp [hp]), ← ih,
          List.filter_filter]
        congr 1
        refine List.filter_congr fun b _ => ?_
        rcases eq_or_ne b a with rfl | hb
        · simp [hp]
        · simp [hb]
      · rw [List.filter_cons_of_pos hp, List.filter_cons_of_pos hp, firsts_cons, ← ih,
          List.filter_filter, List.filter_filter]
        congr 2
        exact List.filter_congr fun b _ => Bool.and_comm ..
termination_by l => l.length
decreasing_by exact Nat.lt_succ_of_le hlen

theorem nodup_firsts : ∀ l : List α, (firsts l).Nodup
  | [] => List.nodup_nil
  | a :: l => by
      have hlen := List.length_filter_le (· ≠ a) l
      rw [firsts_cons, List.nodup_cons]
      exact ⟨fun ha => absurd (mem_firsts.mp ha) (by simp), nodup_firsts (l.filter (· ≠ a))⟩
termination_by l => l.length
decreasing_by exact Nat.lt_succ_of_le hlen

theorem firsts_eq_self : ∀ {l : List α}, l.Nodup → firsts l = l
  | [], _ => rfl
  | a :: l, h => by
      obtain ⟨ha, hl⟩ := List.nodup_cons.mp h
      have hfilter : l.filter (· ≠ a) = l :=
        List.filter_eq_self.mpr fun b hb => decide_eq_true (ne_of_mem_of_not_mem hb ha)
      rw [firsts_cons, hfilter, firsts_eq_self hl]

theorem firsts_append (l m : List α) :
    firsts (l ++ m) = firsts l ++ firsts (m.filter (· ∉ l)) := by
  rw [firsts, List.eraseDups_append]
  simp [List.removeAll, firsts]

theorem firsts_append_singleton (l : List α) (a : α) :
    firsts (l ++ [a]) = if a ∈ l then firsts l else firsts l ++ [a] := by
  rw [firsts_append]
  split
  · next h => simp [h]
  · next h => simp [h, firsts_cons]

/-- The elements collected by key are all the elements. -/
theorem perm_groups {γ : Type*} (key : γ → α) : ∀ l : List γ,
    ((firsts (l.map key)).flatMap fun k => l.filter (key · = k)).Perm l
  | [] => List.Perm.refl []
  | a :: l => by
      have hlen := List.length_filter_le (key · ≠ key a) l
      have ih := perm_groups key (l.filter (key · ≠ key a))
      have hkeys : (l.map key).filter (· ≠ key a) = (l.filter (key · ≠ key a)).map key := by
        rw [List.filter_map]
        rfl
      have hrest : (firsts ((l.filter (key · ≠ key a)).map key)).flatMap (fun k => (a :: l).filter (key · = k)) =
          (firsts ((l.filter (key · ≠ key a)).map key)).flatMap
            fun k => (l.filter (key · ≠ key a)).filter (key · = k) := by
        refine List.flatMap_congr fun k hk => ?_
        obtain ⟨b, hb, rfl⟩ := List.mem_map.mp (mem_firsts.mp hk)
        have hne : key b ≠ key a := by simpa using (List.mem_filter.mp hb).2
        rw [List.filter_cons_of_neg (by simpa using hne.symm), List.filter_filter]
        refine List.filter_congr fun c _ => ?_
        by_cases hc : key c = key b <;> simp [hc, hne]
      rw [List.map_cons, firsts_cons, List.flatMap_cons, hkeys, hrest, List.filter_cons_of_pos (by simp),
        List.cons_append]
      refine List.Perm.cons a ((ih.append_left _).trans ?_)
      simpa using List.filter_append_perm (key · = key a) l
termination_by l => l.length
decreasing_by exact Nat.lt_succ_of_le hlen

section
variable {a : α} {l below above : List α}

theorem takeWhile_ne_of_not_mem (h : a ∉ l) : l.takeWhile (· ≠ a) = l :=
  List.takeWhile_eq_self_iff.mpr fun _ hx => decide_eq_true (ne_of_mem_of_not_mem hx h)

theorem dropWhile_ne_of_not_mem (h : a ∉ l) : l.dropWhile (· ≠ a) = [] :=
  List.dropWhile_eq_nil_iff.mpr fun _ hx => decide_eq_true (ne_of_mem_of_not_mem hx h)

theorem filter_ne_of_not_mem (h : a ∉ l) : l.filter (· ≠ a) = l :=
  List.filter_eq_self.mpr fun _ hx => decide_eq_true (ne_of_mem_of_not_mem hx h)

theorem takeWhile_ne_append_cons (h : a ∉ below) :
    (below ++ a :: above).takeWhile (· ≠ a) = below := by
  rw [List.takeWhile_append_of_pos fun _ hx => decide_eq_true (ne_of_mem_of_not_mem hx h),
    List.takeWhile_cons_of_neg (by simp), List.append_nil]

theorem drop_dropWhile_ne_append_cons (h : a ∉ below) :
    ((below ++ a :: above).dropWhile (· ≠ a)).drop 1 = above := by
  rw [List.dropWhile_append_of_pos fun _ hx => decide_eq_true (ne_of_mem_of_not_mem hx h),
    List.dropWhile_cons_of_neg (by simp), List.drop_one, List.tail_cons]

end

/-- Inserting an element into a list, on the first occurrences: those before it stay below it, and it
    moves from its former place, if it had one, below the ones between. -/
theorem firsts_insert (pre : List α) (a : α) (post : List α) :
    let lower := (firsts (pre ++ [a])).takeWhile (· ≠ a)
    let rest := (firsts (pre ++ post)).drop lower.length
    let middle := rest.takeWhile (· ≠ a)
    let upper := (rest.dropWhile (· ≠ a)).drop 1
    firsts (pre ++ post) = lower ++ middle ++ (if a ∈ pre ++ post then [a] else []) ++ upper ∧
      firsts (pre ++ a :: post) = lower ++ a :: middle ++ upper := by
  intro lower rest middle upper
  have hfirst : firsts (pre ++ post) = firsts pre ++ firsts (post.filter (· ∉ pre)) := firsts_append ..
  have hinsert : firsts (pre ++ a :: post)
      = firsts (pre ++ [a]) ++ firsts (post.filter (· ∉ pre ++ [a])) := by
    rw [← firsts_append, List.append_assoc, List.singleton_append]
  rcases em (a ∈ pre) with ha | ha
  · -- `a` keeps its place
    obtain ⟨below, above, hpre, hbelow⟩ := List.eq_append_cons_of_mem (mem_firsts.mpr ha)
    have hlower : lower = below := by
      simp only [lower, firsts_append_singleton, if_pos ha, hpre, takeWhile_ne_append_cons hbelow]
    have hrest : rest = [] ++ a :: (above ++ firsts (post.filter (· ∉ pre))) := by
      simp only [rest, hlower, hfirst, hpre, List.append_assoc, List.cons_append, List.drop_left,
        List.nil_append]
    have hmiddle : middle = [] := by
      simp only [middle, hrest, takeWhile_ne_append_cons List.not_mem_nil]
    have hupper : upper = above ++ firsts (post.filter (· ∉ pre)) := by
      simp only [upper, hrest, drop_dropWhile_ne_append_cons List.not_mem_nil]
    have hfilter : post.filter (· ∉ pre ++ [a]) = post.filter (· ∉ pre) := by
      refine List.filter_congr fun x _ => ?_
      rcases eq_or_ne x a with rfl | hx
      · simp [ha]
      · simp [hx]
    rw [hinsert, hfilter, firsts_append_singleton, if_pos ha, hfirst, hlower, hmiddle, hupper, hpre,
      if_pos (List.mem_append_left _ ha)]
    simp
  · -- `a` is new after `pre`
    have hlower : lower = firsts pre := by
      simp only [lower, firsts_append_singleton, if_neg ha]
      exact takeWhile_ne_append_cons fun h => ha (mem_firsts.mp h)
    have hrest : rest = firsts (post.filter (· ∉ pre)) := by
      simp only [rest, hlower, hfirst, List.drop_left]
    have hfilter : firsts (post.filter (· ∉ pre ++ [a])) = rest.filter (· ≠ a) := by
      rw [hrest, ← firsts_filter, List.filter_filter]
      congr 1
      exact List.filter_congr fun x _ => by simp [and_comm]
    have hmem : a ∈ pre ++ post ↔ a ∈ rest := by
      rw [hrest, mem_firsts]
      simp [ha]
    rw [hinsert, hfilter, firsts_append_singleton, if_neg ha, hfirst, ← hrest, hlower]
    rcases em (a ∈ rest) with hr | hr
    · obtain ⟨below, above, hsplit, hbelow⟩ := List.eq_append_cons_of_mem hr
      have habove : a ∉ above := by
        have hnodup : rest.Nodup := hrest ▸ nodup_firsts _
        rw [hsplit, List.nodup_append, List.nodup_cons] at hnodup
        exact hnodup.2.1.1
      have hmiddle : middle = below := by
        simp only [middle, hsplit, takeWhile_ne_append_cons hbelow]
      have hupper : upper = above := by
        simp only [upper, hsplit, drop_dropWhile_ne_append_cons hbelow]
      rw [if_pos (hmem.mpr hr), hmiddle, hupper, hsplit, List.filter_append,
        List.filter_cons_of_neg (by simp), filter_ne_of_not_mem hbelow, filter_ne_of_not_mem habove]
      simp
    · have hmiddle : middle = rest := takeWhile_ne_of_not_mem hr
      have hupper : upper = [] := by
        simp only [upper, dropWhile_ne_of_not_mem hr, List.drop_nil]
      rw [if_neg fun h => hr (hmem.mp h), hmiddle, hupper, filter_ne_of_not_mem hr]
      simp

/-! ### Assignment lists -/

theorem lookup_cons_ite (a k : α) (b : β) (l : List (α × β)) :
    ((a, b) :: l).lookup k = if k = a then some b else l.lookup k := by
  rw [List.lookup_cons]
  by_cases h : k = a
  · simp [h]
  · rw [beq_false_of_ne h, if_neg h]

/-- The value of the last pair with key `k`. -/
def lastWins (l : List (α × β)) (k : α) : Option β := l.reverse.lookup k

@[simp] theorem lastWins_nil (k : α) : lastWins ([] : List (α × β)) k = none := rfl

theorem lastWins_append (l m : List (α × β)) (k : α) :
    lastWins (l ++ m) k = (lastWins m k).or (lastWins l k) := by
  rw [lastWins, List.reverse_append, List.lookup_append]; rfl

@[simp] theorem lastWins_singleton (a : α) (b : β) (k : α) :
    lastWins [(a, b)] k = if k = a then some b else none := lookup_cons_ite a k b []

theorem lastWins_cons (a : α) (b : β) (l : List (α × β)) (k : α) :
    lastWins ((a, b) :: l) k = (lastWins l k).or (if k = a then some b else none) := by
  rw [← List.singleton_append, lastWins_append, lastWins_singleton]

theorem lastWins_map {γ : Type*} (f : β → γ) (k : α) : ∀ l : List (α × β),
    lastWins (l.map fun e => (e.1, f e.2)) k = (lastWins l k).map f
  | [] => rfl
  | (a, b) :: l => by
      rw [List.map_cons, lastWins_cons, lastWins_cons, lastWins_map f k l]
      by_cases h : k = a <;> cases lastWins l k <;> simp [h]

/-- One value for several keys. -/
theorem lastWins_const (v : β) (k : α) : ∀ l : List α,
    lastWins (l.map fun a => (a, v)) k = if k ∈ l then some v else none
  | [] => rfl
  | a :: l => by
      rw [List.map_cons, lastWins_cons, lastWins_const v k l]
      rcases eq_or_ne k a with rfl | ha
      · by_cases hl : k ∈ l <;> simp [hl]
      · simp [ha]

/-- Renaming the keys: `g k` is the only key renamed to `k`. -/
theorem lastWins_rename {γ : Type*} [DecidableEq γ] {f : α → Option γ} {g : γ → α} {k : γ}
    (h : ∀ a, f a = some k ↔ a = g k) : ∀ l : List (α × β),
    lastWins (l.filterMap fun e => (f e.1).map fun c => (c, e.2)) k = lastWins l (g k)
  | [] => rfl
  | (a, b) :: l => by
      rw [lastWins_cons, ← lastWins_rename h l]
      rcases hf : f a with _ | c
      · rw [List.filterMap_cons_none (by simp [hf]), if_neg fun hg => ?_, Option.or_none]
        rw [(h a).mpr hg.symm] at hf
        exact absurd hf (by simp)
      · rw [List.filterMap_cons_some (b := (c, b)) (by simp only [hf, Option.map_some]), lastWins_cons]
        have hiff : k = c ↔ g k = a := by rw [eq_comm (a := g k), ← h a, hf, Option.some_inj, eq_comm]
        simp only [hiff]

theorem lastWins_isSome {l : List (α × β)} {k : α} :
    (lastWins l k).isSome ↔ k ∈ l.map Prod.fst := by
  rw [lastWins, List.lookup_isSome_iff, List.mem_map]
  exact ⟨fun ⟨p, hp, hk⟩ => ⟨p, List.mem_reverse.mp hp, (eq_of_beq hk).symm⟩,
    fun ⟨p, hp, hk⟩ => ⟨p, List.mem_reverse.mpr hp, beq_iff_eq.mpr hk.symm⟩⟩

/-- A pair is the one that decides its key exactly when no later pair has the same key. -/
theorem lastWins_eq_some_iff {l : List (α × β)} {k : α} {b : β} :
    lastWins l k = some b ↔ ∃ pre post, l = pre ++ (k, b) :: post ∧ k ∉ post.map Prod.fst := by
  rw [lastWins, List.lookup_eq_some_iff]
  constructor
  · rintro ⟨m, n, hl, hm⟩
    refine ⟨n.reverse, m.reverse, ?_, ?_⟩
    · rw [← l.reverse_reverse, hl]; simp
    · intro hk
      obtain ⟨p, hp, rfl⟩ := List.mem_map.mp hk
      simpa using hm p (List.mem_reverse.mp hp)
  · rintro ⟨pre, post, rfl, hk⟩
    refine ⟨post.reverse, pre.reverse, by simp, fun p hp => ?_⟩
    rw [bne_iff_ne]
    rintro rfl
    exact hk (List.mem_map_of_mem (List.mem_reverse.mp hp))

/-- Two readings of a list with the same keys give the same map exactly when they agree on every
    element that no later one overrides. -/
theorem lastWins_map_eq_iff {γ : Type*} {f g : γ → α × β} (hk : ∀ x, (f x).1 = (g x).1)
    (l : List γ) :
    (∀ k, lastWins (l.map f) k = lastWins (l.map g) k)
      ↔ ∀ pre x post, l = pre ++ x :: post → (f x).1 ∉ post.map (fun y => (f y).1) →
          (f x).2 = (g x).2 := by
  have hkeys : ∀ m : List γ, m.map (fun y => (f y).1) = m.map (fun y => (g y).1) := fun m =>
    List.map_congr_left fun x _ => hk x
  have hnone : ∀ {h : γ → α × β} {m : List γ} {k : α}, k ∉ m.map (fun y => (h y).1) →
      lastWins (m.map h) k = none := fun {h m k} hm => by
    rw [← Option.not_isSome_iff_eq_none, lastWins_isSome, List.map_map]; exact hm
  constructor
  · rintro h pre x post rfl hx
    have hx' : (f x).1 ∉ post.map (fun y => (g y).1) := hkeys post ▸ hx
    have h' := h (f x).1
    rw [List.map_append, List.map_append, List.map_cons, List.map_cons, lastWins_append,
      lastWins_append, lastWins_cons, lastWins_cons, hnone hx, hnone hx', if_pos rfl,
      if_pos (hk x)] at h'
    exact Option.some.inj h'
  · induction l with
    | nil => exact fun _ _ => rfl
    | cons x l ih =>
      intro h k
      have ih' := ih fun pre y post hl => h (x :: pre) y post (by rw [hl, List.cons_append])
      rw [List.map_cons, List.map_cons, lastWins_cons, lastWins_cons, ih' k]
      by_cases hx : k = (f x).1
      · subst hx
        by_cases hm : (f x).1 ∈ l.map (fun y => (g y).1)
        · have : (lastWins (l.map g) (f x).1).isSome := by
            rw [lastWins_isSome, List.map_map]; exact hm
          obtain ⟨v, hv⟩ := Option.isSome_iff_exists.mp this
          rw [hv]; rfl
        · rw [h [] x l rfl (hkeys l ▸ hm), hk x]
      · rw [if_neg hx, if_neg (hk x ▸ hx)]

/-- With distinct keys the first pair of a key is its last. -/
theorem lastWins_eq_lookup {l : List (α × β)} (h : (l.map Prod.fst).Nodup) (k : α) :
    lastWins l k = l.lookup k := by
  induction l with
  | nil => rfl
  | cons e l ih =>
    obtain ⟨a, b⟩ := e
    rw [List.map_cons, List.nodup_cons] at h
    rw [lastWins_cons, ih h.2, lookup_cons_ite]
    by_cases hk : k = a
    · subst hk
      have hl : l.lookup k = none := by
        rw [List.lookup_eq_none_iff]
        intro p hp
        rw [bne_iff_ne]
        exact fun hkp => h.1 (List.mem_map.mpr ⟨p, hp, hkp.symm⟩)
      simp [hl]
    · simp [hk]

/-! ### Dictionaries -/

/-- `dict`: its items in insertion order, every key once. -/
@[ext] structure Dict (α : Type u) (β : Type v) where
  items : List (α × β)
  nodup : (items.map Prod.fst).Nodup
  deriving DecidableEq

namespace Dict

/-- Assignment on the list of items. -/
def assign (k : α) (v : β) : List (α × β) → List (α × β)
  | [] => [(k, v)]
  | (a, b) :: es => if a = k then (k, v) :: es else (a, b) :: assign k v es

theorem keys_assign (k : α) (v : β) : ∀ es : List (α × β),
    (assign k v es).map Prod.fst
      = if k ∈ es.map Prod.fst then es.map Prod.fst else es.map Prod.fst ++ [k]
  | [] => by simp [assign]
  | (a, b) :: es => by
      by_cases h : a = k
      · simp [assign, h]
      · rw [assign, if_neg h, List.map_cons, keys_assign k v es]
        by_cases hk : k ∈ es.map Prod.fst <;> simp [hk, Ne.symm h]

theorem lookup_assign (k k' : α) (v : β) : ∀ es : List (α × β),
    (assign k v es).lookup k' = if k' = k then some v else es.lookup k'
  | [] => lookup_cons_ite k k' v []
  | (a, b) :: es => by
      by_cases h : a = k
      · subst h
        rw [assign, if_pos rfl, lookup_cons_ite, lookup_cons_ite]
        by_cases hk : k' = a <;> simp [hk]
      · rw [assign, if_neg h, lookup_cons_ite, lookup_cons_ite, lookup_assign k k' v es]
        by_cases hk : k' = a
        · subst hk; simp [h]
        · simp [hk]

theorem assign_assign (k : α) (v w : β) : ∀ es : List (α × β),
    assign k w (assign k v es) = assign k w es
  | [] => by simp [assign]
  | (a, b) :: es => by
      by_cases h : a = k
      · simp [assign, h]
      · simp only [assign, if_neg h, assign_assign k v w es]

/-- `{}` -/
def empty : Dict α β := ⟨[], List.nodup_nil⟩

instance : EmptyCollection (Dict α β) := ⟨empty⟩
instance : Inhabited (Dict α β) := ⟨empty⟩

/-- `d.get(k)` -/
def get (d : Dict α β) (k : α) : Option β := d.items.lookup k

/-- `d.keys()` -/
def keys (d : Dict α β) : List α := d.items.map Prod.fst

/-- `d[k] = v` -/
def set (d : Dict α β) (k : α) (v : β) : Dict α β where
  items := assign k v d.items
  nodup := by
    rw [keys_assign]
    split
    · exact d.nodup
    · next h =>
      rw [List.nodup_append]
      exact ⟨d.nodup, List.nodup_singleton k, fun a ha b hb => by
        rw [List.mem_singleton.mp hb]; exact fun hab => h (hab ▸ ha)⟩

/-- `d.pop(k, None)` -/
def erase (d : Dict α β) (k : α) : Dict α β where
  items := d.items.filter fun e => e.1 ≠ k
  nodup := d.nodup.sublist (List.filter_sublist.map _)

/-- `{k: f(v) for k, v in d.items()}` -/
def mapValues {γ : Type*} (f : β → γ) (d : Dict α β) : Dict α γ where
  items := d.items.map fun e => (e.1, f e.2)
  nodup := by
    rw [List.map_map]
    exact d.nodup

/-- `d.update(l)`: the assignments of `l` in order. -/
def update (d : Dict α β) (l : List (α × β)) : Dict α β := l.foldl (fun d e => d.set e.1 e.2) d

/-- `dict(l)` -/
def ofList (l : List (α × β)) : Dict α β := update ∅ l

@[simp] theorem get_empty (k : α) : (∅ : Dict α β).get k = none := rfl

@[simp] theorem get_set (d : Dict α β) (k k' : α) (v : β) :
    (d.set k v).get k' = if k' = k then some v else d.get k' := lookup_assign k k' v d.items

theorem set_set (d : Dict α β) (k : α) (v w : β) : (d.set k v).set k w = d.set k w :=
  Dict.ext (assign_assign k v w d.items)

theorem keys_set (d : Dict α β) (k : α) (v : β) :
    (d.set k v).keys = if k ∈ d.keys then d.keys else d.keys ++ [k] := keys_assign k v d.items

theorem mem_keys {d : Dict α β} {k : α} : k ∈ d.keys ↔ (d.get k).isSome := by
  rw [keys, ← lastWins_isSome, get, lastWins_eq_lookup d.nodup]

theorem get_erase (d : Dict α β) (k k' : α) :
    (d.erase k).get k' = if k' = k then none else d.get k' := by
  obtain ⟨es, hes⟩ := d
  simp only [erase, get]
  clear hes
  induction es with
  | nil => simp
  | cons e es ih =>
    obtain ⟨a, b⟩ := e
    by_cases h : a = k
    · subst h
      rw [List.filter_cons_of_neg (by simp), ih, lookup_cons_ite]
      by_cases hk : k' = a <;> simp [hk]
    · rw [List.filter_cons_of_pos (by simpa using h), lookup_cons_ite, ih, lookup_cons_ite]
      by_cases hk : k' = a
      · subst hk; simp [h]
      · simp [hk]

@[simp] theorem update_nil (d : Dict α β) : d.update [] = d := rfl

theorem update_append (d : Dict α β) (l m : List (α × β)) :
    d.update (l ++ m) = (d.update l).update m := List.foldl_append ..

theorem update_cons (d : Dict α β) (k : α) (v : β) (l : List (α × β)) :
    d.update ((k, v) :: l) = (d.set k v).update l := rfl

theorem get_update (d : Dict α β) (l : List (α × β)) (k : α) :
    (d.update l).get k = (lastWins l k).or (d.get k) := by
  induction l generalizing d with
  | nil => rfl
  | cons e l ih =>
    rw [update_cons, ih, lastWins_cons, get_set]
    by_cases h : k = e.1 <;> cases lastWins l k <;> simp [h]

@[simp] theorem get_ofList (l : List (α × β)) (k : α) : (ofList l).get k = lastWins l k := by
  rw [ofList, get_update, get_empty, Option.or_none]

theorem keys_update (d : Dict α β) (l : List (α × β)) :
    (d.update l).keys = d.keys ++ firsts ((l.map Prod.fst).filter (· ∉ d.keys)) := by
  induction l generalizing d with
  | nil => simp
  | cons e l ih =>
    obtain ⟨a, b⟩ := e
    rw [update_cons, ih, keys_set, List.map_cons]
    by_cases h : a ∈ d.keys
    · simp [h]
    · rw [if_neg h, List.filter_cons_of_pos (by simpa using h), firsts_cons,
        List.append_assoc, List.singleton_append, List.filter_filter]
      congr 3
      refine List.filter_congr fun x _ => ?_
      by_cases hx : x = a <;> simp [hx]

theorem keys_ofList (l : List (α × β)) : (ofList l).keys = firsts (l.map Prod.fst) := by
  rw [ofList, keys_update]
  simp [show (∅ : Dict α β).keys = [] from rfl]

theorem get_of_mem_items {d : Dict α β} {k : α} {v : β} (h : (k, v) ∈ d.items) :
    d.get k = some v := by
  obtain ⟨pre, post, hl⟩ := List.append_of_mem h
  have hd := d.nodup
  rw [get, ← lastWins_eq_lookup hd, lastWins_eq_some_iff]
  refine ⟨pre, post, hl, fun hk => ?_⟩
  rw [hl, List.map_append, List.map_cons] at hd
  exact (List.nodup_cons.mp (List.nodup_append.mp hd).2.1).1 hk

theorem mem_items_of_get {d : Dict α β} {k : α} {v : β} (h : d.get k = some v) :
    (k, v) ∈ d.items := by
  obtain ⟨l₁, l₂, hl, -⟩ := List.lookup_eq_some_iff.mp h
  exact hl ▸ List.mem_append_right l₁ List.mem_cons_self

/-- The items are the keys in order, each with its value. -/
theorem items_eq (d : Dict α β) : d.items = d.keys.filterMap fun k => (d.get k).map (k, ·) := by
  rw [keys, List.filterMap_map]
  conv_lhs => rw [← List.filterMap_some (l := d.items)]
  exact List.filterMap_congr fun e he => by simp [get_of_mem_items (d := d) he]

/-- Changing the value of a present key changes it in its place. -/
theorem items_set {d : Dict α β} {k : α} {v : β} (h : d.get k = some v) (f : β → β) :
    (d.set k (f v)).items = d.items.map fun e => (e.1, if e.1 = k then f e.2 else e.2) := by
  have hk : k ∈ d.keys := mem_keys.mpr (by rw [h]; rfl)
  rw [items_eq, keys_set, if_pos hk, keys, List.filterMap_map, ← List.filterMap_eq_map]
  refine List.filterMap_congr fun e he => ?_
  have hget : d.get e.1 = some e.2 := get_of_mem_items he
  rw [Function.comp_apply, Function.comp_apply, get_set]
  by_cases hek : e.1 = k
  · rw [hek, h] at hget
    rw [if_pos hek, if_pos hek, Option.some.inj hget, Option.map_some]
  · rw [if_neg hek, if_neg hek, hget, Option.map_some]

/-- A list without a repeated key is the items of its map. -/
theorem items_ofList {l : List (α × β)} (h : (l.map Prod.fst).Nodup) : (ofList l).items = l := by
  rw [items_eq, keys_ofList, firsts_eq_self h, List.filterMap_map]
  conv_rhs => rw [← List.filterMap_some (l := l)]
  refine List.filterMap_congr fun e he => ?_
  have hget := get_of_mem_items (d := ⟨l, h⟩) (k := e.1) (v := e.2) he
  rw [Function.comp_apply, get_ofList, lastWins_eq_lookup h]
  exact congrArg (Option.map (e.1, ·)) hget

theorem lastWins_items (d : Dict α β) (k : α) : lastWins d.items k = d.get k :=
  lastWins_eq_lookup d.nodup k

/-! ### Equality as Python sees it -/

/-- `d == d'`: the same keys with the same values, in whatever order. -/
def Same (d d' : Dict α β) : Prop := ∀ k, d.get k = d'.get k

theorem Same.mem_keys {d d' : Dict α β} (h : d.Same d') {k : α} : k ∈ d.keys ↔ k ∈ d'.keys := by
  rw [Dict.mem_keys, Dict.mem_keys, h k]

/-- With the keys in the same order it is equality. -/
theorem Same.eq {d d' : Dict α β} (h : d.Same d') (hkeys : d.keys = d'.keys) : d = d' := by
  have hget : d.get = d'.get := funext h
  have hitems : d.items = d'.items := by rw [items_eq d, items_eq d', hkeys, hget]
  exact Dict.ext hitems

end Dict

end Py
