import Mathlib.Data.List.Infix

/-! A tree of files and directories, each of which may be immutable, and what `mkdir -p`, `mv`, `install`
    and `chattr` do to it.

    A path is a list of names below the root. The operations fail where the tree does not allow them. -/

namespace FileTree
variable {ν κ : Type*}

inductive Node (κ : Type*) where
  | file (content : κ)
  | dir
  deriving DecidableEq

structure Entry (κ : Type*) where
  node : Node κ
  immutable : Bool

/-- What is at each path. There are finitely many entries, and what has one below it is a directory. -/
structure Tree (ν κ : Type*) where
  entry : List ν → Option (Entry κ)
  paths : List (List ν)
  finite : ∀ {p}, (entry p).isSome → p ∈ paths
  parent : ∀ {p c}, (entry (p ++ [c])).isSome → (entry p).map Entry.node = some .dir

namespace Tree
section
variable (t : Tree ν κ)

def node (p : List ν) : Option (Node κ) := (t.entry p).map Entry.node

def immutable (p : List ν) : Bool := (t.entry p).any Entry.immutable

theorem node_parent {p : List ν} {c : ν} (h : (t.node (p ++ [c])).isSome) : t.node p = some .dir :=
  t.parent (by rwa [node, Option.isSome_map] at h)

/-- Under what is not a directory, there is nothing. -/
theorem node_below {p : List ν} (h : t.node p ≠ some .dir) {r : List ν} (hr : r ≠ []) :
    t.node (p ++ r) = none := by
  induction r using List.reverseRecOn with
  | nil => exact absurd rfl hr
  | append_singleton r c ih =>
    by_contra hsome
    rw [← List.append_assoc] at hsome
    have hdir := t.node_parent (Option.isSome_iff_ne_none.mpr hsome)
    by_cases hr : r = []
    · rw [hr, List.append_nil] at hdir
      exact h hdir
    · rw [ih hr] at hdir
      cases hdir

theorem exists_length_lt (ps : List (List ν)) : ∃ n, ∀ p ∈ ps, p.length < n := by
  induction ps with
  | nil => exact ⟨0, by simp⟩
  | cons p ps ih =>
    obtain ⟨n, hn⟩ := ih
    refine ⟨max n (p.length + 1), fun q hq => ?_⟩
    rcases List.mem_cons.mp hq with rfl | hq
    · omega
    · have hlt := hn q hq
      omega

/-- No name goes on below itself for ever. -/
theorem exists_replicate_none (p : List ν) (c : ν) : ∃ n, t.node (p ++ List.replicate n c) = none := by
  obtain ⟨n, hn⟩ := exists_length_lt t.paths
  refine ⟨n, ?_⟩
  by_contra hsome
  rw [← ne_eq, ← Option.isSome_iff_ne_none, node, Option.isSome_map] at hsome
  have hlt := hn _ (t.finite hsome)
  rw [List.length_append, List.length_replicate] at hlt
  omega

end

/-- A root with nothing below it. -/
def root : Tree ν κ where
  entry p := if p.isEmpty then some ⟨.dir, false⟩ else none
  paths := [[]]
  finite := by
    intro p h
    split at h
    · next hp => exact List.mem_singleton.mpr (List.isEmpty_iff.mp hp)
    · cases h
  parent := by
    intro p c h
    simp at h

/-! ### A new entry -/

section
variable [DecidableEq ν] (t : Tree ν κ)

/-- A file or a directory where no directory is. -/
def put (p : List ν) (e : Entry κ) (hp : t.node p.dropLast = some .dir) (hn : t.node p ≠ some .dir) :
    Tree ν κ where
  entry q := if q = p then some e else t.entry q
  paths := p :: t.paths
  finite := by
    intro q h
    split at h
    · next hq => exact hq ▸ List.mem_cons_self
    · exact List.mem_cons_of_mem p (t.finite h)
  parent := by
    intro q c h
    have hdir : t.node q = some .dir := by
      split at h
      · next hq => rwa [← hq, List.dropLast_concat] at hp
      · exact t.parent h
    have hne : q ≠ p := fun hq => hn (hq ▸ hdir)
    rw [if_neg hne]
    exact hdir

theorem node_put {p : List ν} {e : Entry κ} {hp : t.node p.dropLast = some .dir} {hn : t.node p ≠ some .dir}
    (q : List ν) : (t.put p e hp hn).node q = if q = p then some e.node else t.node q := by
  have hentry : (t.put p e hp hn).entry q = if q = p then some e else t.entry q := rfl
  rw [node, hentry]
  split
  · rfl
  · rfl

end

/-! ### `mkdir -p` -/

section
variable [DecidableEq ν] [DecidableEq κ] (t : Tree ν κ)

/-- A directory of `mkdir -p`: it is there, or the parent lets it be made. -/
def mkdir (p : List ν) : Option (Tree ν κ) :=
  if t.node p = some .dir then some t
  else if h : t.node p = none ∧ t.node p.dropLast = some .dir ∧ t.immutable p.dropLast = false then
    some (t.put p ⟨.dir, false⟩ h.2.1 (by simp [h.1]))
  else none

def mkdirs (p : List ν) : Option (Tree ν κ) := p.inits.foldlM mkdir t

/-- The second tree has these directories more than the first one, or the same. -/
structure Made (ps : List (List ν)) (t t' : Tree ν κ) : Prop where
  made : ∀ p ∈ ps, t'.node p = some .dir
  same : ∀ p, p ∉ ps → t'.node p = t.node p
  kept : ∀ p n, t.node p = some n → t'.node p = some n

variable {t} {t' : Tree ν κ}

theorem made_mkdir {p : List ν} (h : t.mkdir p = some t') : Made [p] t t' := by
  rw [mkdir] at h
  split at h
  · next hdir =>
    obtain rfl := Option.some.inj h
    exact ⟨fun q hq => List.mem_singleton.mp hq ▸ hdir, fun _ _ => rfl, fun _ _ => id⟩
  · split at h
    · next hnone =>
      obtain rfl := Option.some.inj h
      refine ⟨fun q hq => ?_, fun q hq => ?_, fun q n hq => ?_⟩
      · rw [node_put, if_pos (List.mem_singleton.mp hq)]
      · rw [node_put, if_neg fun h => hq (List.mem_singleton.mpr h)]
      · have hne : q ≠ p := fun h => by simp [h, hnone.1] at hq
        rw [node_put, if_neg hne, hq]
    · cases h

theorem made_foldlM {ps : List (List ν)} : ∀ {t : Tree ν κ}, ps.foldlM mkdir t = some t' → Made ps t t' := by
  induction ps with
  | nil =>
    intro t h
    obtain rfl := Option.some.inj h
    exact ⟨by simp, fun _ _ => rfl, fun _ _ => id⟩
  | cons p ps ih =>
    intro t h
    rw [List.foldlM_cons] at h
    obtain ⟨u, hu, h⟩ := Option.bind_eq_some_iff.mp h
    have hp := made_mkdir hu
    have hps := ih h
    refine ⟨fun q hq => ?_, fun q hq => ?_, fun q n hq => hps.kept q n (hp.kept q n hq)⟩
    · rcases List.mem_cons.mp hq with rfl | hq
      · exact hps.kept q _ (hp.made q (List.mem_singleton_self q))
      · exact hps.made q hq
    · rw [hps.same q fun h => hq (List.mem_cons_of_mem p h),
        hp.same q fun h => hq (List.mem_singleton.mp h ▸ List.mem_cons_self)]

/-- The ancestors of a path are there then, and nothing else has changed. -/
theorem made_mkdirs {p : List ν} (h : t.mkdirs p = some t') : Made p.inits t t' := made_foldlM h

end

/-! ### `mv` -/

section
variable [DecidableEq ν] [DecidableEq κ] (t : Tree ν κ)

/-- Nothing is below the path. -/
def emptyBelow (d : List ν) : Bool :=
  t.paths.all fun p => decide (d <+: p → p = d) || (t.entry p).isNone

/-- What may take the place of what. -/
def replaces : Option (Node κ) → Option (Node κ) → Bool → Bool
  | some _, none, _ => true
  | some (.file _), some (.file _), _ => true
  | some .dir, some .dir, empty => empty
  | _, _, _ => false

/-- `rename` moves what is at a path and below it, unless an entry that changes is immutable. -/
def rename (s d : List ν) : Option (Tree ν κ) :=
  if h : ¬s <+: d ∧ ¬d <+: s ∧ t.node d.dropLast = some .dir then
    if replaces (t.node s) (t.node d) (t.emptyBelow d) && !t.immutable s && !t.immutable s.dropLast
        && !t.immutable d && !t.immutable d.dropLast then
      some {
        entry := fun p =>
          if d <+: p then t.entry (s ++ p.drop d.length) else if s <+: p then none else t.entry p
        paths := t.paths ++ t.paths.map fun p => d ++ p.drop s.length
        finite := by
          intro p hp
          rw [List.mem_append, List.mem_map]
          split at hp
          · next hd =>
            obtain ⟨r, rfl⟩ := hd
            rw [List.drop_left] at hp
            exact .inr ⟨s ++ r, t.finite hp, by rw [List.drop_left]⟩
          · split at hp
            · cases hp
            · exact .inl (t.finite hp)
        parent := by
          intro p c hp
          split at hp
          · next hd =>
            rcases List.prefix_concat_iff.mp hd with rfl | hd
            · rw [List.dropLast_concat] at h
              have hlt : ¬p ++ [c] <+: p := fun hd => by
                have hle := hd.length_le
                rw [List.length_append, List.length_singleton] at hle
                omega
              rw [if_neg hlt,
                if_neg fun hs => h.1 (hs.trans (List.prefix_append p [c]))]
              exact h.2.2
            · obtain ⟨r, rfl⟩ := hd
              rw [List.append_assoc, List.drop_left, ← List.append_assoc] at hp
              rw [if_pos (List.prefix_append d r), List.drop_left]
              exact t.parent hp
          · next hd =>
            split at hp
            · cases hp
            · next hs =>
              rw [if_neg fun h => hd (h.trans (List.prefix_append p [c])),
                if_neg fun h => hs (h.trans (List.prefix_append p [c]))]
              exact t.parent hp }
    else none
  else none

/-- `mv`: into the destination, if that is a directory. -/
def mv (s d : List ν) : Option (Tree ν κ) :=
  s.getLast?.bind fun name => t.rename s (if t.node d = some .dir then d ++ [name] else d)

variable {t} {t' : Tree ν κ} {s d : List ν}

theorem node_rename (h : t.rename s d = some t') (p : List ν) : t'.node p =
    if d <+: p then t.node (s ++ p.drop d.length) else if s <+: p then none else t.node p := by
  rw [rename] at h
  split at h
  · split at h
    · obtain rfl := Option.some.inj h
      rw [node]
      dsimp only
      split
      · rfl
      · split
        · rfl
        · rfl
    · cases h
  · cases h

theorem replaces_of_rename (h : t.rename s d = some t') :
    replaces (t.node s) (t.node d) (t.emptyBelow d) = true := by
  rw [rename] at h
  split at h
  · split at h
    · next hall =>
      simp only [Bool.and_eq_true] at hall
      exact hall.1.1.1.1
    · cases h
  · cases h

end

/-! ### `install` -/

section
variable [DecidableEq ν] [DecidableEq κ] (t : Tree ν κ)

/-- A file put in the place of nothing or another file. -/
def write (content : κ) (p : List ν) : Option (Tree ν κ) :=
  if h : t.node p.dropLast = some .dir ∧ t.node p ≠ some .dir then
    if !t.immutable p && !t.immutable p.dropLast then some (t.put p ⟨.file content, false⟩ h.1 h.2) else none
  else none

/-- `install -D` of a file. -/
def install (content : κ) (p : List ν) : Option (Tree ν κ) :=
  (t.mkdirs p.dropLast).bind fun t => t.write content p

variable {t} {t' : Tree ν κ} {p : List ν} {content : κ}

theorem node_write (h : t.write content p = some t') (q : List ν) :
    t'.node q = if q = p then some (.file content) else t.node q := by
  rw [write] at h
  split at h
  · split at h
    · obtain rfl := Option.some.inj h
      rw [node_put]
    · cases h
  · cases h

/-- What the path is not below stays. -/
theorem node_install (h : t.install content p = some t') {q : List ν} (hq : ¬q <+: p) : t'.node q = t.node q := by
  obtain ⟨u, hu, h⟩ := Option.bind_eq_some_iff.mp h
  have hne : q ≠ p := fun h => hq (h ▸ List.prefix_refl q)
  rw [node_write h, if_neg hne]
  exact (made_mkdirs hu).same q fun hmem =>
    hq (((List.mem_inits _ _).mp hmem).trans (List.dropLast_prefix p))

/-- And whatever was there, apart from the file. -/
theorem kept_install (h : t.install content p = some t') {q : List ν} (hq : q ≠ p) {n : Node κ}
    (hn : t.node q = some n) : t'.node q = some n := by
  obtain ⟨u, hu, h⟩ := Option.bind_eq_some_iff.mp h
  rw [node_write h, if_neg hq]
  exact (made_mkdirs hu).kept q n hn

end

/-! ### `chattr` -/

section
variable [DecidableEq ν] (t : Tree ν κ)

/-- `chattr -R ±i`: all of the paths have to be there. -/
def chattr (immutable : Bool) (ps : List (List ν)) : Option (Tree ν κ) :=
  if ∀ p ∈ ps, (t.entry p).isSome then
    some {
      entry := fun p =>
        if ∃ q ∈ ps, q <+: p then (t.entry p).map fun e => ⟨e.node, immutable⟩ else t.entry p
      paths := t.paths
      finite := by
        intro p h
        split at h
        · rw [Option.isSome_map] at h
          exact t.finite h
        · exact t.finite h
      parent := by
        intro p c h
        have hdir : t.node p = some .dir := by
          split at h
          · rw [Option.isSome_map] at h
            exact t.parent h
          · exact t.parent h
        split
        · rw [Option.map_map]
          exact hdir
        · exact hdir }
  else none

variable {t} {t' : Tree ν κ} {immutable : Bool} {ps : List (List ν)}

theorem node_chattr (h : t.chattr immutable ps = some t') (p : List ν) : t'.node p = t.node p := by
  rw [chattr] at h
  split at h
  · obtain rfl := Option.some.inj h
    rw [node]
    dsimp only
    split
    · rw [Option.map_map]
      rfl
    · rfl
  · cases h

theorem isSome_of_chattr (h : t.chattr immutable ps = some t') {p : List ν} (hp : p ∈ ps) :
    (t'.node p).isSome := by
  rw [node_chattr h, node, Option.isSome_map]
  rw [chattr] at h
  split at h
  · next hall => exact hall p hp
  · cases h

/-- The attribute is set then. -/
theorem immutable_chattr (h : t.chattr immutable ps = some t') {p : List ν} (hp : p ∈ ps) :
    t'.immutable p = immutable := by
  rw [chattr] at h
  split at h
  · next hall =>
    obtain rfl := Option.some.inj h
    obtain ⟨e, he⟩ := Option.isSome_iff_exists.mp (hall p hp)
    rw [Tree.immutable]
    dsimp only
    rw [if_pos ⟨p, hp, List.prefix_refl p⟩, he]
    rfl
  · cases h

end

end Tree
end FileTree
