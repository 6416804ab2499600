import Secureblue.Py.Bytes
import Secureblue.Py.Dict

/-! A file system without links, as `pathlib` sees it: a tree of directories and regular files, the
    resolution of `..` against it, and the operations `mkdir`, `copy`, `unlink` and `glob`.

    Every node has a directory as its parent and a name that can be stored; the structure carries this,
    so that each operation is shown once to keep it. A path that the system refuses raises, also where
    a missing file would do. -/

namespace Py

/-- The bytes of a text in UTF-8. -/
def utf8Len (t : Text) : ℕ := (t.map Char.utf8Size).sum

theorem utf8Len_le (t : Text) : utf8Len t ≤ 4 * t.length := by
  induction t with
  | nil => exact Nat.le_refl 0
  | cons c t ih =>
    have hc := c.utf8Size_le_four
    simp only [utf8Len, List.map_cons, List.sum_cons, List.length_cons] at ih ⊢
    omega

theorem length_le_utf8Len (t : Text) : t.length ≤ utf8Len t := by
  induction t with
  | nil => exact Nat.le_refl 0
  | cons c t ih =>
    have hc := c.utf8Size_pos
    simp only [utf8Len, List.map_cons, List.sum_cons, List.length_cons] at ih ⊢
    omega

/-- An absolute path, as its components. -/
abbrev Path := List Text

namespace Path

/-- The components of a text: empty ones and `.` are dropped. -/
def parts (s : Text) : Path := (s.splitOn '/').filter fun c => c ≠ [] ∧ c ≠ ['.']

/-- `p / s`: an absolute `s` replaces `p`. -/
def join (p : Path) (s : Text) : Path := if startsWith s ['/'] then parts s else p ++ parts s

theorem join_name (p : Path) {name : Text} (hslash : '/' ∉ name) (hne : name ≠ [])
    (hdot : name ≠ ['.']) : join p name = p ++ [name] := by
  have hrel : ¬ startsWith name ['/'] := fun h =>
    hslash ((startsWith_iff.mp h).subset (List.mem_singleton_self _))
  rw [join, if_neg hrel, parts, List.splitOn_eq_singleton hslash,
    List.filter_cons_of_pos (by simpa using ⟨hne, hdot⟩), List.filter_nil]

/-- `..` -/
def up : Text := ['.', '.']

/-- One component further, `..` leading back. -/
def child (cur : Path) (c : Text) : Path := if c = up then cur.dropLast else cur ++ [c]

/-- The path with each `..` taken together with the component before it. -/
def normalize (p : Path) : Path := p.foldl child []

theorem normalize_concat (p : Path) {c : Text} (hc : c ≠ up) :
    normalize (p ++ [c]) = normalize p ++ [c] := by
  rw [normalize, List.foldl_append, List.foldl_cons, List.foldl_nil, child, if_neg hc]
  rfl

/-- A text that ends in a name: the last component ends in it, whatever stands before. -/
theorem parts_append : ∀ (s : Text) {name : Text}, '/' ∉ name → name ≠ [] → name.length ≠ 1 →
    ∃ front rest, parts (s ++ name) = front ++ [rest ++ name] := by
  intro s name hslash hne hlen
  have hsplit : ∀ s : Text, ∃ front rest, (s ++ name).splitOn '/' = front ++ [rest ++ name] := by
    intro s
    induction s with
    | nil => exact ⟨[], [], List.splitOn_eq_singleton hslash⟩
    | cons c s ih =>
      obtain ⟨front, rest, h⟩ := ih
      rw [List.cons_append, List.splitOn_cons_eq_if_modifyHead, h]
      split
      · exact ⟨[] :: front, rest, rfl⟩
      · cases front with
        | nil => exact ⟨[], c :: rest, rfl⟩
        | cons p front => exact ⟨(c :: p) :: front, rest, rfl⟩
  obtain ⟨front, rest, h⟩ := hsplit s
  have hkeep : rest ++ name ≠ [] ∧ rest ++ name ≠ ['.'] := by
    refine ⟨fun he => hne (List.append_eq_nil_iff.mp he).2, fun he => ?_⟩
    have := congrArg List.length he
    have := List.length_pos_of_ne_nil hne
    simp only [List.length_append, List.length_singleton] at *
    omega
  refine ⟨front.filter fun c => c ≠ [] ∧ c ≠ ['.'], rest, ?_⟩
  rw [parts, h, List.filter_append, List.filter_cons,
    if_pos (decide_eq_true hkeep), List.filter_nil]

/-- Joined to a directory, such a text leads to a name of this ending. -/
theorem join_append (p : Path) (s : Text) {name : Text} (hslash : '/' ∉ name) (hne : name ≠ [])
    (hlen : name.length ≠ 1) : ∃ front rest, join p (s ++ name) = front ++ [rest ++ name] := by
  obtain ⟨front, rest, h⟩ := parts_append s hslash hne hlen
  rw [join]
  split
  · exact ⟨front, rest, h⟩
  · exact ⟨p ++ front, rest, by rw [h, List.append_assoc]⟩

/-- The bytes of a path, with the `/` before each component. -/
def size (p : Path) : ℕ := (p.map fun c => utf8Len c + 1).sum

theorem size_concat (p : Path) (c : Text) : size (p ++ [c]) = size p + (utf8Len c + 1) := by
  simp [size]

end Path

inductive Node where
  | file (content : Bytes)
  | dir
  deriving DecidableEq

/-- `NAME_MAX` of Linux: names up to it are looked up everywhere. -/
def nameMax : ℕ := 255

/-- `PATH_MAX` of Linux: no path of this many bytes is taken. -/
def pathMax : ℕ := 4096

/-- A name that a file can have: without NUL, and of at most 255 characters. -/
def Storable (c : Text) : Prop := '\x00' ∉ c ∧ c.length ≤ nameMax

instance (c : Text) : Decidable (Storable c) := inferInstanceAs (Decidable (_ ∧ _))

/-- A tree of nodes: what has a child is a directory. Most file systems find a name above `nameMax` too
    long when it is looked up, vfat does not have it. -/
structure FileSystem where
  nodes : Dict Path Node
  tooLong : Text → Bool
  parent : ∀ {p : Path} {c : Text} {n : Node}, nodes.get (p ++ [c]) = some n →
    nodes.get p = some .dir
  stored : ∀ {p : Path} {c : Text} {n : Node}, nodes.get (p ++ [c]) = some n →
    Storable c ∧ tooLong c = false
  tooLong_short : ∀ {c : Text}, utf8Len c ≤ nameMax → tooLong c = false

namespace FileSystem
open Py.Path
variable (fs : FileSystem)

def get (p : Path) : Option Node := fs.nodes.get p

theorem get_parent {p : Path} {c : Text} {n : Node} (h : fs.get (p ++ [c]) = some n) :
    fs.get p = some .dir := fs.parent h

/-- A finite set of nodes that is seen to be a tree, where names are too long above `nameMax`. -/
def ofNodes (nodes : Dict Path Node)
    (h : ∀ e ∈ nodes.items, e.1 ≠ [] → nodes.get e.1.dropLast = some .dir)
    (hname : ∀ e ∈ nodes.items, ∀ c ∈ e.1, '\x00' ∉ c ∧ utf8Len c ≤ nameMax) : FileSystem where
  nodes := nodes
  tooLong c := decide (nameMax < utf8Len c)
  parent := by
    intro p c n hget
    simpa using h _ (Dict.mem_items_of_get hget) (by simp)
  stored := by
    intro p c n hget
    obtain ⟨hnul, hshort⟩ := hname _ (Dict.mem_items_of_get hget) c (by simp)
    exact ⟨⟨hnul, (length_le_utf8Len c).trans hshort⟩, decide_eq_false (Nat.not_lt.mpr hshort)⟩
  tooLong_short hshort := decide_eq_false (Nat.not_lt.mpr hshort)

/-- Every proper ancestor of a node is a directory. -/
theorem get_ancestor {p : Path} : ∀ {q : Path} {n : Node}, fs.get (p ++ q) = some n → q ≠ [] →
    fs.get p = some .dir := by
  intro q
  induction q using List.reverseRecOn with
  | nil => exact fun _ h => absurd rfl h
  | append_singleton q c ih =>
    intro n h _
    rw [← List.append_assoc] at h
    rcases eq_or_ne q [] with rfl | hq
    · simpa using fs.get_parent h
    · exact ih (fs.get_parent h) hq

/-! ### Resolution -/

/-- The node that the remaining components denote from a directory. -/
def walk : Path → Path → Except Exn Path
  | cur, [] => .ok cur
  | cur, c :: cs =>
    match fs.get cur with
    | some .dir =>
      if fs.tooLong c then .error .osError else walk (if c = up then cur.dropLast else cur ++ [c]) cs
    | some (.file _) => .error .notADirectoryError
    | none => .error .fileNotFoundError

/-- What a path denotes: Python refuses NUL, the system paths that are too long. -/
def resolve (p : Path) : Except Exn Path :=
  if p.any fun c => '\x00' ∈ c then .error (.valueError "embedded null character in path")
  else if pathMax ≤ size p then .error .osError
  else fs.walk [] p

theorem walk_eq_ok : ∀ {cs cur q : Path}, fs.walk cur cs = .ok q → q = cs.foldl child cur
  | [], _, _, h => (Except.ok.inj h).symm
  | c :: cs, cur, q, h => by
      rw [walk] at h
      split at h
      · split at h
        · exact nomatch h
        · exact (walk_eq_ok h : q = cs.foldl child (child cur c))
      · exact nomatch h
      · exact nomatch h

/-- Without links, what a path resolves to does not depend on the files. -/
theorem resolve_eq_ok {p q : Path} (h : fs.resolve p = .ok q) : q = normalize p := by
  rw [resolve] at h
  split at h
  · exact nomatch h
  · split at h
    · exact nomatch h
    · exact fs.walk_eq_ok h

/-- The system takes the path. -/
structure Accepts (p : Path) : Prop where
  nul : ∀ c ∈ p, '\x00' ∉ c
  size : size p < pathMax
  short : ∀ c ∈ p, fs.tooLong c = false

theorem walk_down : ∀ {q : Path} {p : Path} {c : Text}, fs.get (p ++ q) = some .dir → c ≠ up →
    up ∉ q → (∀ d ∈ q ++ [c], fs.tooLong d = false) → fs.walk p (q ++ [c]) = .ok (p ++ q ++ [c])
  | [], p, c, hp, hc, _, hshort => by
      rw [List.append_nil] at hp
      have hc' : fs.tooLong c = false := hshort c (by simp)
      simp only [List.nil_append, List.append_nil, walk, hp, hc', Bool.false_eq_true, if_false, if_neg hc]
  | d :: q, p, c, hp, hc, hq, hshort => by
      have hdir : fs.get p = some .dir := fs.get_ancestor hp (by simp)
      obtain ⟨hd, hq⟩ : up ≠ d ∧ up ∉ q := by simpa using hq
      obtain ⟨hd', hshort⟩ := List.forall_mem_cons.mp hshort
      have ih := walk_down (q := q) (p := p ++ [d]) (by simpa using hp) hc hq hshort
      simp only [List.cons_append, walk, hdir, hd', Bool.false_eq_true, if_false, if_neg (Ne.symm hd), ih]
      simp

/-- A name in a directory resolves to the child of that name, if the system takes the path. -/
theorem resolve_child {p : Path} {c : Text} (hp : fs.get p = some .dir) (hup : up ∉ p) (hc : c ≠ up)
    (haccepts : fs.Accepts (p ++ [c])) : fs.resolve (p ++ [c]) = .ok (p ++ [c]) := by
  have hnul : ¬(p ++ [c]).any (fun c => '\x00' ∈ c) = true := by
    rw [List.any_eq_true]
    rintro ⟨d, hd, hmem⟩
    exact haccepts.nul d hd (of_decide_eq_true hmem)
  rw [resolve, if_neg hnul, if_neg (Nat.not_le.mpr haccepts.size)]
  exact fs.walk_down (p := []) hp hc hup haccepts.short

theorem Accepts.congr {fs fs' : FileSystem} {p : Path} (h : fs.Accepts p) (htooLong : fs'.tooLong = fs.tooLong) :
    fs'.Accepts p := ⟨h.nul, h.size, fun c hc => by rw [htooLong, h.short c hc]⟩

/-- Short names are taken. -/
theorem accepts_of_short {p : Path} (h : ∀ c ∈ p, '\x00' ∉ c ∧ utf8Len c ≤ nameMax)
    (hsize : size p < pathMax) : fs.Accepts p where
  nul c hc := (h c hc).1
  size := hsize
  short c hc := fs.tooLong_short (h c hc).2

/-- The name of a file is taken in other directories as well. -/
theorem accepts_of_get {p q : Path} {c : Text} {n : Node} (h : fs.get (p ++ [c]) = some n)
    (hq : fs.Accepts q) (hsize : size q ≤ 1024) : fs.Accepts (q ++ [c]) := by
  obtain ⟨⟨hnul, hlen⟩, hshort⟩ := fs.stored h
  have hbytes := utf8Len_le c
  refine ⟨?_, ?_, ?_⟩
  · exact List.forall_mem_append.mpr ⟨hq.nul, List.forall_mem_singleton.mpr hnul⟩
  · rw [size_concat]
    simp only [nameMax, pathMax] at *
    omega
  · exact List.forall_mem_append.mpr ⟨hq.short, List.forall_mem_singleton.mpr hshort⟩

/-! ### `mkdir` -/

/-- A file can have the last name of the path. -/
def Stores (p : Path) : Prop := ∀ c ∈ p.getLast?, Storable c ∧ fs.tooLong c = false

instance (p : Path) : Decidable (fs.Stores p) :=
  inferInstanceAs (Decidable (∀ c ∈ p.getLast?, Storable c ∧ fs.tooLong c = false))

theorem stores_concat {p : Path} {c : Text} :
    fs.Stores (p ++ [c]) ↔ Storable c ∧ fs.tooLong c = false := by
  rw [Stores, List.getLast?_concat]
  exact ⟨fun h => h c rfl, fun h d hd => Option.some.inj hd ▸ h⟩

/-- A new or replaced node: the parent is a directory, and a directory stays one. -/
def put (p : Path) (n : Node) (hp : fs.get p.dropLast = some .dir) (hname : fs.Stores p)
    (hn : fs.get p ≠ some .dir ∨ n = .dir) : FileSystem where
  nodes := fs.nodes.set p n
  tooLong := fs.tooLong
  parent := by
    intro q c m h
    rw [Dict.get_set] at h ⊢
    have hdir : fs.nodes.get q = some .dir := by
      split at h
      · next he => rw [← he, List.dropLast_concat] at hp; exact hp
      · exact fs.parent h
    split
    · next he =>
      rcases hn with hn | hn
      · exact absurd (he ▸ hdir) hn
      · rw [hn]
    · exact hdir
  stored := by
    intro q c m h
    rw [Dict.get_set] at h
    split at h
    · next he => exact fs.stores_concat.mp (he ▸ hname)
    · exact fs.stored h
  tooLong_short := fs.tooLong_short

/-- `p.mkdir(exist_ok=True)` -/
def mkdir (p : Path) : Except Exn FileSystem :=
  match fs.resolve p with
  | .error e => .error e
  | .ok q =>
    match fs.get q with
    | some .dir => .ok fs
    | some (.file _) => .error .fileExistsError
    | none =>
      if hp : fs.get q.dropLast = some .dir then
        if hname : fs.Stores q then .ok (fs.put q .dir hp hname (.inr rfl)) else .error .osError
      else .error .fileNotFoundError

/-- In an existing directory, `mkdir` adds the directory if it is missing. -/
theorem mkdir_spec {p : Path} {c : Text} (hp : fs.get p = some .dir) (hup : up ∉ p) (hc : c ≠ up)
    (haccepts : fs.Accepts (p ++ [c])) (hstorable : Storable c)
    (hfile : ∀ content, fs.get (p ++ [c]) ≠ some (.file content)) :
    ∃ fs', fs.mkdir (p ++ [c]) = .ok fs' ∧ fs'.tooLong = fs.tooLong ∧
      ∀ q, fs'.get q = if q = p ++ [c] then some .dir else fs.get q := by
  rw [mkdir, fs.resolve_child hp hup hc haccepts]
  rcases hg : fs.get (p ++ [c]) with _ | content | _
  · have hname : fs.Stores (p ++ [c]) :=
      fs.stores_concat.mpr ⟨hstorable, haccepts.short c (by simp)⟩
    have hdir : fs.get (p ++ [c]).dropLast = some .dir := by rwa [List.dropLast_concat]
    refine ⟨fs.put (p ++ [c]) .dir hdir hname (.inr rfl), ?_, rfl, fun q => Dict.get_set ..⟩
    simp only [hg]
    rw [dif_pos hdir, dif_pos hname]
  · exact absurd hg (hfile content)
  · refine ⟨fs, by simp only [hg], rfl, fun q => ?_⟩
    split
    · next he => rw [he, hg]
    · rfl

/-! ### `copy` -/

/-- Why `s` cannot be copied to `d`, both resolved. -/
def copyError (s d : Path) : Option Exn :=
  if s <+: d then some .osError
  else match fs.get s, fs.get d with
    | none, _ => some .fileNotFoundError
    | some .dir, some _ => some .fileExistsError
    | some (.file _), some .dir => some .isADirectoryError
    | some .dir, none | some (.file _), none | some (.file _), some (.file _) =>
      if fs.get d.dropLast = some .dir then
        if fs.Stores d then none else some .osError
      else some .fileNotFoundError

/-- What is copied is put into a directory under a name a file can have, and neither replaces a
    directory nor, when it is one itself, anything else. -/
theorem copyError_eq_none {s d : Path} (h : fs.copyError s d = none) :
    (fs.get d.dropLast = some .dir ∧ fs.Stores d) ∧ fs.get d ≠ some .dir ∧
      (fs.get s = some .dir → fs.get d = none) := by
  have hplace : (if fs.get d.dropLast = some .dir then if fs.Stores d then none else some Exn.osError
      else some .fileNotFoundError) = none → fs.get d.dropLast = some .dir ∧ fs.Stores d := by
    intro h
    split at h
    · next hp =>
      split at h
      · next hname => exact ⟨hp, hname⟩
      · exact nomatch h
    · exact nomatch h
  unfold copyError at h
  split at h
  · exact nomatch h
  · rcases hs : fs.get s with _ | _ | _ <;> rcases hd : fs.get d with _ | _ | _ <;>
      simp_all

/-- The tree below `s` repeated below `d`, replacing what is there. -/
def graftNodes (s d : Path) : Dict Path Node :=
  fs.nodes.update (fs.nodes.items.filterMap fun e =>
    (if s <+: e.1 then some (d ++ e.1.drop s.length) else none).map fun q => (q, e.2))

theorem get_graftNodes (s d r : Path) :
    (fs.graftNodes s d).get (d ++ r) = (fs.get (s ++ r)).or (fs.get (d ++ r)) := by
  have hkey : ∀ p : Path, (if s <+: p then some (d ++ p.drop s.length) else none) = some (d ++ r)
      ↔ p = s ++ r := by
    intro p
    constructor
    · intro h
      split at h
      · next hs =>
        obtain ⟨t, rfl⟩ := hs
        simpa using h
      · exact absurd h (by simp)
    · rintro rfl
      rw [if_pos (List.prefix_append s r), List.drop_left]
  rw [graftNodes, Dict.get_update, lastWins_rename (g := fun _ => s ++ r) hkey, Dict.lastWins_items]
  rfl

theorem get_graftNodes_outside {s d p : Path} (h : ¬ d <+: p) :
    (fs.graftNodes s d).get p = fs.get p := by
  have hnone : lastWins (fs.nodes.items.filterMap fun e =>
      (if s <+: e.1 then some (d ++ e.1.drop s.length) else none).map fun q => (q, e.2)) p = none := by
    rw [← Option.not_isSome_iff_eq_none, lastWins_isSome]
    simp only [List.mem_map, List.mem_filterMap, not_exists, not_and]
    rintro ⟨q, n⟩ ⟨e, _, he⟩ rfl
    split at he
    · simp only [Option.map_some, Option.some.injEq, Prod.mk.injEq] at he
      exact h (he.1 ▸ List.prefix_append ..)
    · exact absurd he (by simp)
  rw [graftNodes, Dict.get_update, hnone, Option.none_or]
  rfl

def graft (s d : Path) (h : fs.copyError s d = none) : FileSystem where
  nodes := fs.graftNodes s d
  tooLong := fs.tooLong
  parent := by
    obtain ⟨⟨hp, -⟩, hd, hsd⟩ := fs.copyError_eq_none h
    intro q c n hget
    by_cases hq : d <+: q
    · obtain ⟨r, rfl⟩ := hq
      rw [List.append_assoc, get_graftNodes, Option.or_eq_some_iff] at hget
      rw [get_graftNodes]
      rcases hget with hget | ⟨-, hget⟩
      · rw [fs.get_parent (List.append_assoc s r [c] ▸ hget), Option.some_or]
      · exact absurd (fs.get_ancestor hget (by simp)) hd
    · rw [get_graftNodes_outside _ hq]
      by_cases hqc : d <+: q ++ [c]
      · rcases List.prefix_concat_iff.mp hqc with rfl | hqc
        · rwa [List.dropLast_concat] at hp
        · exact absurd hqc hq
      · rw [get_graftNodes_outside _ hqc] at hget
        exact fs.get_parent hget
  stored := by
    obtain ⟨⟨-, hname⟩, hd, -⟩ := fs.copyError_eq_none h
    intro q c n hget
    by_cases hqc : d <+: q ++ [c]
    · obtain ⟨r, hr⟩ := hqc
      rcases List.eq_nil_or_concat' r with rfl | ⟨r, c', rfl⟩
      · rw [List.append_nil] at hr
        exact fs.stores_concat.mp (hr ▸ hname)
      · have hc : c' = c := by
          rw [← List.append_assoc] at hr
          exact List.singleton_inj.mp (List.append_inj' hr rfl).2
        rw [← hr, get_graftNodes, Option.or_eq_some_iff] at hget
        rcases hget with hget | ⟨-, hget⟩
        · exact hc ▸ fs.stored (List.append_assoc s r [c'] ▸ hget)
        · exact hc ▸ fs.stored (List.append_assoc d r [c'] ▸ hget)
    · rw [get_graftNodes_outside _ hqc] at hget
      exact fs.stored hget
  tooLong_short := fs.tooLong_short

/-- `s.copy(d)` -/
def copy (s d : Path) : Except Exn FileSystem :=
  match fs.resolve s, fs.resolve d with
  | .error e, _ | .ok _, .error e => .error e
  | .ok s, .ok d =>
    match h : fs.copyError s d with
    | some e => .error e
    | none => .ok (fs.graft s d h)

/-- `s.copy_into(dir)` -/
def copyInto (s dir : Path) : Except Exn FileSystem :=
  match s.getLast? with
  | none => .error (.valueError "empty name")
  | some name => fs.copy s (dir ++ [name])

/-- A file copied into another directory, where no directory has its name. -/
theorem copyInto_spec {p dir : Path} {c : Text} {content : Bytes} (hp : fs.get p = some .dir)
    (hdir : fs.get dir = some .dir) (hpup : up ∉ p) (hdirup : up ∉ dir) (hc : c ≠ up) (hne : p ≠ dir)
    (haccepts : fs.Accepts (p ++ [c])) (haccepts' : fs.Accepts (dir ++ [c]))
    (hs : fs.get (p ++ [c]) = some (.file content)) (hd : fs.get (dir ++ [c]) ≠ some .dir) :
    ∃ fs', fs.copyInto (p ++ [c]) dir = .ok fs' ∧ fs'.tooLong = fs.tooLong ∧
      ∀ q, fs'.get q = if q = dir ++ [c] then some (.file content) else fs.get q := by
  have hnot : ¬ p ++ [c] <+: dir ++ [c] := by
    intro hpre
    rcases List.prefix_concat_iff.mp hpre with he | ⟨t, rfl⟩
    · exact hne (List.append_cancel_right he)
    · rcases eq_or_ne t [] with rfl | ht
      · rw [List.append_nil, hs] at hdir
        exact absurd hdir (by simp)
      · rw [fs.get_ancestor hdir ht] at hs
        exact absurd hs (by simp)
  have hname : fs.Stores (dir ++ [c]) := fs.stores_concat.mpr (fs.stored hs)
  have hnone : fs.copyError (p ++ [c]) (dir ++ [c]) = none := by
    rw [copyError, if_neg hnot, hs, List.dropLast_concat, hdir, if_pos rfl, if_pos hname]
    rcases hg : fs.get (dir ++ [c]) with _ | _ | _
    · rfl
    · rfl
    · exact absurd hg hd
  refine ⟨fs.graft _ _ hnone, ?_, rfl, fun q => ?_⟩
  · simp only [copyInto, List.getLast?_concat, copy, fs.resolve_child hp hpup hc haccepts,
      fs.resolve_child hdir hdirup hc haccepts']
    split
    · next h => rw [hnone] at h; exact absurd h (by simp)
    · rfl
  · change (fs.graftNodes _ _).get q = _
    by_cases hq : dir ++ [c] <+: q
    · obtain ⟨r, rfl⟩ := hq
      rw [get_graftNodes]
      rcases eq_or_ne r [] with rfl | hr
      · simp [hs]
      · have hsr : fs.get (p ++ [c] ++ r) = none := by
          rcases hg : fs.get (p ++ [c] ++ r) with _ | n
          · rfl
          · rw [fs.get_ancestor hg hr] at hs
            exact absurd hs (by simp)
        rw [hsr, Option.none_or, if_neg (by simpa using hr)]
    · rw [get_graftNodes_outside _ hq, if_neg (by rintro rfl; exact hq List.prefix_rfl)]

/-! ### `unlink` -/

/-- `p.unlink(missing_ok=True)`: only a missing file is ignored, not a path that is refused. -/
def unlink (p : Path) : Except Exn FileSystem :=
  match fs.resolve p with
  | .error .fileNotFoundError => .ok fs
  | .error e => .error e
  | .ok q =>
    match h : fs.get q with
    | none => .ok fs
    | some .dir => .error .isADirectoryError
    | some (.file _) => .ok {
        nodes := fs.nodes.erase q
        tooLong := fs.tooLong
        parent := by
          intro p c n hget
          rw [Dict.get_erase] at hget ⊢
          have hdir : fs.nodes.get p = some .dir := by
            split at hget
            · exact absurd hget (by simp)
            · exact fs.parent hget
          split
          · next he => rw [he, ← get, h] at hdir; exact absurd hdir (by simp)
          · exact hdir
        stored := by
          intro p c n hget
          rw [Dict.get_erase] at hget
          split at hget
          · exact absurd hget (by simp)
          · exact fs.stored hget
        tooLong_short := fs.tooLong_short }

/-- Of a file in a directory, or of nothing. -/
theorem unlink_spec {p : Path} {c : Text} (hp : fs.get p = some .dir) (hup : up ∉ p) (hc : c ≠ up)
    (haccepts : fs.Accepts (p ++ [c])) (hfile : fs.get (p ++ [c]) ≠ some .dir) :
    ∃ fs', fs.unlink (p ++ [c]) = .ok fs' ∧ fs'.tooLong = fs.tooLong ∧
      ∀ q, fs'.get q = if q = p ++ [c] then none else fs.get q := by
  simp only [unlink, fs.resolve_child hp hup hc haccepts]
  split
  · next hg =>
    refine ⟨fs, rfl, rfl, fun q => ?_⟩
    split
    · next he => rw [he, hg]
    · rfl
  · next hg => exact absurd hg hfile
  · exact ⟨_, rfl, rfl, fun q => Dict.get_erase ..⟩

/-! ### `glob` -/

/-- The names matching `*suffix` in a directory. -/
def glob (dir : Path) (suffix : Text) : List Text :=
  fs.nodes.keys.filterMap fun p =>
    match p.getLast? with
    | none => none
    | some name => if p.dropLast = dir ∧ endsWith name suffix then some name else none

theorem mem_glob {dir : Path} {suffix name : Text} :
    name ∈ fs.glob dir suffix ↔ (fs.get (dir ++ [name])).isSome ∧ endsWith name suffix := by
  simp only [glob, List.mem_filterMap, Dict.mem_keys]
  constructor
  · rintro ⟨p, hp, h⟩
    rcases hlast : p.getLast? with _ | last
    · rw [hlast] at h
      exact absurd h (by simp)
    · obtain ⟨parent, rfl⟩ := List.getLast?_eq_some_iff.mp hlast
      simp only [List.getLast?_concat, List.dropLast_concat] at h
      split at h
      · next hc =>
        obtain rfl : last = name := Option.some.inj h
        exact ⟨hc.1 ▸ hp, hc.2⟩
      · exact absurd h (by simp)
  · rintro ⟨hget, hsuffix⟩
    exact ⟨dir ++ [name], hget, by simp [hsuffix]⟩

/-! ### What the operations do to regular files -/

/-- The content of a regular file. -/
def file (p : Path) : Option Bytes :=
  match fs.get p with
  | some (.file content) => some content
  | _ => none

theorem file_eq_some {p : Path} {content : Bytes} :
    fs.file p = some content ↔ fs.get p = some (.file content) := by
  rw [file]
  split
  · next h => rw [h, Option.some.injEq, Option.some.injEq, Node.file.injEq]
  · next h => exact ⟨nofun, fun he => absurd he (h content)⟩

theorem file_congr {fs fs' : FileSystem} {p q : Path} (h : fs.get p = fs'.get q) :
    fs.file p = fs'.file q := by
  rw [file, file, h]

theorem file_dir {p : Path} (h : fs.get p = some .dir) : fs.file p = none := by
  rw [file, h]

theorem file_none {p : Path} (h : fs.get p = none) : fs.file p = none := by
  rw [file, h]

/-- `mkdir` leaves a directory and no other file. -/
theorem mkdir_eq_ok {p : Path} {fs' : FileSystem} (h : fs.mkdir p = .ok fs') :
    fs'.get (normalize p) = some .dir ∧ ∀ q, fs'.file q = fs.file q := by
  rw [mkdir] at h
  split at h
  · exact nomatch h
  · next q hq =>
    obtain rfl := fs.resolve_eq_ok hq
    split at h
    · next hdir =>
      obtain rfl := Except.ok.inj h
      exact ⟨hdir, fun _ => rfl⟩
    · exact nomatch h
    · next hnone =>
      split at h
      · next hp =>
        split at h
        · next hname =>
          obtain rfl := Except.ok.inj h
          have hget : ∀ q, (fs.put (normalize p) .dir hp hname (.inr rfl)).get q
              = if q = normalize p then some .dir else fs.get q := fun q => Dict.get_set ..
          refine ⟨by rw [hget, if_pos rfl], fun q => ?_⟩
          rcases eq_or_ne q (normalize p) with rfl | hne
          · rw [file_dir _ (by rw [hget, if_pos rfl]), file_none _ hnone]
          · exact file_congr (by rw [hget, if_neg hne])
        · exact nomatch h
      · exact nomatch h

theorem copy_eq_ok {s d : Path} {fs' : FileSystem} (h : fs.copy s d = .ok fs') :
    ∃ s' d', fs.resolve s = .ok s' ∧ fs.resolve d = .ok d' ∧
      ∃ hnone : fs.copyError s' d' = none, fs' = fs.graft s' d' hnone := by
  rw [copy] at h
  split at h
  · exact nomatch h
  · exact nomatch h
  · next s' d' hs hd =>
    split at h
    · exact nomatch h
    · next hnone => exact ⟨s', d', hs, hd, hnone, (Except.ok.inj h).symm⟩

/-- A copy changes the files that stand below its destination as the copied ones do below the source. -/
theorem graft_file {s d : Path} {h : fs.copyError s d = none} {q : Path}
    (hq : (fs.graft s d h).file q ≠ fs.file q) : ∃ r, q = d ++ r ∧ (fs.file (s ++ r)).isSome := by
  by_cases hd : d <+: q
  · obtain ⟨r, rfl⟩ := hd
    refine ⟨r, rfl, ?_⟩
    have hget : (fs.graft s d h).get (d ++ r) = (fs.get (s ++ r)).or (fs.get (d ++ r)) :=
      fs.get_graftNodes s d r
    rcases hs : fs.get (s ++ r) with _ | content | _
    · rw [hs, Option.none_or] at hget
      exact absurd (file_congr hget) hq
    · rw [(fs.file_eq_some).mpr hs]
      rfl
    · -- a directory is copied to where nothing is, so no file is lost below it
      rw [hs, Option.some_or] at hget
      refine absurd ?_ hq
      rw [file_dir _ hget]
      rcases hfile : fs.file (d ++ r) with _ | content
      · rfl
      · have hnew : fs.get d = none := (fs.copyError_eq_none h).2.2 <| by
          rcases eq_or_ne r [] with rfl | hr
          · rwa [List.append_nil] at hs
          · exact fs.get_ancestor hs hr
        rw [file_eq_some] at hfile
        rcases eq_or_ne r [] with rfl | hr
        · rw [List.append_nil, hnew] at hfile
          exact nomatch hfile
        · rw [fs.get_ancestor hfile hr] at hnew
          exact nomatch hnew
  · have hget : (fs.graft s d h).get q = fs.get q := fs.get_graftNodes_outside hd
    exact absurd (file_congr hget) hq

/-- `unlink` removes the regular file that the path denotes, or does nothing. -/
theorem unlink_eq_ok {p : Path} {fs' : FileSystem} (h : fs.unlink p = .ok fs') :
    fs' = fs ∨ ∃ q, fs.resolve p = .ok q ∧ (fs.file q).isSome ∧
      ∀ q', fs'.get q' = if q' = q then none else fs.get q' := by
  rw [unlink] at h
  split at h
  · exact .inl (Except.ok.inj h).symm
  · exact nomatch h
  · next q hq =>
    split at h
    · exact .inl (Except.ok.inj h).symm
    · exact nomatch h
    · next content hfile =>
      obtain rfl := Except.ok.inj h
      refine .inr ⟨q, hq, ?_, fun q' => Dict.get_erase ..⟩
      rw [(fs.file_eq_some).mpr hfile]
      rfl

end FileSystem

end Py
