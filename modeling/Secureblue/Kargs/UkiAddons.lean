import Secureblue.Py.FileSystem
import Secureblue.Py.Text
import Secureblue.Shell

/-! The privileged worker that sets kernel arguments on UKI systems (`inner/set_kargs_uki.py`).

    An argument is loaded by copying its addon from the image to `/boot/loader/addons`, and unloaded
    by deleting it there; the file name encodes the argument, `=` as `__`. The worker recovers the
    sets of available and loaded arguments from the file names. On addons named this way its request
    has the meaning of its set expression: the loaded arguments, with `add`, without `remove`
    (`main_loaded`). -/

namespace Kargs.Uki
open Py FileSystem

/-! ### The code -/

def loadedAddonsPath : Path := ["boot", "loader", "addons"]

def availAddonsPath : Path := ["usr", "share", "secureblue", "uki", "addons"]

def addonSuffix : Text := ".addon.efi"

/-- `karg_from_addon` -/
def kargFromAddon (addon : Text) : Except Exn Text :=
  if ¬ endsWith addon addonSuffix then
    .error (.valueError ("Filename must end with " ++ addonSuffix ++ "."))
  else
    let karg := replace addon "__" "="
    .ok (removeSuffix karg addonSuffix)

/-- `addon_from_karg` -/
def addonFromKarg (karg : Text) : Text := replace karg "=" "__" ++ addonSuffix

/-- A printed line: its text, and the arguments listed after it in the order of the set. -/
structure Message where
  text : Text
  kargs : Finset Text
  deriving DecidableEq

/-- What the worker acts on. -/
structure World where
  fs : FileSystem
  stdout : List Message

/-- A script that may raise; what it did until then stays. -/
abbrev Script := ExceptT Exn (StateM World)

namespace Script

def print (text : Text) (kargs : Finset Text) : Script Unit :=
  modify fun w => { w with stdout := w.stdout ++ [⟨text, kargs⟩] }

/-- An operation on the file system. -/
def onFs (op : FileSystem → Except Exn FileSystem) : Script Unit := do
  let w ← get
  let fs ← op w.fs
  set { w with fs }

/-- The outcome of a script, and the world it leaves. -/
def exec {α : Type} (m : Script α) (w : World) : Except Exn α × World := m.run.run w

end Script
open Kargs.Uki.Script

/-- `add_kargs` -/
def addKargs (kargs : List Text) : Script Unit := do
  onFs fun fs => fs.mkdir loadedAddonsPath
  let addons := kargs.map addonFromKarg
  forM addons fun addon => onFs fun fs => fs.copyInto (availAddonsPath.join addon) loadedAddonsPath

/-- `remove_kargs` -/
def removeKargs (kargs : List Text) : Script Unit := do
  let addons := kargs.map addonFromKarg
  forM addons fun addon => onFs fun fs => fs.unlink (loadedAddonsPath.join addon)

/-- The arguments of the addons in a directory. -/
def getKargs (dir : Path) : Script (Finset Text) := do
  let w ← get
  let kargs ← (w.fs.glob dir addonSuffix).mapM fun name => liftM (kargFromAddon name)
  return kargs.toFinset

/-- `get_avail_kargs` -/
def getAvailKargs : Script (Finset Text) := getKargs availAddonsPath

/-- `get_loaded_kargs` -/
def getLoadedKargs : Script (Finset Text) := getKargs loadedAddonsPath

/-- `SetKargs` -/
structure SetKargs where
  add : List Text
  remove : List Text
  deriving DecidableEq

/-- `main` on the request it reads; the result is the exit code. -/
def main (request : SetKargs) : Script ℕ := do
  let availKargs ← getAvailKargs
  let unavailKargs := request.add.toFinset \ availKargs
  if unavailKargs ≠ ∅ then
    print "No addon available for the kargs: " unavailKargs
    pure 1
  else
    addKargs request.add
    removeKargs request.remove
    let loadedKargs ← getLoadedKargs
    let kargsNotLoaded := (request.add.toFinset \ request.remove.toFinset) \ loadedKargs
    if kargsNotLoaded ≠ ∅ then
      print "The following kargs couldn't be loaded: " kargsNotLoaded
    let kargsNotRemoved := request.remove.toFinset ∩ loadedKargs
    if kargsNotRemoved ≠ ∅ then
      print "The following kargs couldn't be removed: " kargsNotRemoved
      pure 1
    else if kargsNotLoaded ≠ ∅ then pure 1
    else pure 0

/-! ### Running scripts -/

section
variable {α β : Type} {m : Script α} {f : α → Script β} {w w' : World} {a : α}

theorem exec_pure (a : α) (w : World) : exec (pure a) w = (.ok a, w) := rfl

theorem exec_bind (h : exec m w = (.ok a, w')) : exec (m >>= f) w = exec (f a) w' := by
  simp only [exec, ExceptT.run_bind, StateT.run_bind] at h ⊢
  rw [h]
  rfl

theorem exec_onFs {op : FileSystem → Except Exn FileSystem} {fs : FileSystem}
    (h : op w.fs = .ok fs) : exec (onFs op) w = (.ok (), { w with fs }) := by
  have hop : exec (liftM (op w.fs) : Script FileSystem) w = (.ok fs, w) := by rw [h]; rfl
  exact (exec_bind (m := get) rfl).trans (exec_bind hop)

/-- A loop of operations on the file system, each of which succeeds on what the ones before left:
    `P` relates the names gone through to the file system they led to. -/
theorem exec_loop {ι : Type} {op : ι → FileSystem → Except Exn FileSystem}
    {P : List ι → FileSystem → Prop} : ∀ {todo : List ι} (done : List ι) (w : World),
    (∀ i ∈ todo, ∀ done fs, P done fs → ∃ fs', op i fs = .ok fs' ∧ P (done ++ [i]) fs') →
    P done w.fs →
      ∃ fs', exec (forM todo fun i => onFs (op i)) w = (.ok (), { w with fs := fs' }) ∧
        P (done ++ todo) fs'
  | [], done, w, _, h => ⟨w.fs, rfl, by rwa [List.append_nil]⟩
  | i :: todo, done, w, hstep, h => by
      obtain ⟨fs₁, hop, h₁⟩ := hstep i List.mem_cons_self done w.fs h
      obtain ⟨fs', hrun, h'⟩ := exec_loop (done ++ [i]) { w with fs := fs₁ }
        (fun i hi => hstep i (List.mem_cons_of_mem _ hi)) h₁
      rw [List.append_assoc] at h'
      exact ⟨fs', (exec_bind (exec_onFs hop)).trans hrun, h'⟩

theorem exec_print (text : Text) (kargs : Finset Text) :
    exec (print text kargs) w = (.ok (), { w with stdout := w.stdout ++ [⟨text, kargs⟩] }) := rfl

end

/-! ### Arguments and file names -/

/-- The file name of an argument, without the suffix. -/
theorem addonFromKarg_cons (c : Char) (karg : Text) : addonFromKarg (c :: karg)
    = (if c = '=' then ['_', '_'] else [c]) ++ addonFromKarg karg := by
  simp only [addonFromKarg, show ("=" : String).toList = ['='] from rfl, replace_char,
    List.flatMap_cons, List.append_assoc]
  rfl

/-- Decoding a text that does not start with a pair of underscores passes over its first character. -/
theorem decode_cons {c : Char} {s : Text} (h : c = '_' → s.head? ≠ some '_') :
    replace (c :: s) "__" "=" = c :: replace s "__" "=" := by
  have hp : ("__" : Text).isPrefixOf (c :: s) = false := by
    rcases eq_or_ne c '_' with rfl | hc
    · cases s with
      | nil => rfl
      | cons d s =>
        have hd : d ≠ '_' := by simpa using h rfl
        simp [List.isPrefixOf, hd.symm]
    · simp [List.isPrefixOf, Ne.symm hc]
  rw [replace, replaceFrom, hp, if_neg Bool.false_ne_true, replace]

theorem decode_pair (s : Text) : replace ('_' :: '_' :: s) "__" "=" = '=' :: replace s "__" "=" := rfl

/-- The encodable arguments: file names without `/`, and no mark that decoding would misread. -/
structure Encodable (karg : Text) : Prop where
  ne_nil : karg ≠ []
  slash : '/' ∉ karg
  pair : ¬ ("__" : Text) <:+: karg
  mark : ¬ ("_=" : Text) <:+: karg

instance : DecidablePred Encodable := fun karg =>
  decidable_of_iff (karg ≠ [] ∧ '/' ∉ karg ∧ ¬ ("__" : Text) <:+: karg ∧ ¬ ("_=" : Text) <:+: karg)
    ⟨fun ⟨h₁, h₂, h₃, h₄⟩ => ⟨h₁, h₂, h₃, h₄⟩, fun h => ⟨h.ne_nil, h.slash, h.pair, h.mark⟩⟩

theorem decode_encode : ∀ {karg : Text}, ¬ ("__" : Text) <:+: karg → ¬ ("_=" : Text) <:+: karg →
    replace (addonFromKarg karg) "__" "=" = karg ++ addonSuffix
  | [], _, _ => by decide
  | c :: karg, hpair, hmark => by
      have ih := decode_encode (fun h => hpair (List.infix_cons h)) fun h => hmark (List.infix_cons h)
      rw [addonFromKarg_cons]
      rcases eq_or_ne c '=' with rfl | hc
      · rw [if_pos rfl, List.cons_append, List.singleton_append, decode_pair, ih, List.cons_append]
      · rw [if_neg hc, List.singleton_append, decode_cons, ih, List.cons_append]
        rintro rfl hhead
        cases karg with
        | nil => exact absurd hhead (by decide)
        | cons d karg =>
          rw [addonFromKarg_cons] at hhead
          rcases eq_or_ne d '=' with rfl | hd
          · exact hmark (List.prefix_append ("_=" : Text) karg).isInfix
          · rw [if_neg hd] at hhead
            obtain rfl : d = '_' := Option.some.inj hhead
            exact hpair (List.prefix_append ("__" : Text) karg).isInfix

/-- Arguments that are read back from their file names differ in them. -/
theorem addonFromKarg_inj {k k' : Text} (h : kargFromAddon (addonFromKarg k) = .ok k)
    (h' : kargFromAddon (addonFromKarg k') = .ok k') (he : addonFromKarg k = addonFromKarg k') :
    k = k' := by
  rw [he, h'] at h
  exact (Except.ok.inj h).symm

theorem decode_append : ∀ s : Text,
    replace (s ++ addonSuffix) "__" "=" = replace s "__" "=" ++ addonSuffix
  | [] => by decide
  | [c] => by
      rw [List.singleton_append, decode_cons fun _ => by decide, decode_cons fun _ => by decide]
      rfl
  | c :: d :: s => by
      rcases em (c = '_' ∧ d = '_') with ⟨rfl, rfl⟩ | hcd
      · rw [List.cons_append, List.cons_append, decode_pair, decode_pair, decode_append s,
          List.cons_append]
      · have hc : ∀ t : Text, c = '_' → (d :: t).head? ≠ some '_' := fun t hc hd =>
          hcd ⟨hc, Option.some.inj hd⟩
        refine (decode_cons (hc (s ++ addonSuffix))).trans ?_
        rw [decode_cons (hc s)]
        exact congrArg (c :: ·) (decode_append (d :: s))

/-- Encoding a decoded text without `=` gives it back. -/
theorem encode_decode : ∀ {s : Text}, '=' ∉ s →
    addonFromKarg (replace s "__" "=") = s ++ addonSuffix
  | [], _ => by decide
  | [c], h => by
      rw [decode_cons fun _ => by decide, addonFromKarg_cons, if_neg fun hc => h (by simp [hc])]
      rfl
  | c :: d :: s, h => by
      obtain ⟨hc, hs⟩ : '=' ≠ c ∧ '=' ∉ d :: s := by simpa using h
      rcases em (c = '_' ∧ d = '_') with ⟨rfl, rfl⟩ | hcd
      · rw [decode_pair, addonFromKarg_cons, if_pos rfl,
          encode_decode (s := s) fun h => hs (List.mem_cons_of_mem _ h)]
        rfl
      · have hhead : c = '_' → (d :: s).head? ≠ some '_' := fun hc hd =>
          hcd ⟨hc, Option.some.inj hd⟩
        rw [decode_cons hhead, addonFromKarg_cons, if_neg (Ne.symm hc), encode_decode hs]
        rfl

/-- The name of an addon without `=` is the one of its argument. -/
theorem addonFromKarg_kargFromAddon {name : Text} (hname : endsWith name addonSuffix)
    (heq : '=' ∉ name) : ∃ karg, kargFromAddon name = .ok karg ∧ addonFromKarg karg = name := by
  obtain ⟨s, rfl⟩ := endsWith_iff.mp hname
  refine ⟨replace s "__" "=", ?_, encode_decode fun h => heq (List.mem_append_left _ h)⟩
  rw [kargFromAddon, if_neg (not_not.mpr hname)]
  exact congrArg Except.ok (by rw [decode_append, removeSuffix_append])

/-! ### The arguments that are read back -/

/-- The directory in which `sign-uki-addons.sh` builds the addons. -/
def scriptDir : Text := "/addons/"

/-- `/addons/${filename}.addon.efi` with `filename="${addon//=/__}"` -/
def scriptOutput (addon : Text) : Text :=
  let filename := Shell.replaceAll addon (Shell.lit ['=']) ['_', '_']
  scriptDir ++ (filename ++ addonSuffix)

/-- Decoding a text without `=` leaves no pair of underscores, and none before `=`: the pairs are taken
    from the left, so that an underscore left over stands before another character. -/
theorem decode_plain : ∀ {s : Text}, '=' ∉ s →
    ¬ ("__" : Text) <:+: replace s "__" "=" ∧ ¬ ("_=" : Text) <:+: replace s "__" "="
  | [], _ => by decide
  | [c], _ => by
      rw [decode_cons fun _ => by decide]
      have hlen : ∀ {t : Text}, t.length = 2 → ¬ t <:+: c :: replace [] "__" "=" := by
        intro t ht hinfix
        have hle := hinfix.length_le
        rw [ht] at hle
        simp [replace, replaceFrom] at hle
      exact ⟨hlen rfl, hlen rfl⟩
  | c :: d :: s, h => by
      obtain ⟨hd, hs⟩ : '=' ≠ d ∧ '=' ∉ s := by
        have hds : '=' ∉ d :: s := fun hmem => h (List.mem_cons_of_mem c hmem)
        simpa using hds
      rcases em (c = '_' ∧ d = '_') with ⟨rfl, rfl⟩ | hcd
      · obtain ⟨hpair, hmark⟩ := decode_plain hs
        rw [decode_pair]
        constructor
        · intro hinfix
          refine hpair ((List.infix_cons_iff.mp hinfix).resolve_left fun hfront => ?_)
          exact absurd (List.cons_prefix_cons.mp hfront).1 (by decide)
        · intro hinfix
          refine hmark ((List.infix_cons_iff.mp hinfix).resolve_left fun hfront => ?_)
          exact absurd (List.cons_prefix_cons.mp hfront).1 (by decide)
      · obtain ⟨hpair, hmark⟩ := decode_plain (s := d :: s) fun hmem => h (List.mem_cons_of_mem c hmem)
        have hhead : c = '_' → (d :: s).head? ≠ some '_' := fun hc hd =>
          hcd ⟨hc, Option.some.inj hd⟩
        rw [decode_cons hhead]
        -- an underscore that is kept has another character behind it
        have hfront : ∀ e : Char, e = '_' ∨ e = '=' →
            ¬ ['_', e] <+: c :: replace (d :: s) "__" "=" := by
          intro e he hprefix
          obtain ⟨hc, hprefix⟩ := List.cons_prefix_cons.mp hprefix
          have hd' : d ≠ '_' := fun hd' => hcd ⟨hc.symm, hd'⟩
          rw [decode_cons fun hd'' => absurd hd'' hd'] at hprefix
          obtain ⟨hed, -⟩ := List.cons_prefix_cons.mp hprefix
          rcases he with rfl | rfl
          · exact hd' hed.symm
          · exact hd hed
        constructor
        · intro hinfix
          exact hpair ((List.infix_cons_iff.mp hinfix).resolve_left (hfront '_' (.inl rfl)))
        · intro hinfix
          exact hmark ((List.infix_cons_iff.mp hinfix).resolve_left (hfront '=' (.inr rfl)))

theorem not_mem_encode (karg : Text) : '=' ∉ replace karg "=" "__" := by
  rw [show ("=" : String).toList = ['='] from rfl, replace_char, List.mem_flatMap]
  rintro ⟨c, -, hmem⟩
  split at hmem
  · simp at hmem
  · next hc => exact hc (List.mem_singleton.mp hmem).symm

/-- Reading a file name back, with the suffix out of the way. -/
theorem kargFromAddon_encode (karg : Text) :
    kargFromAddon (addonFromKarg karg) = .ok (replace (replace karg "=" "__") "__" "=") := by
  have hends : endsWith (addonFromKarg karg) addonSuffix := endsWith_iff.mpr (List.suffix_append ..)
  rw [kargFromAddon, if_neg (not_not.mpr hends), addonFromKarg, decode_append]
  exact congrArg Except.ok (removeSuffix_append _ _)

/-- Neither of the marks that decoding would misread. -/
def Plain (karg : Text) : Prop := ¬ ("__" : Text) <:+: karg ∧ ¬ ("_=" : Text) <:+: karg

theorem kargFromAddon_iff (karg : Text) :
    kargFromAddon (addonFromKarg karg) = .ok karg ↔ Plain karg := by
  rw [kargFromAddon_encode, Except.ok.injEq]
  constructor
  · intro h
    rw [← h]
    exact decode_plain (not_mem_encode karg)
  · rintro ⟨hpair, hmark⟩
    have hdecode := decode_encode hpair hmark
    rw [addonFromKarg, decode_append] at hdecode
    exact List.append_cancel_right hdecode

theorem kargFromAddon_addonFromKarg {karg : Text} (h : Encodable karg) :
    kargFromAddon (addonFromKarg karg) = .ok karg := (kargFromAddon_iff karg).mpr ⟨h.pair, h.mark⟩

theorem replaceAll_eq (addon : Text) :
    Shell.replaceAll addon (Shell.lit ['=']) ['_', '_'] = replace addon "=" "__" := by
  rw [Shell.replaceAll_char]
  exact (replace_char '=' "__" addon).symm

theorem scriptOutput_eq (addon : Text) : scriptOutput addon = scriptDir ++ addonFromKarg addon := by
  rw [scriptOutput, addonFromKarg, replaceAll_eq]

/-- CORRECT: an argument is read back from the name of its addon if and only if it contains neither mark,
    so that no two such arguments share an addon; a name without `=` is the one of the argument read
    from it; and the script names the addons the same way. -/
theorem addon_encoding :
    (∀ karg, kargFromAddon (addonFromKarg karg) = .ok karg ↔ Plain karg) ∧
    (∀ k k', Plain k → Plain k' → addonFromKarg k = addonFromKarg k' → k = k') ∧
    (∀ name, endsWith name addonSuffix → '=' ∉ name →
      ∃ karg, kargFromAddon name = .ok karg ∧ addonFromKarg karg = name) ∧
    ∀ addon, scriptOutput addon = scriptDir ++ addonFromKarg addon := by
  refine ⟨kargFromAddon_iff, ?_, ?_, scriptOutput_eq⟩
  · intro k k' h h' heq
    exact addonFromKarg_inj ((kargFromAddon_iff k).mpr h) ((kargFromAddon_iff k').mpr h') heq
  · intro name hends heq
    exact addonFromKarg_kargFromAddon hends heq

example : kargFromAddon (addonFromKarg "a_=b") = .ok "a=_b" := by decide

/-! ### The directories -/

/-- The addon files of a directory are regular files without `=` in their names. -/
def AddonDir (fs : FileSystem) (dir : Path) : Prop :=
  ∀ name node, fs.get (dir ++ [name]) = some node → endsWith name addonSuffix →
    '=' ∉ name ∧ ∃ content, node = .file content

/-- The addon of an argument in a directory. -/
def addonIn (dir : Path) (karg : Text) : Path := dir ++ [addonFromKarg karg]

/-- The arguments whose addons are in a directory. -/
def kargsIn (fs : FileSystem) (dir : Path) : Set Text :=
  {karg | ∃ name, (fs.get (dir ++ [name])).isSome ∧ kargFromAddon name = .ok karg}

theorem endsWith_of_kargFromAddon {name karg : Text} (h : kargFromAddon name = .ok karg) :
    endsWith name addonSuffix := by
  by_contra hn
  rw [kargFromAddon, if_pos hn] at h
  exact nomatch h

theorem mem_kargsIn {fs : FileSystem} {dir : Path} (h : AddonDir fs dir) {karg : Text} :
    karg ∈ kargsIn fs dir ↔ kargFromAddon (addonFromKarg karg) = .ok karg ∧
      (fs.get (addonIn dir karg)).isSome := by
  constructor
  · rintro ⟨name, hget, hkarg⟩
    obtain ⟨node, hnode⟩ := Option.isSome_iff_exists.mp hget
    have hends := endsWith_of_kargFromAddon hkarg
    obtain ⟨karg', hkarg', hname⟩ := addonFromKarg_kargFromAddon hends (h name node hnode hends).1
    obtain rfl : karg' = karg := Except.ok.inj (hkarg'.symm.trans hkarg)
    rw [addonIn, hname]
    exact ⟨hkarg, hget⟩
  · exact fun ⟨hkarg, hget⟩ => ⟨_, hget, hkarg⟩

/-- The worker's view of a directory: no file name makes it raise. -/
theorem exec_getKargs (dir : Path) (w : World) :
    ∃ kargs, exec (getKargs dir) w = (.ok kargs, w) ∧ ∀ k, k ∈ kargs ↔ k ∈ kargsIn w.fs dir := by
  have hall : ∀ name ∈ w.fs.glob dir addonSuffix, ∃ k, kargFromAddon name = .ok k := by
    intro name hname
    rw [kargFromAddon, if_neg (not_not.mpr (mem_glob _ |>.mp hname).2)]
    exact ⟨_, rfl⟩
  have hmap : ∀ names : List Text, (∀ name ∈ names, ∃ k, kargFromAddon name = .ok k) →
      ∃ kargs, exec (names.mapM fun name => (liftM (kargFromAddon name) : Script Text)) w
        = (.ok kargs, w) ∧ ∀ k, k ∈ kargs ↔ ∃ name ∈ names, kargFromAddon name = .ok k := by
    intro names
    induction names with
    | nil => exact fun _ => ⟨[], rfl, by simp⟩
    | cons name names ih =>
      intro h
      obtain ⟨k, hk⟩ := h name List.mem_cons_self
      obtain ⟨ks, hks, hmem⟩ := ih fun n hn => h n (List.mem_cons_of_mem _ hn)
      have hname : exec (liftM (kargFromAddon name) : Script Text) w = (.ok k, w) := by rw [hk]; rfl
      refine ⟨k :: ks, ?_, fun k' => ?_⟩
      · rw [List.mapM_cons, exec_bind hname, exec_bind hks, exec_pure]
      · simp [hmem, hk, eq_comm]
  obtain ⟨kargs, hkargs, hmem⟩ := hmap _ hall
  refine ⟨kargs.toFinset, ?_, fun k => ?_⟩
  · exact (exec_bind (m := get) rfl).trans ((exec_bind hkargs).trans (exec_pure _ _))
  · rw [List.mem_toFinset, hmem]
    constructor
    · rintro ⟨name, hname, hk⟩
      exact ⟨name, ((mem_glob _).mp hname).1, hk⟩
    · rintro ⟨name, hget, hk⟩
      exact ⟨name, (mem_glob _).mpr ⟨hget, endsWith_of_kargFromAddon hk⟩, hk⟩

/-- The directories in a state in which the file operations succeed. -/
structure Ready (fs : FileSystem) : Prop where
  loader : fs.get ["boot", "loader"] = some .dir
  addons : ∀ content, fs.get loadedAddonsPath ≠ some (.file content)
  loaded : AddonDir fs loadedAddonsPath
  avail : AddonDir fs availAddonsPath

theorem slash_not_mem : ∀ {k : Text}, '/' ∉ k → '/' ∉ addonFromKarg k
  | [], _ => by decide
  | c :: k, h => by
      obtain ⟨hc, hk⟩ : '/' ≠ c ∧ '/' ∉ k := by simpa using h
      rw [addonFromKarg_cons, List.mem_append]
      rintro (hmem | hmem)
      · split at hmem
        · exact absurd hmem (by decide)
        · exact hc (List.mem_singleton.mp hmem)
      · exact slash_not_mem hk hmem

/-- A file name is longer than `.` and `..`. -/
theorem addonFromKarg_ne (k : Text) {t : Text} (ht : t.length < 10) : addonFromKarg k ≠ t := by
  rintro rfl
  rw [addonFromKarg, List.length_append] at ht
  exact absurd ht (Nat.not_lt.mpr (Nat.le_add_left ..))

theorem join_addon (dir : Path) {k : Text} (h : Encodable k) :
    dir.join (addonFromKarg k) = addonIn dir k :=
  Path.join_name dir (slash_not_mem h.slash) (addonFromKarg_ne k (by decide))
    (addonFromKarg_ne k (by decide))

theorem addonIn_inj {dir : Path} {k k' : Text} (h : kargFromAddon (addonFromKarg k) = .ok k)
    (h' : kargFromAddon (addonFromKarg k') = .ok k') (he : addonIn dir k = addonIn dir k') : k = k' :=
  addonFromKarg_inj h h' (List.singleton_inj.mp (List.append_cancel_left he))

/-- The system takes the directories of the addons, and the name of an addon in both. -/
theorem accepts_addon {fs : FileSystem} {k : Text} {node : Node}
    (h : fs.get (addonIn availAddonsPath k) = some node) :
    fs.Accepts (addonIn availAddonsPath k) ∧ fs.Accepts (addonIn loadedAddonsPath k) :=
  ⟨fs.accepts_of_get h (fs.accepts_of_short (by decide +kernel) (by decide +kernel)) (by decide +kernel),
    fs.accepts_of_get h (fs.accepts_of_short (by decide +kernel) (by decide +kernel)) (by decide +kernel)⟩

/-- A path of the available addons is none of the loaded directory. -/
theorem avail_ne (name name' : Text) : availAddonsPath ++ [name] ≠ loadedAddonsPath ++ [name'] ∧
    availAddonsPath ++ [name] ≠ loadedAddonsPath := by
  constructor
  · exact fun h => absurd (congrArg List.length h) (by simp [availAddonsPath, loadedAddonsPath])
  · exact fun h => absurd (congrArg List.length h) (by simp [availAddonsPath, loadedAddonsPath])

theorem addonIn_ne (dir : Path) (k : Text) : addonIn dir k ≠ dir := fun h =>
  absurd (congrArg List.length h) (by simp [addonIn])

/-- After adding: the addons of `ks` are those of the image, nothing else changed. -/
structure Added (ks : List Text) (fs fs' : FileSystem) : Prop where
  dir : fs'.get loadedAddonsPath = some .dir
  added : ∀ k ∈ ks, fs'.get (addonIn loadedAddonsPath k) = fs.get (addonIn availAddonsPath k)
  others : ∀ q, q ≠ loadedAddonsPath → (∀ k ∈ ks, q ≠ addonIn loadedAddonsPath k) →
    fs'.get q = fs.get q
  tooLong : fs'.tooLong = fs.tooLong

/-- After removing: the addons of `ks` are gone, nothing else changed. -/
structure Removed (ks : List Text) (fs fs' : FileSystem) : Prop where
  removed : ∀ k ∈ ks, fs'.get (addonIn loadedAddonsPath k) = none
  others : ∀ q, (∀ k ∈ ks, q ≠ addonIn loadedAddonsPath k) → fs'.get q = fs.get q
  tooLong : fs'.tooLong = fs.tooLong

theorem addonIn_eq_iff {dir dir' : Path} {k k' : Text} :
    addonIn dir k = addonIn dir k' ↔ addonIn dir' k = addonIn dir' k' := by
  simp only [addonIn, List.append_cancel_left_eq]

/-- An addon of an argument, where there is one, is a regular file. -/
theorem AddonDir.file {fs : FileSystem} {dir : Path} (h : AddonDir fs dir) {k : Text} :
    fs.get (addonIn dir k) ≠ some .dir := by
  intro hk
  obtain ⟨-, content, hc⟩ := h _ _ hk (endsWith_iff.mpr (List.suffix_append ..))
  exact nomatch hc

/-- One pass of the copying loop. -/
theorem copyInto_step {fs₀ fs : FileSystem} (h₀ : Ready fs₀) {k : Text} (hk : Encodable k)
    (havail : (fs₀.get (addonIn availAddonsPath k)).isSome) {done : List Text}
    (h : Added done fs₀ fs) :
    ∃ fs', fs.copyInto (availAddonsPath.join (addonFromKarg k)) loadedAddonsPath = .ok fs' ∧
      Added (done ++ [k]) fs₀ fs' := by
  have hsrc : fs.get (addonIn availAddonsPath k) = fs₀.get (addonIn availAddonsPath k) :=
    h.others _ (avail_ne _ []).2 fun k' _ => (avail_ne _ _).1
  obtain ⟨node, hnode⟩ := Option.isSome_iff_exists.mp havail
  obtain ⟨-, content, rfl⟩ := h₀.avail _ _ hnode (endsWith_iff.mpr (List.suffix_append ..))
  have hdst : fs.get (addonIn loadedAddonsPath k) ≠ some .dir := by
    rcases em (∃ k' ∈ done, addonIn loadedAddonsPath k = addonIn loadedAddonsPath k') with
      ⟨k', hk', he⟩ | hnew
    · rw [he, h.added k' hk', ← addonIn_eq_iff.mp he]
      exact h₀.avail.file
    · rw [h.others _ (addonIn_ne _ _) fun k' hk' he => hnew ⟨k', hk', he⟩]
      exact h₀.loaded.file
  rw [join_addon _ hk]
  rw [← hsrc] at hnode
  obtain ⟨haccepts, haccepts'⟩ := accepts_addon hnode
  obtain ⟨fs', hcopy, htooLong, hget⟩ := fs.copyInto_spec (fs.get_parent hnode) h.dir (by decide) (by decide)
    (addonFromKarg_ne k (by decide)) (by decide) haccepts haccepts' hnode hdst
  change ∀ q, fs'.get q = if q = addonIn loadedAddonsPath k then _ else fs.get q at hget
  refine ⟨fs', hcopy, ⟨?_, ?_, ?_, htooLong.trans h.tooLong⟩⟩
  · rw [hget, if_neg (addonIn_ne _ _).symm, h.dir]
  · intro k' hk'
    rw [hget]
    split
    · next he =>
      rw [← hnode, hsrc]
      exact congrArg fs₀.get (addonIn_eq_iff.mp he.symm)
    · next hne =>
      rcases List.mem_append.mp hk' with hk' | hk'
      · exact h.added k' hk'
      · exact absurd (by rw [List.mem_singleton.mp hk']) hne
  · intro q hq hne
    rw [hget, if_neg (hne k (by simp))]
    exact h.others q hq fun k' hk' => hne k' (List.mem_append_left _ hk')

/-- `add_kargs` with an addon for each argument. -/
theorem exec_addKargs {w : World} (hw : Ready w.fs) {ks : List Text}
    (hks : ∀ k ∈ ks, Encodable k ∧ (w.fs.get (addonIn availAddonsPath k)).isSome) :
    ∃ fs', exec (addKargs ks) w = (.ok (), { w with fs := fs' }) ∧ Added ks w.fs fs' := by
  obtain ⟨fs₁, hmkdir, htooLong, hget⟩ := w.fs.mkdir_spec hw.loader (by decide) (by decide)
    (w.fs.accepts_of_short (by decide +kernel) (by decide +kernel)) (by decide) hw.addons
  change ∀ q, fs₁.get q = if q = loadedAddonsPath then _ else w.fs.get q at hget
  have h₁ : Added [] w.fs fs₁ :=
    ⟨by rw [hget, if_pos rfl], nofun, fun q hq _ => by rw [hget, if_neg hq], htooLong⟩
  obtain ⟨fs', hrun, h'⟩ := exec_loop (P := fun done => Added done w.fs) [] { w with fs := fs₁ }
    (fun k hk done fs h => copyInto_step hw (hks k hk).1 (hks k hk).2 h) h₁
  rw [← List.forM_map (g := addonFromKarg) (f := fun addon =>
    onFs fun fs => fs.copyInto (availAddonsPath.join addon) loadedAddonsPath)] at hrun
  exact ⟨fs', (exec_bind (exec_onFs hmkdir)).trans hrun, h'⟩

/-- One pass of the deleting loop. -/
theorem unlink_step {fs₀ fs : FileSystem} (hdir : fs₀.get loadedAddonsPath = some .dir)
    (h₀ : AddonDir fs₀ loadedAddonsPath) {k : Text} (hk : Encodable k)
    (haccepts : fs₀.Accepts (addonIn loadedAddonsPath k)) {done : List Text} (h : Removed done fs₀ fs) :
    ∃ fs', fs.unlink (loadedAddonsPath.join (addonFromKarg k)) = .ok fs' ∧
      Removed (done ++ [k]) fs₀ fs' := by
  have hdir' : fs.get loadedAddonsPath = some .dir := by
    rw [h.others _ fun k' _ => (addonIn_ne _ k').symm, hdir]
  have hfile : fs.get (addonIn loadedAddonsPath k) ≠ some .dir := by
    rcases em (∃ k' ∈ done, addonIn loadedAddonsPath k = addonIn loadedAddonsPath k') with
      ⟨k', hk', he⟩ | hnew
    · rw [he, h.removed k' hk']
      exact nofun
    · rw [h.others _ fun k' hk' he => hnew ⟨k', hk', he⟩]
      exact h₀.file
  rw [join_addon _ hk]
  obtain ⟨fs', hunlink, htooLong, hget⟩ := fs.unlink_spec hdir' (by decide)
    (addonFromKarg_ne k (by decide)) (haccepts.congr h.tooLong) hfile
  change ∀ q, fs'.get q = if q = addonIn loadedAddonsPath k then _ else fs.get q at hget
  refine ⟨fs', hunlink, ⟨?_, ?_, htooLong.trans h.tooLong⟩⟩
  · intro k' hk'
    rw [hget]
    split
    · rfl
    · next hne =>
      rcases List.mem_append.mp hk' with hk' | hk'
      · exact h.removed k' hk'
      · exact absurd (by rw [List.mem_singleton.mp hk']) hne
  · intro q hne
    rw [hget, if_neg (hne k (by simp))]
    exact h.others q fun k' hk' => hne k' (List.mem_append_left _ hk')

/-- `remove_kargs` -/
theorem exec_removeKargs {w : World} (hdir : w.fs.get loadedAddonsPath = some .dir)
    (h₀ : AddonDir w.fs loadedAddonsPath) {ks : List Text} (hks : ∀ k ∈ ks, Encodable k)
    (haccepts : ∀ k ∈ ks, w.fs.Accepts (addonIn loadedAddonsPath k)) :
    ∃ fs', exec (removeKargs ks) w = (.ok (), { w with fs := fs' }) ∧ Removed ks w.fs fs' := by
  obtain ⟨fs', hrun, h'⟩ := exec_loop (P := fun done => Removed done w.fs) [] w
    (fun k hk done fs h => unlink_step hdir h₀ (hks k hk) (haccepts k hk) h) ⟨nofun, fun _ _ => rfl, rfl⟩
  refine ⟨fs', ?_, h'⟩
  rw [removeKargs, List.forM_map]
  exact hrun

/-! ### The request -/

theorem Added.ready {ks : List Text} {fs fs' : FileSystem} (h : Ready fs) (h' : Added ks fs fs') :
    Ready fs' where
  loader := fs'.get_parent (c := "addons") h'.dir
  addons content := by
    rw [h'.dir]
    exact nofun
  loaded name node hnode hname := by
    rcases em (∃ k ∈ ks, loadedAddonsPath ++ [name] = addonIn loadedAddonsPath k) with
      ⟨k, hk, he⟩ | hother
    · rw [he, h'.added k hk] at hnode
      obtain rfl : name = addonFromKarg k := List.singleton_inj.mp (List.append_cancel_left he)
      exact h.avail _ _ hnode hname
    · rw [h'.others _ (by simp) fun k hk he => hother ⟨k, hk, he⟩] at hnode
      exact h.loaded _ _ hnode hname
  avail name node hnode hname := by
    rw [h'.others _ (avail_ne name []).2 fun k _ => (avail_ne _ _).1] at hnode
    exact h.avail _ _ hnode hname

theorem Removed.ready {ks : List Text} {fs fs' : FileSystem} (h : Ready fs) (h' : Removed ks fs fs') :
    Ready fs' where
  loader := by
    rw [h'.others _ fun k _ he => absurd (congrArg List.length he) (by simp [addonIn, loadedAddonsPath])]
    exact h.loader
  addons content := by
    rw [h'.others _ fun k _ => (addonIn_ne _ k).symm]
    exact h.addons content
  loaded name node hnode hname := by
    rcases em (∃ k ∈ ks, loadedAddonsPath ++ [name] = addonIn loadedAddonsPath k) with
      ⟨k, hk, he⟩ | hother
    · rw [he, h'.removed k hk] at hnode
      exact nomatch hnode
    · rw [h'.others _ fun k hk he => hother ⟨k, hk, he⟩] at hnode
      exact h.loaded _ _ hnode hname
  avail name node hnode hname := by
    rw [h'.others _ fun k _ => (avail_ne _ _).1] at hnode
    exact h.avail _ _ hnode hname

/-- A request carried out. -/
def Applied (request : SetKargs) (fs fs' : FileSystem) : Prop :=
  ∃ mid, Added request.add fs mid ∧ Removed request.remove mid fs'

theorem Applied.ready {request : SetKargs} {fs fs' : FileSystem} (h : Ready fs) :
    Applied request fs fs' → Ready fs'
  | ⟨_, hadd, hremove⟩ => hremove.ready (hadd.ready h)

theorem Applied.tooLong {request : SetKargs} {fs fs' : FileSystem} :
    Applied request fs fs' → fs'.tooLong = fs.tooLong
  | ⟨_, hadd, hremove⟩ => hremove.tooLong.trans hadd.tooLong

/-- Every other path is untouched. -/
theorem Applied.others {request : SetKargs} {fs fs' : FileSystem} (h : Applied request fs fs')
    (q : Path) (hq : q ≠ loadedAddonsPath)
    (hne : ∀ k ∈ request.add ++ request.remove, q ≠ addonIn loadedAddonsPath k) :
    fs'.get q = fs.get q := by
  obtain ⟨mid, hadded, hremoved⟩ := h
  rw [hremoved.others q fun k hk => hne k (List.mem_append_right _ hk),
    hadded.others q hq fun k hk => hne k (List.mem_append_left _ hk)]

/-- The addon of an argument outside the lists is untouched. -/
theorem addonIn_not_mem {dir : Path} {k : Text} (hk : kargFromAddon (addonFromKarg k) = .ok k)
    {ks : List Text} (hks : ∀ k ∈ ks, Encodable k) (hnot : k ∉ ks) :
    ∀ k' ∈ ks, addonIn dir k ≠ addonIn dir k' := fun k' hk' he =>
  hnot (addonIn_inj hk (kargFromAddon_addonFromKarg (hks k' hk')) he ▸ hk')

/-- The loaded arguments afterwards. -/
theorem Applied.kargsIn {request : SetKargs} {fs fs' : FileSystem} (h : Ready fs)
    (hadd : ∀ k ∈ request.add, Encodable k ∧ (fs.get (addonIn availAddonsPath k)).isSome)
    (hremove : ∀ k ∈ request.remove, Encodable k) (h' : Applied request fs fs') :
    kargsIn fs' loadedAddonsPath
      = (kargsIn fs loadedAddonsPath ∪ {k | k ∈ request.add}) \ {k | k ∈ request.remove} := by
  have hready := h'.ready h
  obtain ⟨mid, hadded, hremoved⟩ := h'
  ext k
  rw [Set.mem_sdiff, Set.mem_union, Set.mem_ofPred_eq, Set.mem_ofPred_eq, mem_kargsIn hready.loaded,
    mem_kargsIn h.loaded]
  constructor
  · rintro ⟨hk, hget⟩
    have hnot : k ∉ request.remove := by
      intro hr
      rw [hremoved.removed k hr] at hget
      exact absurd hget (by simp)
    rw [hremoved.others _ (addonIn_not_mem hk hremove hnot)] at hget
    refine ⟨?_, hnot⟩
    rcases em (k ∈ request.add) with ha | ha
    · exact .inr ha
    · rw [hadded.others _ (addonIn_ne _ _) (addonIn_not_mem hk (fun k hk => (hadd k hk).1) ha)] at hget
      exact .inl ⟨hk, hget⟩
  · rintro ⟨hor, hnot⟩
    have hk : kargFromAddon (addonFromKarg k) = .ok k :=
      hor.elim And.left fun ha => kargFromAddon_addonFromKarg (hadd k ha).1
    refine ⟨hk, ?_⟩
    rw [hremoved.others _ (addonIn_not_mem hk hremove hnot)]
    rcases em (k ∈ request.add) with ha | ha
    · rw [hadded.added k ha]
      exact (hadd k ha).2
    · rw [hadded.others _ (addonIn_ne _ _) (addonIn_not_mem hk (fun k hk => (hadd k hk).1) ha)]
      exact (hor.resolve_right ha).2

/-- The available addons stay as they are. -/
theorem Applied.avail {request : SetKargs} {fs fs' : FileSystem} (h : Applied request fs fs')
    (name : Text) : fs'.get (availAddonsPath ++ [name]) = fs.get (availAddonsPath ++ [name]) :=
  h.others _ (avail_ne name []).2 fun _ _ => (avail_ne _ _).1

/-- Carried out once more, a request changes nothing. -/
theorem Applied.again {request : SetKargs} {fs fs' fs'' : FileSystem}
    (h : Applied request fs fs') (h' : Applied request fs' fs'') (q : Path) : fs''.get q = fs'.get q := by
  have havail := h.avail
  obtain ⟨mid, hadded, hremoved⟩ := h
  obtain ⟨mid', hadded', hremoved'⟩ := h'
  rcases em (∃ k ∈ request.remove, q = addonIn loadedAddonsPath k) with ⟨k, hk, rfl⟩ | hr
  · rw [hremoved'.removed k hk, hremoved.removed k hk]
  have hr' : ∀ k ∈ request.remove, q ≠ addonIn loadedAddonsPath k := fun k hk he => hr ⟨k, hk, he⟩
  rcases em (∃ k ∈ request.add, q = addonIn loadedAddonsPath k) with ⟨k, hk, rfl⟩ | ha
  · rw [hremoved'.others _ hr', hadded'.added k hk, hremoved.others _ hr', hadded.added k hk]
    exact havail _
  rw [hremoved'.others _ hr']
  rcases eq_or_ne q loadedAddonsPath with rfl | hq
  · rw [hadded'.dir, hremoved.others _ hr', hadded.dir]
  · exact hadded'.others _ hq fun k hk he => ha ⟨k, hk, he⟩

/-- `main` without an addon for each argument to add. -/
theorem exec_main_unavailable {request : SetKargs} {w : World}
    (h : ¬ ∀ k ∈ request.add, k ∈ kargsIn w.fs availAddonsPath) :
    ∃ stdout, exec (main request) w = (.ok 1, { w with stdout := stdout }) := by
  obtain ⟨avail, havail, hmem⟩ := exec_getKargs availAddonsPath w
  have hne : request.add.toFinset \ avail ≠ ∅ := by
    intro he
    refine h fun k hk => (hmem k).mp ?_
    exact Finset.sdiff_eq_empty_iff_subset.mp he (List.mem_toFinset.mpr hk)
  refine ⟨w.stdout ++ [⟨"No addon available for the kargs: ", request.add.toFinset \ avail⟩],
    (exec_bind havail).trans ?_⟩
  dsimp only
  rw [if_pos hne]
  exact (exec_bind (exec_print _ _)).trans (exec_pure _ _)

/-- `main` with an addon for each. -/
theorem exec_main_available {request : SetKargs} {w : World} (hw : Ready w.fs)
    (hadd : ∀ k ∈ request.add, Encodable k) (hremove : ∀ k ∈ request.remove, Encodable k)
    (haccepts : ∀ k ∈ request.remove, w.fs.Accepts (addonIn loadedAddonsPath k))
    (h : ∀ k ∈ request.add, k ∈ kargsIn w.fs availAddonsPath) :
    ∃ fs', exec (main request) w = (.ok 0, { w with fs := fs' }) ∧ Applied request w.fs fs' := by
  obtain ⟨avail, havail, hmem⟩ := exec_getKargs availAddonsPath w
  have he : ¬ request.add.toFinset \ avail ≠ ∅ := by
    rw [not_not, Finset.sdiff_eq_empty_iff_subset]
    exact fun k hk => (hmem k).mpr (h k (List.mem_toFinset.mp hk))
  have hadd' : ∀ k ∈ request.add, Encodable k ∧ (w.fs.get (addonIn availAddonsPath k)).isSome :=
    fun k hk => ⟨hadd k hk, ((mem_kargsIn hw.avail).mp (h k hk)).2⟩
  obtain ⟨mid, hmid, hadded⟩ := exec_addKargs hw hadd'
  obtain ⟨fs', hfs', hremoved⟩ := exec_removeKargs (w := { w with fs := mid }) hadded.dir
    (hadded.ready hw).loaded hremove fun k hk => (haccepts k hk).congr hadded.tooLong
  have happlied : Applied request w.fs fs' := ⟨mid, hadded, hremoved⟩
  obtain ⟨loaded, hloaded, hmem'⟩ := exec_getKargs loadedAddonsPath { w with fs := fs' }
  have hkargs : ∀ k, k ∈ loaded ↔ (k ∈ kargsIn w.fs loadedAddonsPath ∨ k ∈ request.add) ∧
      k ∉ request.remove := by
    intro k
    rw [hmem', happlied.kargsIn hw hadd' hremove]
    rfl
  have hnotLoaded : (request.add.toFinset \ request.remove.toFinset) \ loaded = ∅ := by
    rw [Finset.sdiff_eq_empty_iff_subset]
    intro k hk
    rw [Finset.mem_sdiff, List.mem_toFinset, List.mem_toFinset] at hk
    exact (hkargs k).mpr ⟨.inr hk.1, hk.2⟩
  have hnotRemoved : request.remove.toFinset ∩ loaded = ∅ := by
    rw [Finset.eq_empty_iff_forall_notMem]
    intro k hk
    rw [Finset.mem_inter, List.mem_toFinset] at hk
    exact ((hkargs k).mp hk.2).2 hk.1
  refine ⟨fs', (exec_bind havail).trans ?_, happlied⟩
  dsimp only
  rw [if_neg he]
  refine (exec_bind hmid).trans ((exec_bind hfs').trans ((exec_bind hloaded).trans ?_))
  simp only [hnotLoaded, hnotRemoved, ne_eq, not_true_eq_false, if_false]
  rfl

/-- CORRECT: on names that the system does not refuse, without an addon for some argument to add, the
    worker fails and changes nothing; otherwise it succeeds, the loaded arguments become those before, with
    `add`, without `remove`, no other path changes, and the same request again succeeds and changes
    nothing. -/
theorem main_loaded (request : SetKargs) {w : World} (hw : Ready w.fs)
    (hadd : ∀ k ∈ request.add, Encodable k) (hremove : ∀ k ∈ request.remove, Encodable k)
    (haccepts : ∀ k ∈ request.remove, w.fs.Accepts (addonIn loadedAddonsPath k)) :
    let after := exec (main request) w
    let again := exec (main request) after.2
    ((¬ ∀ k ∈ request.add, k ∈ kargsIn w.fs availAddonsPath) →
      after.1 = .ok 1 ∧ after.2.fs = w.fs) ∧
    ((∀ k ∈ request.add, k ∈ kargsIn w.fs availAddonsPath) → after.1 = .ok 0 ∧
      kargsIn after.2.fs loadedAddonsPath
        = (kargsIn w.fs loadedAddonsPath ∪ {k | k ∈ request.add}) \ {k | k ∈ request.remove} ∧
      (∀ q, q ≠ loadedAddonsPath → (∀ k ∈ request.add ++ request.remove,
        q ≠ addonIn loadedAddonsPath k) → after.2.fs.get q = w.fs.get q) ∧
      again.1 = .ok 0 ∧ ∀ q, again.2.fs.get q = after.2.fs.get q) := by
  intro after again
  rcases em (∀ k ∈ request.add, k ∈ kargsIn w.fs availAddonsPath) with h | h
  · obtain ⟨fs', hrun, happlied⟩ := exec_main_available hw hadd hremove haccepts h
    have hadd' : ∀ k ∈ request.add, Encodable k ∧ (w.fs.get (addonIn availAddonsPath k)).isSome :=
      fun k hk => ⟨hadd k hk, ((mem_kargsIn hw.avail).mp (h k hk)).2⟩
    have h' : ∀ k ∈ request.add, k ∈ kargsIn fs' availAddonsPath := by
      intro k hk
      obtain ⟨name, hget, hname⟩ := h k hk
      exact ⟨name, by rwa [happlied.avail], hname⟩
    obtain ⟨fs'', hrun', happlied'⟩ := exec_main_available (w := { w with fs := fs' })
      (happlied.ready hw) hadd hremove (fun k hk => (haccepts k hk).congr happlied.tooLong) h'
    rw [show again = exec (main request) after.2 from rfl, show after = _ from hrun, hrun']
    refine ⟨fun hn => absurd h hn, fun _ => ?_⟩
    exact ⟨rfl, happlied.kargsIn hw hadd' hremove, happlied.others, rfl, happlied.again happlied'⟩
  · obtain ⟨stdout, hrun⟩ := exec_main_unavailable h
    rw [show after = _ from hrun]
    exact ⟨fun _ => ⟨rfl, rfl⟩, fun hall => absurd hall h⟩

/-- One argument available, another loaded. -/
def oneOfEach : FileSystem := ofNodes (Dict.ofList [([], .dir), (["boot"], .dir),
  (["boot", "loader"], .dir), (loadedAddonsPath, .dir), (["usr"], .dir), (["usr", "share"], .dir),
  (["usr", "share", "secureblue"], .dir), (["usr", "share", "secureblue", "uki"], .dir),
  (availAddonsPath, .dir), (addonIn availAddonsPath "nosmt=force", .file [1]),
  (addonIn loadedAddonsPath "debugfs=off", .file [2])]) (by decide +kernel) (by decide +kernel)

theorem AddonDir.of_items {fs : FileSystem} {dir : Path}
    (h : ∀ e ∈ fs.nodes.items, e.1.dropLast = dir → '=' ∉ e.1.getLast?.getD [] ∧ e.2 ≠ .dir) :
    AddonDir fs dir := by
  intro name node hnode _
  obtain ⟨heq, hdir⟩ := h _ (Dict.mem_items_of_get hnode) List.dropLast_concat
  rw [List.getLast?_concat] at heq
  refine ⟨heq, ?_⟩
  cases node with
  | file content => exact ⟨content, rfl⟩
  | dir => exact absurd rfl hdir

theorem ready_oneOfEach : Ready oneOfEach where
  loader := by decide +kernel
  addons content := by
    rw [show oneOfEach.get loadedAddonsPath = some .dir by decide +kernel]
    exact nofun
  loaded := AddonDir.of_items (by decide +kernel)
  avail := AddonDir.of_items (by decide +kernel)

theorem main_loaded_oneOfEach :
    let request : SetKargs := ⟨["nosmt=force", "nosmt=force"], ["debugfs=off", "ssbd"]⟩
    (exec (main request) ⟨oneOfEach, []⟩).1 = .ok 0 ∧
      kargsIn (exec (main request) ⟨oneOfEach, []⟩).2.fs loadedAddonsPath
        = (kargsIn oneOfEach loadedAddonsPath ∪ {k | k ∈ request.add}) \ {k | k ∈ request.remove} := by
  intro request
  have havail : ∀ k ∈ request.add, k ∈ kargsIn oneOfEach availAddonsPath := by
    intro k hk
    obtain rfl : k = ("nosmt=force" : Text) := by
      rcases List.mem_cons.mp hk with rfl | hk
      · rfl
      · exact List.mem_singleton.mp hk
    exact (mem_kargsIn ready_oneOfEach.avail).mpr ⟨by decide +kernel, by decide +kernel⟩
  have haccepts : ∀ k ∈ request.remove, oneOfEach.Accepts (addonIn loadedAddonsPath k) := by
    have hshort : ∀ k ∈ request.remove, (∀ c ∈ addonIn loadedAddonsPath k, '\x00' ∉ c ∧ utf8Len c ≤ nameMax) ∧
        Path.size (addonIn loadedAddonsPath k) < pathMax := by decide +kernel
    exact fun k hk => oneOfEach.accepts_of_short (hshort k hk).1 (hshort k hk).2
  have h := (main_loaded request (w := ⟨oneOfEach, []⟩) ready_oneOfEach (by decide +kernel)
    (by decide +kernel) haccepts).2 havail
  exact ⟨h.1, h.2.1⟩

end Kargs.Uki
