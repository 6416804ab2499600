import Secureblue.Flatpak.Checks

/-! Sections that hold no permissions (`[Policy ...]` and the like) in the audit of an app.

    The reader merges every section but three into the permission lists, so that a section it does
    not know can replace a list that `[Context]` declares. Inserting one changes the body of its
    name, or else only the place of its name among the first headers; whether that matters to a
    category depends on which of the sections mention it (`foreign_section_unaffected_iff`). -/

namespace Flatpak
open Py

/-! ### Lists by name -/

/-- The sections, by name. -/
def entries (ss : List Section) : List (Text × Dict Text Text) := ss.map fun s => (s.name, s.body)

/-- The list that a category gets from the sections of some names, each name standing for its last
    section, and the last name that mentions the category deciding. -/
def listFrom (ss : List Section) (category : Category) (names : List Text) : Option (List Text) :=
  lastListIn category.key (names.filterMap fun name => (lastWins (entries ss) name).map (name, ·))

theorem lastWins_entries_isSome {ss : List Section} {name : Text} :
    (lastWins (entries ss) name).isSome ↔ name ∈ ss.map Section.name := by
  rw [lastWins_isSome, entries, List.map_map]
  rfl

theorem lastWins_entries_eq_none {ss : List Section} {name : Text} (h : name ∉ ss.map Section.name) :
    lastWins (entries ss) name = none := by
  rwa [← Option.not_isSome_iff_eq_none, lastWins_entries_isSome]

theorem listFrom_append (ss : List Section) (category : Category) (l m : List Text) :
    listFrom ss category (l ++ m) = (listFrom ss category m).or (listFrom ss category l) := by
  rw [listFrom, List.filterMap_append, lastListIn_append]
  rfl

/-- A name without a section gives nothing. -/
theorem listFrom_absent {ss : List Section} {name : Text} (h : name ∉ ss.map Section.name)
    (category : Category) : listFrom ss category [name] = none := by
  rw [listFrom, List.filterMap_cons, lastWins_entries_eq_none h]
  rfl

/-- The names in the order of their first headers. -/
def firstNames (ss : List Section) : List Text := firsts (ss.map Section.name)

/-- The permissions of a list of sections. -/
def permissionsOf (ss : List Section) : Permissions := readSections (Dict.ofList (entries ss))

theorem parse_permissionsOf {text : Text} {ss : List Section} (h : IsTextOf text ss) :
    parseFlatpakPermissions text = .ok (permissionsOf ss) := parseFlatpakPermissions_eq h

theorem permissionList_permissionsOf (ss : List Section) (category : Category) :
    permissionList (permissionsOf ss) category
      = (listFrom ss category (firstNames ss)).getD [] := by
  have hnames : (Dict.ofList (entries ss)).keys = firstNames ss := by
    rw [Dict.keys_ofList, entries, List.map_map]
    rfl
  rw [permissionList, permissionsOf, get_readSections, Dict.items_eq, hnames]
  simp only [Dict.get_ofList]
  rfl

/-- Two texts are read, give each category the same list, and are reported alike. -/
def SameAudit (text text' : Text) : Prop :=
  ∃ perms perms', parseFlatpakPermissions text = .ok perms ∧
    parseFlatpakPermissions text' = .ok perms' ∧
    (∀ category, permissionList perms category = permissionList perms' category) ∧
    ∀ name bluetoothLoaded ptraceAllowed,
      checkFlatpakPermissions name perms bluetoothLoaded ptraceAllowed
        = checkFlatpakPermissions name perms' bluetoothLoaded ptraceAllowed

theorem SameAudit.lists_eq {text text' : Text} {ss ss' : List Section} (h : SameAudit text text')
    (htext : IsTextOf text ss) (htext' : IsTextOf text' ss') (category : Category) :
    permissionList (permissionsOf ss) category = permissionList (permissionsOf ss') category := by
  obtain ⟨perms, perms', hperms, hperms', hlists, -⟩ := h
  obtain rfl : permissionsOf ss = perms :=
    Except.ok.inj ((parse_permissionsOf htext).symm.trans hperms)
  obtain rfl : permissionsOf ss' = perms' :=
    Except.ok.inj ((parse_permissionsOf htext').symm.trans hperms')
  exact hlists category

/-! ### An inserted section -/

/-- The sections that an app's permissions are declared in. -/
def knownSections : List Text :=
  ["Context", sessionBusPolicy, systemBusPolicy, environmentSection]

section
variable (pre : List Section) (s : Section) (post : List Section)

/-- The body of a name: the section's own, if no other of the name stands behind it. -/
theorem lastWins_inserted (name : Text) : lastWins (entries (pre ++ s :: post)) name =
    ((lastWins (entries post) name).or (if name = s.name then some s.body else none)).or
      (lastWins (entries pre) name) := by
  rw [entries, List.map_append, List.map_cons, lastWins_append, lastWins_cons]
  rfl

theorem lastWins_without (name : Text) : lastWins (entries (pre ++ post)) name =
    (lastWins (entries post) name).or (lastWins (entries pre) name) := by
  rw [entries, List.map_append, lastWins_append]
  rfl

theorem lastWins_insert {name : Text} (h : name ≠ s.name) :
    lastWins (entries (pre ++ s :: post)) name = lastWins (entries (pre ++ post)) name := by
  rw [lastWins_inserted, lastWins_without, if_neg h, Option.or_none]

theorem listFrom_insert (category : Category) {names : List Text} (h : s.name ∉ names) :
    listFrom (pre ++ s :: post) category names = listFrom (pre ++ post) category names := by
  have hbodies : names.filterMap (fun name => (lastWins (entries (pre ++ s :: post)) name).map (name, ·))
      = names.filterMap fun name => (lastWins (entries (pre ++ post)) name).map (name, ·) :=
    List.filterMap_congr fun name hname => by
      rw [lastWins_insert pre s post (ne_of_mem_of_not_mem hname h)]
  rw [listFrom, hbodies]
  rfl

/-- The names that come before the place of the section's name. -/
def lowerNames : List Text := (firstNames (pre ++ [s])).takeWhile (· ≠ s.name)

/-- The names between that place and the one the name has without the section: those that the
    section's name is moved below. -/
def movedNames : List Text :=
  ((firstNames (pre ++ post)).drop (lowerNames pre s).length).takeWhile (· ≠ s.name)

/-- The names after the section's name, with and without the section. -/
def upperNames : List Text :=
  (((firstNames (pre ++ post)).drop (lowerNames pre s).length).dropWhile (· ≠ s.name)).drop 1

/-- The last section of the name has an entry for the category, and is merged. -/
def Mentions (ss : List Section) (category : Category) (name : Text) : Prop :=
  Merged name ∧ ((lastWins (entries ss) name).bind (·.get category.key)).isSome

instance (ss : List Section) (category : Category) (name : Text) : Decidable (Mentions ss category name) :=
  inferInstanceAs (Decidable (_ ∧ _))

/-- Where another section of the name stands behind it, the section only moves its name: the name does
    not mention the category, or none of those it moves below does, or its own list is theirs. -/
def MovesUnaffected (category : Category) : Prop :=
  ¬ Mentions (pre ++ post) category s.name ∨
    (∀ name ∈ movedNames pre s post, ¬ Mentions (pre ++ post) category name) ∨
    listFrom (pre ++ post) category [s.name] = listFrom (pre ++ post) category (movedNames pre s post)

/-- Where none does, the section stands for its name: a name first used behind it mentions the category,
    or the section does with the list that the names up to its own have without it, or it does not, and
    the section that it stands for does not either or has the list of the names before. -/
def StandsUnaffected (category : Category) : Prop :=
  (∃ name ∈ movedNames pre s post, Mentions (pre ++ post) category name) ∨
    match s.body.get category.key with
    | some value => listItems value =
        (listFrom (pre ++ post) category (lowerNames pre s ++ [s.name])).getD []
    | none => Mentions (pre ++ post) category s.name →
        (listFrom (pre ++ post) category [s.name]).getD [] =
          (listFrom (pre ++ post) category (lowerNames pre s)).getD []

/-- A name first used behind the section's, in both texts, mentions the category; or else the section
    has another one of its name behind it, and does not matter as it moves the name, or has none, and
    does not matter as it stands for the name. -/
def Unaffected (category : Category) : Prop :=
  (∃ name ∈ upperNames pre s post, Mentions (pre ++ post) category name) ∨
    if s.name ∈ post.map Section.name then MovesUnaffected pre s post category
    else StandsUnaffected pre s post category

instance (category : Category) : Decidable (MovesUnaffected pre s post category) :=
  inferInstanceAs (Decidable (_ ∨ _ ∨ _))

instance (category : Category) : Decidable (StandsUnaffected pre s post category) := by
  unfold StandsUnaffected
  cases s.body.get category.key <;> infer_instance

instance (category : Category) : Decidable (Unaffected pre s post category) := by
  unfold Unaffected
  infer_instance

/-- The names of both texts by place. -/
theorem firstNames_insert :
    firstNames (pre ++ post) = lowerNames pre s ++ movedNames pre s post ++
        (if s.name ∈ (pre ++ post).map Section.name then [s.name] else []) ++ upperNames pre s post ∧
      firstNames (pre ++ s :: post)
        = lowerNames pre s ++ [s.name] ++ movedNames pre s post ++ upperNames pre s post := by
  have h := firsts_insert (pre.map Section.name) s.name (post.map Section.name)
  simp only [firstNames, lowerNames, movedNames, upperNames, List.map_append, List.map_cons,
    List.map_nil, List.append_assoc, List.cons_append, List.nil_append] at h ⊢
  convert h

theorem name_not_mem_lowerNames : s.name ∉ lowerNames pre s := fun h =>
  absurd (List.mem_takeWhile_imp h) (by simp)

theorem name_not_mem_movedNames : s.name ∉ movedNames pre s post := fun h =>
  absurd (List.mem_takeWhile_imp h) (by simp)

theorem name_not_mem_upperNames : s.name ∉ upperNames pre s post := by
  have hnodup : (firstNames (pre ++ s :: post)).Nodup := nodup_firsts _
  rw [(firstNames_insert pre s post).2, List.nodup_append] at hnodup
  exact fun h => hnodup.2.2 s.name (by simp) s.name h rfl

/-! ### The lists with and without the section -/

theorem permissionList_without (category : Category) :
    permissionList (permissionsOf (pre ++ post)) category
      = ((listFrom (pre ++ post) category (upperNames pre s post)).or (listFrom (pre ++ post) category
          (lowerNames pre s ++ movedNames pre s post ++ [s.name]))).getD [] := by
  have hname : listFrom (pre ++ post) category
      (if s.name ∈ (pre ++ post).map Section.name then [s.name] else [])
        = listFrom (pre ++ post) category [s.name] := by
    split
    · rfl
    · next h => exact (listFrom_absent h category).symm
  rw [permissionList_permissionsOf, (firstNames_insert pre s post).1, listFrom_append,
    listFrom_append, hname, ← listFrom_append]

theorem permissionList_with (category : Category) :
    permissionList (permissionsOf (pre ++ s :: post)) category
      = ((listFrom (pre ++ post) category (upperNames pre s post)).or
          (listFrom (pre ++ s :: post) category
            (lowerNames pre s ++ [s.name] ++ movedNames pre s post))).getD [] := by
  rw [permissionList_permissionsOf, (firstNames_insert pre s post).2, listFrom_append,
    listFrom_insert pre s post category (name_not_mem_upperNames pre s post)]

/-- The list of a single name is that of its own section. -/
theorem listFrom_singleton (ss : List Section) (category : Category) (name : Text) :
    listFrom ss category [name] =
      if Merged name then (lastWins (entries ss) name).bind (listIn category.key) else none := by
  rw [listFrom, List.filterMap_cons]
  cases lastWins (entries ss) name with
  | none => simp [lastListIn]
  | some body => simp [lastListIn]

theorem mentions_iff {ss : List Section} {category : Category} {name : Text} :
    Mentions ss category name ↔ (listFrom ss category [name]).isSome := by
  rw [listFrom_singleton, Mentions]
  split
  · next h => cases lastWins (entries ss) name <;> simp [h, listIn]
  · next h => simp [h]

/-- Names give a list just if one of them mentions the category. -/
theorem listFrom_isSome_iff {ss : List Section} {category : Category} {names : List Text} :
    (listFrom ss category names).isSome ↔ ∃ name ∈ names, Mentions ss category name := by
  induction names with
  | nil => simp [listFrom, lastListIn]
  | cons name names ih =>
    rw [← List.singleton_append, listFrom_append, Option.isSome_or, Bool.or_eq_true, ih, ← mentions_iff]
    simp [or_comm]

theorem listFrom_eq_none {ss : List Section} {category : Category} {names : List Text}
    (h : ¬ ∃ name ∈ names, Mentions ss category name) : listFrom ss category names = none := by
  rwa [← listFrom_isSome_iff, Option.not_isSome_iff_eq_none] at h

/-- A section behind another one of its name does not move it. -/
theorem movedNames_eq_nil (h : s.name ∈ pre.map Section.name) : movedNames pre s post = [] := by
  obtain ⟨below, above, hpre, hbelow⟩ := List.eq_append_cons_of_mem (mem_firsts.mpr h)
  have hlower : lowerNames pre s = below := by
    rw [lowerNames, firstNames, List.map_append, List.map_singleton, firsts_append_singleton, if_pos h, hpre,
      takeWhile_ne_append_cons hbelow]
  rw [movedNames, hlower, firstNames, List.map_append, firsts_append, hpre, List.append_assoc, List.drop_left,
    List.cons_append, List.takeWhile_cons_of_neg (by simp)]

/-- With another section of its name behind it, the section does not change the lists of the names. -/
theorem listFrom_replaced (h : s.name ∈ post.map Section.name) (category : Category) (names : List Text) :
    listFrom (pre ++ s :: post) category names = listFrom (pre ++ post) category names := by
  have hbodies : ∀ name, lastWins (entries (pre ++ s :: post)) name = lastWins (entries (pre ++ post)) name := by
    intro name
    rcases eq_or_ne name s.name with rfl | hne
    · obtain ⟨body, hbody⟩ := Option.isSome_iff_exists.mp (lastWins_entries_isSome.mpr h)
      rw [lastWins_inserted, lastWins_without, hbody]
      rfl
    · exact lastWins_insert pre s post hne
  simp only [listFrom, hbodies]

/-- With none, its own body stands for its name. -/
theorem listFrom_stands (hs : Merged s.name) (h : s.name ∉ post.map Section.name) (category : Category) :
    listFrom (pre ++ s :: post) category [s.name] = (s.body.get category.key).map listItems := by
  have hbody : lastWins (entries (pre ++ s :: post)) s.name = some s.body := by
    rw [lastWins_inserted, lastWins_entries_eq_none h, if_pos rfl]
    rfl
  rw [listFrom_singleton, if_pos hs, hbody]
  rfl

/-- Moving a name: what it gives comes before what the others give, or behind. -/
theorem moved_iff (own moved lower : Option (List Text)) :
    (own.or (moved.or lower)).getD [] = (moved.or (own.or lower)).getD [] ↔
      ¬ own.isSome ∨ ¬ moved.isSome ∨ own = moved := by
  cases own <;> cases moved <;> simp

/-- The section changes the list of a category exactly if it is affected. -/
theorem permissionList_insert_iff (hs : Merged s.name) (category : Category) :
    permissionList (permissionsOf (pre ++ post)) category
        = permissionList (permissionsOf (pre ++ s :: post)) category
      ↔ Unaffected pre s post category := by
  rw [permissionList_without pre s post, permissionList_with, Unaffected]
  by_cases hupper : ∃ name ∈ upperNames pre s post, Mentions (pre ++ post) category name
  · obtain ⟨list, hlist⟩ := Option.isSome_iff_exists.mp (listFrom_isSome_iff.mpr hupper)
    simp [hlist, hupper]
  rw [or_iff_right hupper, listFrom_eq_none hupper, Option.none_or, Option.none_or, listFrom_append, listFrom_append,
    listFrom_append, listFrom_append, listFrom_insert pre s post category (name_not_mem_lowerNames pre s),
    listFrom_insert pre s post category (name_not_mem_movedNames pre s post)]
  split
  · next hpost =>
    -- the name has the same body in both texts
    rw [listFrom_replaced pre s post hpost, moved_iff, MovesUnaffected, ← mentions_iff, listFrom_isSome_iff]
    simp only [not_exists, not_and]
  · next hpost =>
    rw [listFrom_stands pre s post hs hpost, StandsUnaffected]
    by_cases hmoved : ∃ name ∈ movedNames pre s post, Mentions (pre ++ post) category name
    · -- then the name is new
      have hname : s.name ∉ (pre ++ post).map Section.name := by
        rw [List.map_append, List.mem_append, not_or]
        refine ⟨fun hpre => ?_, hpost⟩
        rw [movedNames_eq_nil pre s post hpre] at hmoved
        simp at hmoved
      obtain ⟨list, hlist⟩ := Option.isSome_iff_exists.mp (listFrom_isSome_iff.mpr hmoved)
      simp [listFrom_absent hname, hlist, hmoved]
    · rw [or_iff_right hmoved, listFrom_eq_none hmoved, Option.none_or, Option.none_or, listFrom_append]
      cases s.body.get category.key with
      | some value => exact eq_comm
      | none =>
        rw [mentions_iff, Option.map_none, Option.none_or]
        cases listFrom (pre ++ post) category [s.name] <;> simp

/-- A section read by name is read alike. -/
theorem get_insert {name : Text} (h : name ≠ s.name) :
    (Dict.ofList (entries (pre ++ post))).get name
      = (Dict.ofList (entries (pre ++ s :: post))).get name := by
  rw [Dict.get_ofList, Dict.get_ofList, lastWins_insert pre s post h]

/-- A section of a name of its own is merged. -/
theorem merged_of_not_known {name : Text} (h : name ∉ knownSections) : Merged name := by
  simp only [knownSections, List.mem_cons, List.not_mem_nil, or_false, not_or] at h
  exact ⟨h.2.1, h.2.2.1, h.2.2.2⟩

/-- CORRECT: a foreign section leaves the audit as it is exactly when no category is affected: a name
    first used behind mentions it, or the section neither brings its name in front of another that
    mentions it nor replaces the list, unless by the same one. -/
theorem foreign_section_unaffected_iff {text text' : Text} (htext : IsTextOf text (pre ++ post))
    (htext' : IsTextOf text' (pre ++ s :: post)) (hs : s.name ∉ knownSections) :
    SameAudit text text' ↔ ∀ category, Unaffected pre s post category := by
  have hknown : ∀ name ∈ knownSections, name ≠ s.name := fun name hname =>
    ne_of_mem_of_not_mem hname hs
  constructor
  · intro h category
    exact (permissionList_insert_iff pre s post (merged_of_not_known hs) category).mp
      (h.lists_eq htext htext' category)
  · intro h
    have hlists := fun category =>
      (permissionList_insert_iff pre s post (merged_of_not_known hs) category).mpr (h category)
    have hbus : ∀ bus : Bus, (permissionsOf (pre ++ post)).names bus .talk =
        (permissionsOf (pre ++ s :: post)).names bus .talk := by
      intro bus
      have hpolicy : bus.policy ≠ s.name := hknown bus.policy (by cases bus <;> simp [Bus.policy, knownSections])
      rw [permissionsOf, permissionsOf, names_readSections, names_readSections, get_insert pre s post hpolicy]
    refine ⟨_, _, parse_permissionsOf htext, parse_permissionsOf htext', hlists,
      check_congr hlists ?_ (hbus .session) (hbus .system)⟩
    rw [permissionsOf, permissionsOf, environment_readSections, environment_readSections,
      get_insert pre s post (hknown environmentSection (by simp [knownSections]))]

end

/-! ### Hiding a permission -/

/-- An app that may access the root of the host. -/
def contextHostRoot : Section where
  name := "Context"
  lines := ["shared=network;", "filesystems=host-root;"]
  lines_ok := by decide +kernel

/-- A section of some other subsystem, with a key of the same name. -/
def policyFilesystems : Section where
  name := "Policy x"
  lines := ["filesystems=xdg-music;"]
  lines_ok := by decide +kernel

/-- Above `[Context]`, such a section leaves the audit as it is. -/
theorem policy_before_context :
    SameAudit (renderSections [contextHostRoot])
      (renderSections [policyFilesystems, contextHostRoot]) :=
  (foreign_section_unaffected_iff [] policyFilesystems [contextHostRoot]
    (isTextOf_render (by decide +kernel)) (isTextOf_render (by decide +kernel))
    (by decide +kernel)).mpr fun category => by cases category <;> decide +kernel

/-- Below `[Context]`, it hides the access to the host. -/
theorem policy_hides_hostRoot :
    policyFilesystems.name ∉ knownSections ∧
      ¬ SameAudit (renderSections [contextHostRoot])
        (renderSections [contextHostRoot, policyFilesystems]) ∧
      permissionList (permissionsOf [contextHostRoot]) .filesystems = ["host-root"] ∧
      permissionList (permissionsOf [contextHostRoot, policyFilesystems]) .filesystems
        = ["xdg-music"] ∧
      (checkFlatpakPermissions "com.example.Example" (permissionsOf [contextHostRoot]) false
        false).status = .fail ∧
      (checkFlatpakPermissions "com.example.Example"
        (permissionsOf [contextHostRoot, policyFilesystems]) false false).status = .warn := by
  have hwithout : permissionList (permissionsOf [contextHostRoot]) .filesystems
      = [("host-root" : Text)] := by decide +kernel
  have hwith : permissionList (permissionsOf [contextHostRoot, policyFilesystems]) .filesystems
      = [("xdg-music" : Text)] := by decide +kernel
  refine ⟨by decide +kernel, fun h => ?_, hwithout, hwith, by decide +kernel, by decide +kernel⟩
  have hlists := h.lists_eq (isTextOf_render (by decide +kernel))
    (isTextOf_render (by decide +kernel)) .filesystems
  rw [hwithout, hwith] at hlists
  exact absurd hlists (by decide +kernel)

end Flatpak
