import Secureblue.Flatpak.Permissions

/-! Round trip of permissions through a key file: `parse_flatpak_permissions` gives the permissions
    back if and only if they contain no line boundary of `str.splitlines`.

    A key file ends its lines with `"\n"` only, while `str.splitlines` ends them at ten further
    characters. The parser's output never contains one of them (`clean_of_parse`), so permissions with
    one are lost; and lines without one are read as they stand. -/

namespace Flatpak
open Py

/-! ### Rendering -/

/-- The groups of a key file of permissions. -/
inductive KeyGroup where | context | sessionBus | systemBus | environment
  deriving DecidableEq

def KeyGroup.name : KeyGroup → Text
  | context => "Context"
  | sessionBus => sessionBusPolicy
  | systemBus => systemBusPolicy
  | environment => environmentSection

/-- The content of a key file of permissions. -/
structure Content where
  lists : List (Text × List Text) := []
  sessionBus : List (Text × Access) := []
  systemBus : List (Text × Access) := []
  environment : List (Text × Text) := []

namespace Content

/-- A list as it is written: each item followed by `;`. -/
def renderList (l : List Text) : Text := l.flatMap fun item => item ++ [';']

/-- The keys and values of a group. -/
def entries (c : Content) : KeyGroup → List (Text × Text)
  | .context => c.lists.map fun e => (e.1, renderList e.2)
  | .sessionBus => c.sessionBus.map fun e => (e.1, e.2.text)
  | .systemBus => c.systemBus.map fun e => (e.1, e.2.text)
  | .environment => c.environment

def line (e : Text × Text) : Text := e.1 ++ '=' :: e.2

/-- The header of a group and its entries. -/
def groupLines (c : Content) (g : KeyGroup) : List Text :=
  (['['] ++ g.name ++ [']']) :: (c.entries g).map line

/-- The key file with the groups in a given order. -/
def render (c : Content) (groups : List KeyGroup) : Text :=
  ['\n'].intercalate (groups.flatMap c.groupLines)

/-- The permissions that the content stands for. -/
def permissions (c : Content) : Permissions where
  permissions := .ofList c.lists
  environment := .ofList c.environment
  sessionBusTalk := (c.sessionBus.filter (·.2 = .talk)).map Prod.fst
  sessionBusOwn := (c.sessionBus.filter (·.2 = .own)).map Prod.fst
  systemBusTalk := (c.systemBus.filter (·.2 = .talk)).map Prod.fst
  systemBusOwn := (c.systemBus.filter (·.2 = .own)).map Prod.fst

/-- All names, list items and values. -/
def texts (c : Content) : List Text :=
  c.lists.flatMap (fun e => e.1 :: e.2) ++ c.sessionBus.map Prod.fst ++ c.systemBus.map Prod.fst ++
    c.environment.flatMap fun e => [e.1, e.2]

/-- Content that can be written as a key file, line by line. -/
structure WellFormed (c : Content) : Prop where
  /-- names are distinct in a group -/
  distinct : ∀ g, ((c.entries g).map Prod.fst).Nodup
  name_ok : ∀ g, ∀ e ∈ c.entries g, e.1 ≠ [] ∧ '=' ∉ e.1
  item_ok : ∀ e ∈ c.lists, ∀ item ∈ e.2, item ≠ [] ∧ ';' ∉ item
  /-- no line starts or ends with white space -/
  trimmed : ∀ g, ∀ e ∈ c.entries g, strip (line e) = line e
  /-- no line is a comment or a header -/
  no_comment : ∀ g, ∀ e ∈ c.entries g, ¬ startsWith (line e) ['#']
  no_header : ∀ g, ∀ e ∈ c.entries g, ¬ (startsWith (line e) ['['] ∧ endsWith (line e) [']'])

/-- An order of the groups that leaves out none with an entry. -/
structure Layout (c : Content) where
  groups : List KeyGroup
  nodup : groups.Nodup
  complete : ∀ g, g ∉ groups → c.entries g = []

end Content

/-! ### The parser's output has no line boundary -/

/-- A text without a line boundary. -/
def Clean (t : Text) : Prop := ∀ ch ∈ t, isLineBreak ch = false

instance (t : Text) : Decidable (Clean t) := inferInstanceAs (Decidable (∀ ch ∈ t, _))

theorem Clean.mono {s t : Text} (h : Clean t) (hsub : ∀ ch ∈ s, ch ∈ t) : Clean s :=
  fun ch hch => h ch (hsub ch hch)

/-- Sections whose keys and values have no line boundary. -/
def CleanSections (sections : ConfigSections) : Prop :=
  ∀ name lines, sections.get name = some lines → ∀ k v, lines.get k = some v → Clean k ∧ Clean v

theorem CleanSections.set {sections : ConfigSections} (h : CleanSections sections) (name : Text)
    {lines : Dict Text Text} (hlines : ∀ k v, lines.get k = some v → Clean k ∧ Clean v) :
    CleanSections (sections.set name lines) := by
  intro name' lines' hget
  rw [Dict.get_set] at hget
  split at hget
  · exact Option.some.inj hget ▸ hlines
  · exact h name' lines' hget

theorem CleanSections.parseLine {st st' : Option Text × ConfigSections} {rawLine : Text}
    (h : CleanSections st.2) (hraw : Clean rawLine) (hrun : parseLine st rawLine = .ok st') :
    CleanSections st'.2 := by
  unfold Flatpak.parseLine at hrun
  dsimp only at hrun
  split at hrun
  · cases hrun
    exact h
  · split at hrun
    · cases hrun
      exact h.set _ fun k v hget => by cases hget
    · -- an entry: key and value are parts of the line
      have hline : Clean (strip rawLine) := hraw.mono fun _ => mem_of_mem_strip
      have hsub := partition_subset '=' (strip rawLine)
      generalize partition '=' (strip rawLine) = parts at hrun hsub
      obtain ⟨key, sep, value⟩ := parts
      cases sep with
      | nil => cases hrun
      | cons _ _ =>
        cases hname : st.1 with
        | none => simp [hname] at hrun
        | some name =>
          cases hlines : st.2.get name with
          | none => simp [hname, hlines] at hrun
          | some lines =>
            simp only [hname, hlines] at hrun
            cases hrun
            refine h.set name fun k v hget => ?_
            rw [Dict.get_set] at hget
            split at hget
            · next hk =>
              cases hget
              exact hk ▸ ⟨hline.mono hsub.1, hline.mono hsub.2⟩
            · exact h name lines hlines k v hget

theorem CleanSections.foldlM : ∀ {lines : List Text} {st st' : Option Text × ConfigSections},
    (∀ line ∈ lines, Clean line) → CleanSections st.2 →
    lines.foldlM Flatpak.parseLine st = .ok st' → CleanSections st'.2
  | [], _, _, _, h, hrun => by
      cases hrun
      exact h
  | line :: lines, st, st', hlines, h, hrun => by
      rw [List.foldlM_cons] at hrun
      cases hstep : Flatpak.parseLine st line with
      | error e => rw [hstep] at hrun; cases hrun
      | ok st₁ =>
        rw [hstep] at hrun
        exact CleanSections.foldlM (fun l hl => hlines l (List.mem_cons_of_mem line hl))
          (h.parseLine (hlines line List.mem_cons_self) hstep) hrun

theorem clean_parseConfigSections {text : Text} {sections : ConfigSections}
    (h : parseConfigSections text = .ok sections) : CleanSections sections := by
  rw [parseConfigSections] at h
  cases hrun : (splitlines text).foldlM parseLine (none, ∅) with
  | error e => rw [hrun] at h; cases h
  | ok st =>
    rw [hrun] at h
    cases h
    exact CleanSections.foldlM not_lineBreak_of_mem_splitlines (fun _ _ hget => by cases hget) hrun

/-- The keys of one value. -/
theorem clean_keysOf {sections : ConfigSections} (h : CleanSections sections) (name v : Text) :
    ∀ t ∈ ((sections.get name).map fun lines => keysOf lines v).getD [], Clean t := by
  cases hget : sections.get name with
  | none => exact fun t ht => absurd ht List.not_mem_nil
  | some lines =>
    intro t ht
    obtain ⟨e, he, rfl⟩ := List.mem_map.mp ht
    exact (h name lines hget e.1 e.2 (Dict.get_of_mem_items (List.mem_filter.mp he).1)).1

theorem clean_listIn {sections : ConfigSections} (h : CleanSections sections) {category : Text}
    {l : List Text} (hl : lastListIn category sections.items = some l) :
    Clean category ∧ ∀ item ∈ l, Clean item := by
  obtain ⟨e, he, hsome⟩ := List.exists_of_findSome?_eq_some hl
  have hget := Dict.get_of_mem_items (d := sections) (k := e.1) (v := e.2) (List.mem_reverse.mp he)
  rw [Option.ite_none_right_eq_some, listIn, Option.map_eq_some_iff] at hsome
  obtain ⟨-, value, hvalue, rfl⟩ := hsome
  obtain ⟨hkey, hv⟩ := h e.1 e.2 hget category value hvalue
  exact ⟨hkey, fun item hitem => hv.mono fun ch hch =>
    mem_of_mem_splitOn hch (List.mem_filter.mp hitem).1⟩

/-- All names, list items and values of permissions. -/
def Permissions.texts (p : Permissions) : List Text :=
  p.permissions.items.flatMap (fun e => e.1 :: e.2) ++ p.sessionBusTalk ++ p.sessionBusOwn ++
    p.systemBusTalk ++ p.systemBusOwn ++ p.environment.items.flatMap fun e => [e.1, e.2]

/-- No text that the parser returns has a line boundary. -/
theorem clean_of_parse {text : Text} {perms : Permissions}
    (h : parseFlatpakPermissions text = .ok perms) : ∀ t ∈ perms.texts, Clean t := by
  rw [parseFlatpakPermissions] at h
  cases hparse : parseConfigSections text with
  | error e => rw [hparse] at h; cases h
  | ok sections =>
    rw [hparse] at h
    obtain rfl : readSections sections = perms := Except.ok.inj h
    have hclean := clean_parseConfigSections hparse
    have hbus : ∀ bus access, ∀ t ∈ (readSections sections).names bus access, Clean t := fun bus access => by
      rw [names_readSections]
      exact clean_keysOf hclean _ _
    simp only [Permissions.texts, List.forall_mem_append]
    refine ⟨⟨⟨⟨⟨?_, ?_⟩, ?_⟩, ?_⟩, ?_⟩, ?_⟩
    · intro t ht
      obtain ⟨e, he, ht⟩ := List.mem_flatMap.mp ht
      have hget : lastListIn e.1 sections.items = some e.2 :=
        (get_readSections sections e.1).symm.trans (Dict.get_of_mem_items he)
      have hlist := clean_listIn hclean hget
      exact (List.mem_cons.mp ht).elim (fun h => h ▸ hlist.1) (hlist.2 t)
    · exact hbus .session .talk
    · exact hbus .session .own
    · exact hbus .system .talk
    · exact hbus .system .own
    · rw [environment_readSections]
      intro t ht
      obtain ⟨e, he, ht⟩ := List.mem_flatMap.mp ht
      cases hget : sections.get environmentSection with
      | none => rw [hget] at he; cases he
      | some lines =>
        rw [hget] at he
        have hentry := hclean _ lines hget e.1 e.2 (Dict.get_of_mem_items he)
        rcases List.mem_cons.mp ht with rfl | ht
        · exact hentry.1
        · exact List.mem_singleton.mp ht ▸ hentry.2

/-! ### Content without line boundaries is read as it stands -/

theorem listItems_renderList : ∀ {l : List Text}, (∀ item ∈ l, item ≠ [] ∧ ';' ∉ item) →
    listItems (Content.renderList l) = l
  | [], _ => rfl
  | item :: l, h => by
      have ih := listItems_renderList fun k hk => h k (List.mem_cons_of_mem item hk)
      obtain ⟨hne, hsep⟩ := h item List.mem_cons_self
      have hrender : Content.renderList (item :: l) = item ++ ';' :: Content.renderList l := by
        simp [Content.renderList]
      have hsplit : (item ++ ';' :: Content.renderList l).splitOn ';'
          = item :: (Content.renderList l).splitOn ';' :=
        List.splitOnP_append_cons_of_forall_mem
          (fun ch hch => beq_false_of_ne (ne_of_mem_of_not_mem hch hsep)) ';' (by simp) _
      rw [listItems, hrender, hsplit, List.filter_cons_of_pos (by simpa using hne)]
      exact congrArg (item :: ·) ih

namespace Content.WellFormed
variable {c : Content} (h : c.WellFormed)
include h

theorem bodyLine (g : KeyGroup) : ∀ l ∈ (c.entries g).map line, BodyLine l := by
  intro l hl
  obtain ⟨e, he, rfl⟩ := List.mem_map.mp hl
  refine .inr (.inr ?_)
  rw [h.trimmed g e he]
  exact ⟨h.no_header g e he, List.mem_append_right e.1 List.mem_cons_self⟩

/-- A group as a section of the key file. -/
def toSection (g : KeyGroup) : Section := ⟨g.name, (c.entries g).map line, h.bodyLine g⟩

theorem entryOf_line {g : KeyGroup} {e : Text × Text} (he : e ∈ c.entries g) :
    Section.entryOf (line e) = some e := by
  have hskip : ¬ (line e = [] ∨ startsWith (line e) ['#'] = true) := by
    rintro (hnil | hcomment)
    · exact absurd hnil (by simp [line])
    · exact h.no_comment g e he hcomment
  rw [Section.entryOf, h.trimmed g e he, if_neg hskip, line, partition_append (h.name_ok g e he).2]

theorem body_toSection (g : KeyGroup) : (h.toSection g).body = Dict.ofList (c.entries g) := by
  have hentries : ((c.entries g).map line).filterMap Section.entryOf = c.entries g := by
    rw [List.filterMap_map]
    conv_rhs => rw [← List.filterMap_some (l := c.entries g)]
    exact List.filterMap_congr fun e he => h.entryOf_line he
  exact congrArg Dict.ofList hentries

theorem isTextOf_render {groups : List KeyGroup}
    (hclean : ∀ g, ∀ e ∈ c.entries g, Clean e.1 ∧ Clean e.2) :
    IsTextOf (c.render groups) (groups.map h.toSection) := by
  have hlines : (groups.map h.toSection).flatMap Section.textLines = groups.flatMap c.groupLines :=
    List.flatMap_map ..
  rw [IsTextOf, hlines]
  refine splitlines_join fun l hl => ?_
  obtain ⟨g, -, hl⟩ := List.mem_flatMap.mp hl
  rcases List.mem_cons.mp hl with rfl | hl
  · refine ⟨List.cons_ne_nil _ _, ?_⟩
    cases g <;> decide
  · obtain ⟨e, he, rfl⟩ := List.mem_map.mp hl
    obtain ⟨hkey, hvalue⟩ := hclean g e he
    refine ⟨by simp [line], fun ch hch => ?_⟩
    rcases List.mem_append.mp hch with hch | hch
    · exact hkey ch hch
    · rcases List.mem_cons.mp hch with rfl | hch
      · decide
      · exact hvalue ch hch

end Content.WellFormed

/-- The sections that the groups of a layout are read into. -/
def Content.sections (c : Content) (groups : List KeyGroup) : ConfigSections :=
  Dict.ofList (groups.map fun g => (g.name, Dict.ofList (c.entries g)))

theorem KeyGroup.name_injective : Function.Injective KeyGroup.name := by
  intro a b h
  cases a <;> cases b <;> first | rfl | exact absurd h (by decide)

section Layout
variable {c : Content} (layout : c.Layout)

theorem items_sections : (c.sections layout.groups).items
    = layout.groups.map fun g => (g.name, Dict.ofList (c.entries g)) := by
  refine Dict.items_ofList ?_
  rw [List.map_map]
  exact layout.nodup.map KeyGroup.name_injective

/-- A group that is left out has no entry to be missed. -/
theorem get_sections (g : KeyGroup) :
    ((c.sections layout.groups).get g.name).getD ∅ = Dict.ofList (c.entries g) := by
  by_cases hg : g ∈ layout.groups
  · have hmem : (g.name, Dict.ofList (c.entries g)) ∈ (c.sections layout.groups).items := by
      rw [items_sections]
      exact List.mem_map_of_mem hg
    rw [Dict.get_of_mem_items hmem]
    rfl
  · have hget : (c.sections layout.groups).get g.name = none := by
      rw [Option.eq_none_iff_forall_ne_some]
      intro lines hlines
      have hmem := Dict.mem_items_of_get hlines
      rw [items_sections] at hmem
      obtain ⟨g', hg', heq⟩ := List.mem_map.mp hmem
      exact hg (KeyGroup.name_injective (Prod.ext_iff.mp heq).1 ▸ hg')
    rw [hget, layout.complete g hg]
    rfl

end Layout

/-- The permission lists are those of the merged sections, in order. -/
theorem permissions_foldl_readSection : ∀ (l : List (Text × Dict Text Text)) (perms : Permissions),
    (l.foldl readSection perms).permissions = perms.permissions.update
      ((l.filter (Merged ·.1)).flatMap fun e => e.2.items.map fun f => (f.1, listItems f.2))
  | [], _ => rfl
  | e :: l, perms => by
      rw [List.foldl_cons, permissions_foldl_readSection l]
      by_cases hm : Merged e.1
      · rw [List.filter_cons_of_pos (a := e) (by simpa using hm), List.flatMap_cons, Dict.update_append]
        simp [readSection, hm.1, hm.2.1, hm.2.2]
      · rw [List.filter_cons_of_neg (a := e) (by simpa using hm)]
        congr 1
        unfold Merged at hm
        rw [readSection]
        split_ifs <;> simp_all

theorem Content.WellFormed.permissions_eq {c : Content} (h : c.WellFormed) (layout : c.Layout) :
    (readSections (c.sections layout.groups)).permissions = Dict.ofList c.lists := by
  have hmerged : layout.groups.filter (fun g => decide (Merged g.name))
      = layout.groups.filter (· = .context) := by
    refine List.filter_congr fun g _ => ?_
    cases g <;> decide
  have hitems : (Dict.ofList (c.entries .context)).items = c.entries .context :=
    Dict.items_ofList (h.distinct .context)
  have hlists : (c.entries .context).map (fun f => (f.1, listItems f.2)) = c.lists := by
    rw [Content.entries, List.map_map]
    conv_rhs => rw [← List.map_id c.lists]
    exact List.map_congr_left fun e he =>
      Prod.ext rfl (listItems_renderList (h.item_ok e he))
  rw [readSections, permissions_foldl_readSection, items_sections, List.filter_map]
  have hfilter : layout.groups.filter ((fun e : Text × Dict Text Text => decide (Merged e.1)) ∘
      fun g : KeyGroup => (g.name, Dict.ofList (c.entries g))) = layout.groups.filter (· = .context) := hmerged
  rw [hfilter, List.filter_eq, List.flatMap_map]
  by_cases hg : KeyGroup.context ∈ layout.groups
  · rw [List.count_eq_one_of_mem layout.nodup hg, List.replicate_one, List.flatMap_singleton, hitems,
      hlists]
    rfl
  · have hnil := layout.complete .context hg
    rw [hnil] at hlists
    rw [List.count_eq_zero_of_not_mem hg, ← hlists]
    rfl

/-- The names that a bus policy gives one of the two rights. -/
theorem keysOf_bus {bus : List (Text × Access)} (access : Access)
    (hnodup : ((bus.map fun e => (e.1, e.2.text)).map Prod.fst).Nodup) :
    keysOf (Dict.ofList (bus.map fun e => (e.1, e.2.text))) access.text
      = (bus.filter (·.2 = access)).map Prod.fst := by
  have htext : ∀ a : Access, a.text = access.text ↔ a = access := by
    intro a
    cases a <;> cases access <;> decide
  rw [keysOf, Dict.items_ofList hnodup, List.filter_map, List.map_map]
  refine congrArg (List.map Prod.fst) (List.filter_congr fun e _ => ?_)
  exact decide_eq_decide.mpr (htext e.2)

theorem map_keysOf_getD (lines : Option (Dict Text Text)) (v : Text) :
    (lines.map fun lines => keysOf lines v).getD [] = keysOf (lines.getD ∅) v := by
  cases lines <;> rfl

attribute [ext] Permissions

/-- The sections of content are read into its permissions. -/
theorem Content.WellFormed.readSections_eq {c : Content} (h : c.WellFormed) (layout : c.Layout) :
    readSections (c.sections layout.groups) = c.permissions := by
  have hbus : ∀ bus access,
      (readSections (c.sections layout.groups)).names bus access = c.permissions.names bus access := by
    intro bus access
    rw [names_readSections, map_keysOf_getD]
    cases bus with
    | session =>
      refine (congrArg (keysOf · access.text) (get_sections layout .sessionBus)).trans ?_
      exact (keysOf_bus access (h.distinct .sessionBus)).trans (by cases access <;> rfl)
    | system =>
      refine (congrArg (keysOf · access.text) (get_sections layout .systemBus)).trans ?_
      exact (keysOf_bus access (h.distinct .systemBus)).trans (by cases access <;> rfl)
  refine Permissions.ext (h.permissions_eq layout) ?_ (hbus .session .talk) (hbus .session .own)
    (hbus .system .talk) (hbus .system .own)
  rw [environment_readSections]
  exact get_sections layout .environment

/-! ### The round trip -/

/-- Names in the content are names in its permissions. -/
theorem mem_bus_texts {bus : List (Text × Access)} {e : Text × Access} (he : e ∈ bus) :
    e.1 ∈ (bus.filter (·.2 = .talk)).map Prod.fst ∨ e.1 ∈ (bus.filter (·.2 = .own)).map Prod.fst := by
  obtain ⟨name, access⟩ := e
  cases access with
  | talk => exact .inl (List.mem_map_of_mem (List.mem_filter.mpr ⟨he, rfl⟩))
  | own => exact .inr (List.mem_map_of_mem (List.mem_filter.mpr ⟨he, rfl⟩))

theorem Content.WellFormed.texts_subset {c : Content} (h : c.WellFormed) :
    c.texts ⊆ c.permissions.texts := by
  have hlists : (Dict.ofList c.lists).items = c.lists := by
    refine Dict.items_ofList ?_
    have hd := h.distinct .context
    rwa [Content.entries, List.map_map] at hd
  have henv : (Dict.ofList c.environment).items = c.environment :=
    Dict.items_ofList (h.distinct .environment)
  intro t ht
  simp only [Content.texts, Permissions.texts, Content.permissions, hlists, henv,
    List.mem_append] at ht ⊢
  rcases ht with ((ht | ht) | ht) | ht
  · simp only [ht, true_or]
  · obtain ⟨e, he, rfl⟩ := List.mem_map.mp ht
    rcases mem_bus_texts he with h | h <;> simp only [h, true_or, or_true]
  · obtain ⟨e, he, rfl⟩ := List.mem_map.mp ht
    rcases mem_bus_texts he with h | h <;> simp only [h, true_or, or_true]
  · simp only [ht, or_true]

/-- What is written in the key file has a line boundary only if a text of the content has one. -/
theorem Content.clean_entries {c : Content} (h : ∀ t ∈ c.texts, Clean t) (g : KeyGroup) :
    ∀ e ∈ c.entries g, Clean e.1 ∧ Clean e.2 := by
  simp only [Content.texts, List.forall_mem_append] at h
  obtain ⟨⟨⟨hlists, hsession⟩, hsystem⟩, henv⟩ := h
  have haccess : ∀ access : Access, Clean access.text := fun access => by cases access <;> decide
  intro e he
  cases g with
  | context =>
    obtain ⟨f, hf, rfl⟩ := List.mem_map.mp he
    have hf' := fun t ht => hlists t (List.mem_flatMap.mpr ⟨f, hf, ht⟩)
    refine ⟨hf' f.1 List.mem_cons_self, fun ch hch => ?_⟩
    obtain ⟨item, hitem, hch⟩ := List.mem_flatMap.mp hch
    rcases List.mem_append.mp hch with hch | hch
    · exact hf' item (List.mem_cons_of_mem f.1 hitem) ch hch
    · rw [List.mem_singleton.mp hch]
      decide
  | sessionBus =>
    obtain ⟨f, hf, rfl⟩ := List.mem_map.mp he
    exact ⟨hsession f.1 (List.mem_map_of_mem hf), haccess f.2⟩
  | systemBus =>
    obtain ⟨f, hf, rfl⟩ := List.mem_map.mp he
    exact ⟨hsystem f.1 (List.mem_map_of_mem hf), haccess f.2⟩
  | environment =>
    have he' := fun t ht => henv t (List.mem_flatMap.mpr ⟨e, he, ht⟩)
    exact ⟨he' e.1 (by simp), he' e.2 (by simp)⟩

/-- CORRECT: content written as a key file is read back as it is if and only if none of its texts
    has a line boundary of `str.splitlines`. -/
theorem roundTrip_iff {c : Content} (h : c.WellFormed) (layout : c.Layout) :
    parseFlatpakPermissions (c.render layout.groups) = .ok c.permissions ↔
      ∀ t ∈ c.texts, ∀ ch ∈ t, isLineBreak ch = false := by
  constructor
  · intro hparse t ht
    exact clean_of_parse hparse t (h.texts_subset ht)
  · intro hclean
    have htext : IsTextOf (c.render layout.groups) (layout.groups.map h.toSection) :=
      h.isTextOf_render (Content.clean_entries hclean)
    have hsections : (layout.groups.map h.toSection).map (fun s => (s.name, s.body))
        = layout.groups.map fun g => (g.name, Dict.ofList (c.entries g)) := by
      rw [List.map_map]
      exact List.map_congr_left fun g _ => Prod.ext rfl (h.body_toSection g)
    rw [parseFlatpakPermissions_eq htext, hsections]
    exact congrArg Except.ok (h.readSections_eq layout)

/-- An app that talks to a bus and sets a variable. -/
def talkAndVariable : Content where
  lists := [("shared", ["network", "ipc"]), ("devices", [])]
  sessionBus := [("org.kde.*", .own), ("org.a11y.Bus", .talk)]
  environment := [("GREETING", "a = [b]")]

theorem talkAndVariable_wellFormed : talkAndVariable.WellFormed where
  distinct g := by cases g <;> decide
  name_ok g := by cases g <;> decide
  item_ok := by decide
  trimmed g := by cases g <;> decide
  no_comment g := by cases g <;> decide
  no_header g := by cases g <;> decide

theorem roundTrip_talkAndVariable :
    parseFlatpakPermissions (talkAndVariable.render [.environment, .context, .sessionBus])
      = .ok talkAndVariable.permissions :=
  (roundTrip_iff talkAndVariable_wellFormed
    ⟨[.environment, .context, .sessionBus], by decide, fun g => by cases g <;> decide⟩).mpr
    (by decide)

/-- Access to the whole system, and a variable with line separators in its value. -/
def hiddenHostRoot : Content where
  lists := [("filesystems", ["host-root"])]
  environment := [("X", "1\u2028[Context]\u2028filesystems=xdg-music;")]

theorem hiddenHostRoot_wellFormed : hiddenHostRoot.WellFormed where
  distinct g := by cases g <;> decide
  name_ok g := by cases g <;> decide
  item_ok := by decide
  trimmed g := by cases g <;> decide
  no_comment g := by cases g <;> decide
  no_header g := by cases g <;> decide

/-- The line separators end lines and open a section: the access is not seen. -/
theorem lineSeparator_hides_hostRoot :
    hiddenHostRoot.WellFormed ∧ (∀ t ∈ hiddenHostRoot.texts, '\n' ∉ t ∧ strip t = t) ∧
      parseFlatpakPermissions (hiddenHostRoot.render [.context, .environment])
        ≠ .ok hiddenHostRoot.permissions ∧
      (parseFlatpakPermissions (hiddenHostRoot.render [.context, .environment])).toOption.map
        (·.permissions.get "filesystems") = some (some [("xdg-music" : Text)]) := by
  refine ⟨hiddenHostRoot_wellFormed, by decide +kernel, by decide +kernel, by decide +kernel⟩

end Flatpak
