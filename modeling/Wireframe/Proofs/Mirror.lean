import Mathlib.Data.List.Forall2
import Wireframe.Proofs.Analysis
import Wireframe.Proofs.Tickets

/-!
# Source maps mirror projects

The entries of a source map, apart from those of settings, are those of the parts of the project,
one for each. They come in written order, and a walk over the project comes to all definitions
before it comes to a screen. So the walk meets the entries in their order once those of screens and
of what is inside screens are moved behind all others.

## Main definitions

* `Node.subject` — what the entry of a part is about.
* `Mirrors` — an entry is that of a part of a project.
* `UnderScreen` — an entry of a screen or of a part inside one.

## Main results

* `underScreen_iff` — which entries lie under a screen.
* `sourceMap_mirrors` — the entries of a source map mirror the parts of its project.
-/

namespace Wireframe

/-- What the entry of a part of a project is about. A layout or component is marked as defined by
the project exactly if the project has a definition of its kind with the name of its type. -/
def Node.subject (project : Project) : Node → Subject
  | .project p => .project p.name
  | .definition (.component d) => .componentDefinition d.name
  | .definition (.layout d) => .layoutDefinition d.name
  | .screen s => .screen s.name
  | .element (.component c) => .component c.kind (decide (c.kind ∈ project.componentNames))
  | .element (.layout l _) => .layout l.kind (decide (l.kind ∈ project.layoutNames))
  | .element (.cell _ _) => .cell

/-- An entry is that of a part of a project, behind the part around it. Only the project itself has
no part around it. -/
structure Mirrors (project : Project) (link : Option Node × Node) (e : Entry) : Prop where
  id : link.2.id = some e.id
  subject : e.subject = link.2.subject project
  parent : e.parent = link.1.bind Node.id
  root : e.parent = none → link.1 = none

/-- An entry of a screen or of a part inside one. -/
inductive UnderScreen (entries : List Entry) : Entry → Prop
  | screen {e : Entry} : e.kind = .screen → UnderScreen entries e
  | inside {e around : Entry} : around ∈ entries → e.parent = some around.id →
      UnderScreen entries around → UnderScreen entries e

/-- Whether entries of this kind are those of settings. -/
def NodeKind.isSettings : NodeKind → Bool
  | .theme | .mocks | .colors => true
  | _ => false

/-! ### Under a screen -/

namespace ProjectBlock

variable {block : ProjectBlock}

/-- The ids of screens and of what is inside screens. -/
def screenIds (block : ProjectBlock) : List NodeId :=
  (block.numbered.filter NumberedItem.isScreen).flatMap fun item => item.tickets.map Ticket.id

/-- The drafts of a project are its own, those of settings, and those of the other items. -/
theorem mem_itemDrafts {d : Draft} {parent : NodeId} {seen : List SettingsKind}
    {items : List NumberedItem} (inside : d ∈ block.itemDrafts parent seen items) :
    (∃ first, .settings first ∈ items ∧
      d = settingsDraft first (block.written first.head.kind) parent) ∨
      ∃ item ∈ items, d ∈ item.drafts block.names parent := by
  obtain ⟨item, held, own, drafted, found⟩ := exists_draftedAs inside
  cases drafted with
  | item => exact .inr ⟨item, held, found⟩
  | settings first => exact .inl ⟨first, held, List.mem_singleton.mp found⟩

theorem mem_itemDrafts_of_item {d : Draft} {parent : NodeId} {seen : List SettingsKind}
    {items : List NumberedItem} {item : NumberedItem} (held : item ∈ items)
    (own : d ∈ item.drafts block.names parent) : d ∈ block.itemDrafts parent seen items := by
  induction items generalizing seen with
  | nil => contradiction
  | cons other items ih =>
    obtain ⟨row, seen', drafts, drafted⟩ := itemDrafts_eq_append block parent seen other items
    rw [drafts]
    rcases List.mem_cons.mp held with rfl | later
    · cases drafted with
      | item => exact List.mem_append_left _ own
      | settings => contradiction
    · exact List.mem_append_right _ (ih later)

theorem mem_screenIds {id : NodeId} : id ∈ block.screenIds ↔
    ∃ item ∈ block.numbered, item.isScreen = true ∧ ∃ t ∈ item.tickets, t.id = id := by
  simp only [screenIds, List.mem_flatMap, List.mem_filter, List.mem_map, and_assoc]

/-- Only a screen takes the tickets of its own. -/
theorem isScreen_of_mem_screenIds {item : NumberedItem} (held : item ∈ block.numbered)
    {t : Ticket} (own : t ∈ item.tickets) (inScreen : t.id ∈ block.screenIds) :
    item.isScreen = true := by
  obtain ⟨screen, heldScreen, isScreen, u, ownScreen, same⟩ := mem_screenIds.mp inScreen
  obtain rfl : u = t := Ticket.eq_of_id same (plain_screen heldScreen isScreen u ownScreen)
  rwa [eq_of_mem_tickets held heldScreen own ownScreen]

theorem name_not_mem_screenIds (kind : NodeKind) (named : kind.isNamed = true) :
    kind.name ∉ block.screenIds := by
  intro inside
  obtain ⟨-, -, -, t, -, same⟩ := mem_screenIds.mp inside
  exact t.id_ne_name named same

/-- It is settled by the item whether a draft bears the id of a screen or of a part of one. -/
theorem id_mem_screenIds_iff {item : NumberedItem} (held : item ∈ block.numbered)
    {parent : NodeId} {d : Draft} (own : d ∈ item.drafts block.names parent) :
    d.id ∈ block.screenIds ↔ item.isScreen = true := by
  have ids : d.id ∈ item.tickets.map Ticket.id := by
    rw [← map_id_drafts item parent]
    exact List.mem_map_of_mem own
  obtain ⟨t, taken, same⟩ := List.mem_map.mp ids
  rw [← same]
  exact ⟨isScreen_of_mem_screenIds held taken,
    fun screen => mem_screenIds.mpr ⟨item, held, screen, t, taken, rfl⟩⟩

/-- Only inside screens a part lies in what bears the id of a screen or of a part of one. -/
theorem isScreen_of_parent {item : NumberedItem} (held : item ∈ block.numbered) {d : Draft}
    (own : d ∈ item.drafts block.names NodeKind.project.name) {id : NodeId}
    (parent : d.parent = some id) (inScreen : id ∈ block.screenIds) : item.isScreen = true := by
  rcases parent_of_mem_drafts own with top | ⟨t, taken, around⟩
  · obtain rfl := Option.some.inj (top.symm.trans parent)
    exact absurd inScreen (name_not_mem_screenIds .project rfl)
  · obtain rfl := Option.some.inj (around.symm.trans parent)
    exact isScreen_of_mem_screenIds held taken inScreen

theorem kind_of_mem_blockDrafts {names : DefinedNames} {n : NumberedBlock} {parent : NodeId}
    {d : Draft} (inside : d ∈ NumberedBlock.drafts names n parent) :
    d.subject.kind = .component ∨ d.subject.kind = .layout ∨ d.subject.kind = .cell := by
  have own : ∀ (c : NumberedBlock) (around : NodeId),
      (NumberedBlock.draft names c around).subject.kind = .component ∨
        (NumberedBlock.draft names c around).subject.kind = .layout ∨
        (NumberedBlock.draft names c around).subject.kind = .cell := by
    intro c around
    cases c with
    | component => exact .inl rfl
    | layout => exact .inr (.inl rfl)
    | cell => exact .inr (.inr rfl)
  rcases List.mem_cons.mp inside with rfl | below
  · exact own n parent
  · obtain ⟨link, -, rfl⟩ := List.mem_map.mp below
    exact own link.2 _

theorem isScreen_of_kind {item : NumberedItem} {names : DefinedNames} {parent : NodeId} {d : Draft}
    (own : d ∈ item.drafts names parent) (kind : d.subject.kind = .screen) :
    item.isScreen = true := by
  obtain ⟨t, body, -, -, ⟨first, -⟩ | below⟩ := NumberedItem.mem_drafts own
  · rw [kind] at first
    cases item with
    | settings | componentDefinition | layoutDefinition => cases first
    | screen => rfl
  · rcases kind_of_mem_blockDrafts below with found | found | found
    all_goals
      rw [kind] at found
      contradiction

section Entries

variable (block) (text : List Char)

/-- The entries of a project. -/
def entries : List Entry :=
  block.drafts.map (block.placed text)

variable {block text}

/-- What lies under a screen bears an id of one. -/
theorem id_of_underScreen {e : Entry} (under : UnderScreen (block.entries text) e)
    (inside : e ∈ block.entries text) : e.id ∈ block.screenIds := by
  -- The id of the part around it is one of a screen, and it settles the item that both lie in.
  induction under with
  | @screen e kind =>
    obtain ⟨d, drafted, rfl⟩ := List.mem_map.mp inside
    rcases List.mem_cons.mp drafted with rfl | drafted
    · contradiction
    · rcases mem_itemDrafts drafted with ⟨first, -, rfl⟩ | ⟨item, held, own⟩
      · have settings : first.head.kind.subject.kind = .screen := kind
        cases found : first.head.kind <;> rw [found] at settings <;> contradiction
      · exact (id_mem_screenIds_iff held own).mpr (isScreen_of_kind own kind)
  | @inside e around listed parent _ ih =>
    have inScreen := ih listed
    obtain ⟨d, drafted, rfl⟩ := List.mem_map.mp inside
    rcases List.mem_cons.mp drafted with rfl | drafted
    · contradiction
    · rcases mem_itemDrafts drafted with ⟨first, -, rfl⟩ | ⟨item, held, own⟩
      · obtain same : NodeKind.project.name = around.id := Option.some.inj parent
        rw [← same] at inScreen
        exact absurd inScreen (name_not_mem_screenIds .project rfl)
      · exact (id_mem_screenIds_iff held own).mpr (isScreen_of_parent held own parent inScreen)

/-- A block and all blocks inside it lie under a screen if the part around them does. -/
theorem underScreen_blockDrafts {n : NumberedBlock} {around : Entry}
    (listed : around ∈ block.entries text) (under : UnderScreen (block.entries text) around)
    (all : ∀ d ∈ NumberedBlock.drafts block.names n around.id, d ∈ block.drafts) :
    ∀ d ∈ NumberedBlock.drafts block.names n around.id,
      UnderScreen (block.entries text) (block.placed text d) := by
  induction n using Tree.induction_children generalizing around with
  | node n ih =>
    rw [drafts_eq_cons] at all ⊢
    obtain ⟨first, others⟩ := List.forall_mem_cons.mp all
    have own : UnderScreen (block.entries text)
        (block.placed text (NumberedBlock.draft block.names n around.id)) :=
      .inside listed (parent_draft n around.id) under
    refine List.forall_mem_cons.mpr ⟨own, fun d below => ?_⟩
    obtain ⟨c, child, inside⟩ := List.mem_flatMap.mp below
    have id : (block.placed text (NumberedBlock.draft block.names n around.id)).id =
        (NumberedBlock.ticket n).id :=
      id_draft n around.id
    rw [← id] at inside
    refine ih c child (List.mem_map_of_mem first) own (fun d inside => others d ?_) d inside
    rw [id] at inside
    exact List.mem_flatMap.mpr ⟨c, child, inside⟩

/-- An entry lies under a screen exactly if it bears an id of one. -/
theorem underScreen_iff {d : Draft} (drafted : d ∈ block.drafts) :
    UnderScreen (block.entries text) (block.placed text d) ↔ d.id ∈ block.screenIds := by
  constructor
  · intro under
    exact id_of_underScreen under (List.mem_map_of_mem drafted)
  · intro inScreen
    rcases List.mem_cons.mp drafted with rfl | listed
    · exact absurd inScreen (name_not_mem_screenIds .project rfl)
    rcases mem_itemDrafts listed with ⟨first, -, rfl⟩ | ⟨item, held, own⟩
    · exact absurd inScreen (name_not_mem_screenIds _ (by cases first.head.kind <;> rfl))
    have screen := (id_mem_screenIds_iff held own).mp inScreen
    have all : ∀ d ∈ item.drafts block.names NodeKind.project.name, d ∈ block.drafts :=
      fun d own => List.mem_cons_of_mem _ (mem_itemDrafts_of_item held own)
    cases item with
    | settings | componentDefinition | layoutDefinition => contradiction
    | screen u head l closing =>
      obtain ⟨first, others⟩ := List.forall_mem_cons.mp all
      have under : UnderScreen (block.entries text)
          (block.placed text (screenDraft u head closing NodeKind.project.name)) :=
        .screen rfl
      rcases List.mem_cons.mp own with rfl | below
      · exact under
      · exact underScreen_blockDrafts (List.mem_map_of_mem first) under others d below

end Entries

end ProjectBlock

/-! ### Parts and entries -/

section Parts

variable {project : Project} {names : DefinedNames} {parent : NodeId}

theorem id_element (n : NumberedBlock) :
    (Node.element (NumberedBlock.element n)).id = some (NumberedBlock.ticket n).id := by
  cases n <;> simp [NumberedBlock.element, Tree.map, Node.id, componentOf, layoutNodeOf,
    cellNodeOf, NumberedBlock.ticket]

/-- The names that a project defines are known when its blocks are lowered. -/
structure Project.Defines (project : Project) (names : DefinedNames) : Prop where
  components : names.components = project.componentNames
  layouts : names.layouts = project.layoutNames

theorem Mirrors.of_parent {around node : Node} {e : Entry} (aroundId : around.id = some parent)
    (id : node.id = some e.id) (subject : e.subject = node.subject project)
    (held : e.parent = some parent) : Mirrors project (some around, node) e := by
  refine ⟨id, subject, ?_, fun none => ?_⟩
  · rw [held, Option.bind_some, aroundId]
  · rw [held] at none
    contradiction

theorem subject_draft (defines : project.Defines names) (n : NumberedBlock) (parent : NodeId) :
    (NumberedBlock.draft names n parent).subject =
      (Node.element (NumberedBlock.element n)).subject project := by
  cases n with
  | component c =>
    simp only [NumberedBlock.draft, componentDraft, NumberedBlock.element, Tree.map,
      Tree.fold_component, Node.subject, componentOf, defines.components, List.contains_eq_mem]
  | layout l inside =>
    simp only [NumberedBlock.draft, layoutDraft, NumberedBlock.element, Tree.map,
      Tree.fold_layout, Node.subject, layoutNodeOf, defines.layouts, List.contains_eq_mem]
  | cell k inside =>
    simp only [NumberedBlock.draft, cellDraft, NumberedBlock.element, Tree.map, Tree.fold_cell,
      Node.subject]

theorem mirrors_draft (defines : project.Defines names) (n : NumberedBlock) {around : Node}
    (aroundId : around.id = some parent) :
    Mirrors project (some around, .element (NumberedBlock.element n))
      (NumberedBlock.draft names n parent).entry := by
  refine .of_parent aroundId ?_ (subject_draft defines n parent) (parent_draft n parent)
  rw [id_element]
  exact congrArg some (id_draft n parent).symm

/-- The entries of a block mirror the element that it stands for and all elements inside it. -/
theorem mirrors_blockDrafts (defines : project.Defines names) (n : NumberedBlock) {around : Node}
    (aroundId : around.id = some parent) :
    List.Forall₂ (fun link d => Mirrors project (some link.1, link.2) (Draft.entry d))
      ((around, .element (NumberedBlock.element n)) :: elementLinks (NumberedBlock.element n))
      (NumberedBlock.drafts names n parent) := by
  have links : elementLinks (NumberedBlock.element n) = n.links.map fun link =>
      (.element (NumberedBlock.element link.1), .element (NumberedBlock.element link.2)) := by
    rw [elementLinks, NumberedBlock.element, Tree.links_map, List.map_map]
    rfl
  rw [links, NumberedBlock.drafts]
  refine .cons (mirrors_draft defines n aroundId) ?_
  rw [List.forall₂_map_left_iff, List.forall₂_map_right_iff, List.forall₂_same]
  exact fun link _ => mirrors_draft defines link.2 (id_element link.1)

/-- What a body stands for is the element of its block. -/
theorem NumberedBody.toTree_lowered (body : NumberedBody) :
    body.lowered.toTree = NumberedBlock.element body.block := by
  cases body with
  | layout l => exact (element_toTree l).symm
  | component c => simp [lowered, Body.toTree, block, NumberedBlock.element]

/-- The drafts of a definition mirror it. -/
theorem mirrors_definition (defines : project.Defines names) {item : NumberedItem} {d : Definition}
    (read : item.definition? = some d) (projectId : project.id = some parent) :
    List.Forall₂ (fun link d => Mirrors project (some link.1, link.2) (Draft.entry d))
      ((.project project, .definition d) :: d.links) (item.drafts names parent) := by
  cases item with
  | settings | screen => contradiction
  | componentDefinition t head body closing =>
    obtain rfl := Option.some.inj read
    refine .cons (.of_parent projectId rfl rfl rfl) ?_
    rw [Definition.links, Definition.body, body.toTree_lowered]
    exact mirrors_blockDrafts defines body.block rfl
  | layoutDefinition t head l closing =>
    obtain rfl := Option.some.inj read
    refine .cons (.of_parent projectId rfl rfl rfl) ?_
    rw [Definition.links, Definition.body, ← element_toTree]
    exact mirrors_blockDrafts defines l.toTree rfl

/-- The drafts of a screen mirror it. -/
theorem mirrors_screen (defines : project.Defines names) {item : NumberedItem} {s : Screen}
    (read : item.screen? = some s) (projectId : project.id = some parent) :
    List.Forall₂ (fun link d => Mirrors project (some link.1, link.2) (Draft.entry d))
      ((.project project, .screen s) :: s.links) (item.drafts names parent) := by
  cases item with
  | settings | componentDefinition | layoutDefinition => contradiction
  | screen t head l closing =>
    obtain rfl := Option.some.inj read
    refine .cons (.of_parent projectId rfl rfl rfl) ?_
    rw [Screen.links, ← element_toTree]
    exact mirrors_blockDrafts defines l.toTree rfl

end Parts

/-! ### Projects and source maps -/

/-- The definition that an item is. -/
def Item.definition? : Item → Option DefinitionBlock
  | .definition block => some block
  | _ => none

namespace ProjectBlock

variable {block : ProjectBlock}

theorem definitions_eq_filterMap (block : ProjectBlock) :
    block.definitions = block.items.filterMap Item.definition? := by
  refine List.filterMap_congr fun item _ => ?_
  cases item <;> rfl

/-- What can be told of a definition as written is told of the definition that it becomes. -/
theorem filterMap_definitions {p : Definition → Option String} {q : DefinitionBlock → Option String}
    (same : ∀ b used, ∃ d, ((Item.definition b).number used).1.definition? = some d ∧ p d = q b)
    (items : List Item) (used : List IdFamily) :
    ((numberItems items used).1.filterMap NumberedItem.definition?).filterMap p =
      (items.filterMap Item.definition?).filterMap q := by
  induction items generalizing used with
  | nil => rfl
  | cons item items ih =>
    rw [numberItems, Numbered.bind_apply]
    cases item with
    | settings first => exact ih _
    | screen first => exact ih _
    | definition first =>
      obtain ⟨d, read, told⟩ := same first used
      have tail := ih ((Item.definition first).number used).2
      have written : Item.definition? (.definition first) = some first := rfl
      simp only [Numbered.bind_apply, Numbered.pure_apply, List.filterMap_cons, written, read,
        told, tail]

theorem lowered_defines (block : ProjectBlock) : block.lowered.Defines block.names := by
  have named : ∀ keep : Definition → Bool, ∀ ds : List Definition,
      (ds.filter keep).map Definition.name =
        ds.filterMap fun d => if keep d then some d.name else none := by
    intro keep ds
    rw [← List.filterMap_eq_map, List.filterMap_filter]
    rfl
  constructor
  · rw [Project.componentNames, named, lowered, numbered, names, definitions_eq_filterMap]
    refine (filterMap_definitions (fun b used => ?_) block.items []).symm
    cases b with
    | component head body closing => cases body <;> exact ⟨_, rfl, rfl⟩
    | layout head l closing => exact ⟨_, rfl, rfl⟩
  · rw [Project.layoutNames, named, lowered, numbered, names, definitions_eq_filterMap]
    refine (filterMap_definitions (fun b used => ?_) block.items []).symm
    cases b with
    | component head body closing => cases body <;> exact ⟨_, rfl, rfl⟩
    | layout head l closing => exact ⟨_, rfl, rfl⟩

/-- Apart from settings the drafts of items are those of each item in turn. -/
theorem filterMap_itemDrafts {α : Type} {g : Draft → Option α} {parent : NodeId}
    (settings : ∀ first written, g (settingsDraft first written parent) = none)
    (seen : List SettingsKind) (items : List NumberedItem) :
    (block.itemDrafts parent seen items).filterMap g =
      items.flatMap fun item => (item.drafts block.names parent).filterMap g := by
  induction items generalizing seen with
  | nil => rfl
  | cons item items ih =>
    obtain ⟨own, seen', drafts, drafted⟩ := itemDrafts_eq_append block parent seen item items
    rw [drafts, List.filterMap_append, ih, List.flatMap_cons]
    cases drafted with
    | item => rfl
    | settings first =>
      rw [List.filterMap_cons_none (settings first _)]
      rfl

theorem filter_itemDrafts {q : Draft → Bool} {parent : NodeId}
    (settings : ∀ first written, q (settingsDraft first written parent) = false)
    (seen : List SettingsKind) (items : List NumberedItem) :
    (block.itemDrafts parent seen items).filter q =
      items.flatMap fun item => (item.drafts block.names parent).filter q := by
  simp only [← List.filterMap_eq_filter]
  exact filterMap_itemDrafts (fun first written => by simp [Option.guard, settings]) seen items

end ProjectBlock

theorem forall₂_flatMap_filterMap {α β γ δ : Type} {R : γ → δ → Prop} {f : α → Option β}
    {g : β → List γ} {h : α → List δ} {l : List α}
    (some : ∀ a ∈ l, ∀ b, f a = some b → List.Forall₂ R (g b) (h a))
    (none : ∀ a ∈ l, f a = none → h a = []) :
    List.Forall₂ R ((l.filterMap f).flatMap g) (l.flatMap h) := by
  induction l with
  | nil => exact .nil
  | cons a l ih =>
    obtain ⟨first, others⟩ := List.forall_mem_cons.mp some
    obtain ⟨empty, rest⟩ := List.forall_mem_cons.mp none
    have tail := ih others rest
    cases found : f a with
    | none =>
      rw [List.filterMap_cons_none found, List.flatMap_cons, empty found]
      exact tail
    | some b =>
      rw [List.filterMap_cons_some found, List.flatMap_cons, List.flatMap_cons]
      exact List.rel_append (first b found) tail

/-- The entries of parts of the project: all but those of settings. -/
def SourceMap.parts (map : SourceMap) : List Entry :=
  map.entries.filter fun e => !e.kind.isSettings

open Classical in
/-- The entries of parts, with those under screens moved behind all others. -/
noncomputable def SourceMap.screensLast (map : SourceMap) : List Entry :=
  map.parts.filter (fun e => ¬ UnderScreen map.entries e) ++
    map.parts.filter (fun e => UnderScreen map.entries e)

/-- The drafts of items do not bear the names of their kinds. -/
theorem not_isNamed_of_mem_drafts {item : NumberedItem} {names : DefinedNames}
    {parent : NodeId} {d : Draft} (own : d ∈ item.drafts names parent) :
    d.subject.kind.isNamed = false := by
  obtain ⟨t, body, -, -, ⟨first, -⟩ | below⟩ := NumberedItem.mem_drafts own
  · cases item with
    | settings => contradiction
    | componentDefinition | layoutDefinition | screen =>
      rw [← Option.some.inj first]
      rfl
  · rcases ProjectBlock.kind_of_mem_blockDrafts below with kind | kind | kind
    all_goals
      rw [kind]
      rfl

theorem not_isSettings_of_mem_drafts {item : NumberedItem} {names : DefinedNames}
    {parent : NodeId} {d : Draft} (own : d ∈ item.drafts names parent) :
    d.subject.kind.isSettings = false := by
  have unnamed := not_isNamed_of_mem_drafts own
  cases kind : d.subject.kind <;> rw [kind] at unnamed <;> first | rfl | contradiction

/-- The drafts that are not of settings and of which the ids are kept. -/
def keptDrafts (keepId : NodeId → Bool) (drafts : List Draft) : List Draft :=
  drafts.filter fun d => !d.subject.kind.isSettings && keepId d.id

namespace ProjectBlock

variable {block : ProjectBlock}

/-- The drafts of an item are all kept if the item settles it so. -/
theorem keptDrafts_eq_self {keepId : NodeId → Bool} {item : NumberedItem}
    (held : item ∈ block.numbered)
    (keep : ∀ id, (id ∈ block.screenIds ↔ item.isScreen = true) → keepId id = true) :
    keptDrafts keepId (item.drafts block.names NodeKind.project.name) =
      item.drafts block.names NodeKind.project.name := by
  refine List.filter_eq_self.mpr fun d own => ?_
  simp [not_isSettings_of_mem_drafts own, keep d.id (id_mem_screenIds_iff held own)]

/-- The drafts of an item are all left out if the item settles it so. -/
theorem keptDrafts_eq_nil {keepId : NodeId → Bool} {item : NumberedItem}
    (held : item ∈ block.numbered)
    (drop : ∀ id, (id ∈ block.screenIds ↔ item.isScreen = true) → keepId id = false) :
    keptDrafts keepId (item.drafts block.names NodeKind.project.name) = [] := by
  refine List.filter_eq_nil_iff.mpr fun d own => ?_
  simp [drop d.id (id_mem_screenIds_iff held own)]

theorem keptDrafts_itemDrafts (keepId : NodeId → Bool) :
    keptDrafts keepId (block.itemDrafts NodeKind.project.name [] block.numbered) =
      block.numbered.flatMap fun item =>
        keptDrafts keepId (item.drafts block.names NodeKind.project.name) := by
  refine filter_itemDrafts (fun first written => ?_) [] block.numbered
  have settings : (settingsDraft first written NodeKind.project.name).subject.kind.isSettings =
      true := by
    cases kind : first.head.kind <;> simp [settingsDraft, kind, SettingsKind.subject] <;> rfl
  simp [settings]

/-- The drafts that do not lie under a screen mirror the project and its definitions. -/
theorem mirrors_others (block : ProjectBlock) :
    List.Forall₂ (fun link d => Mirrors block.lowered (some link.1, link.2) (Draft.entry d))
      (block.lowered.definitions.flatMap fun d =>
        (.project block.lowered, .definition d) :: d.links)
      (keptDrafts (fun id => id ∉ block.screenIds)
        (block.itemDrafts NodeKind.project.name [] block.numbered)) := by
  rw [keptDrafts_itemDrafts]
  refine forall₂_flatMap_filterMap (fun item held d read => ?_) (fun item held read => ?_)
  · have other : item.isScreen = false := by
      cases item with
      | settings | screen => contradiction
      | componentDefinition | layoutDefinition => rfl
    rw [keptDrafts_eq_self held fun id iff => by simp [iff, other]]
    exact mirrors_definition block.lowered_defines read rfl
  · cases item with
    | componentDefinition | layoutDefinition => contradiction
    | settings => rfl
    | screen t head l closing =>
      exact keptDrafts_eq_nil held fun id iff => by simp [iff, NumberedItem.isScreen]

/-- The drafts under screens mirror the screens. -/
theorem mirrors_screens (block : ProjectBlock) :
    List.Forall₂ (fun link d => Mirrors block.lowered (some link.1, link.2) (Draft.entry d))
      (block.lowered.screens.flatMap fun s => (.project block.lowered, .screen s) :: s.links)
      (keptDrafts (fun id => id ∈ block.screenIds)
        (block.itemDrafts NodeKind.project.name [] block.numbered)) := by
  rw [keptDrafts_itemDrafts]
  refine forall₂_flatMap_filterMap (fun item held s read => ?_) (fun item held read => ?_)
  · have screen : item.isScreen = true := by
      cases item with
      | settings | componentDefinition | layoutDefinition => contradiction
      | screen => rfl
    rw [keptDrafts_eq_self held fun id iff => by simp [iff, screen]]
    exact mirrors_screen block.lowered_defines read rfl
  · cases item with
    | screen => contradiction
    | settings => rfl
    | componentDefinition | layoutDefinition =>
      exact keptDrafts_eq_nil held fun id iff => by simp [iff, NumberedItem.isScreen]

/-- Apart from settings, the entries of a source map mirror the parts of its project, in the order
of a walk once screens come last. -/
theorem mirrors (block : ProjectBlock) (text : List Char) :
    List.Forall₂ (Mirrors block.lowered) block.lowered.links
      (SourceMap.screensLast ⟨block.entries text⟩) := by
  classical
  -- Both halves are read off the drafts, where ids tell which of them lie under a screen.
  have half : ∀ (keep : Entry → Bool) (keepId : NodeId → Bool),
      (∀ d ∈ block.drafts, keep (block.placed text d) = keepId d.id) →
      (SourceMap.parts ⟨block.entries text⟩).filter keep =
        (keptDrafts keepId block.drafts).map (block.placed text) := by
    intro keep keepId same
    rw [SourceMap.parts, entries, List.filter_map, List.filter_map, List.filter_filter,
      keptDrafts]
    refine congrArg _ (List.filter_congr fun d drafted => ?_)
    rw [Bool.and_comm]
    exact congrArg _ (same d drafted)
  have others := half (fun e => ¬ UnderScreen (block.entries text) e)
    (fun id => id ∉ block.screenIds) fun d drafted => by simp [underScreen_iff drafted]
  have screens := half (fun e => UnderScreen (block.entries text) e)
    (fun id => id ∈ block.screenIds) fun d drafted => by simp [underScreen_iff drafted]
  have outside : NodeKind.project.name ∉ block.screenIds := name_not_mem_screenIds .project rfl
  have first : keptDrafts (fun id => id ∉ block.screenIds) block.drafts = block.draft ::
      keptDrafts (fun id => id ∉ block.screenIds)
        (block.itemDrafts NodeKind.project.name [] block.numbered) :=
    List.filter_cons_of_pos (by simp [outside, draft, Subject.kind, NodeKind.isSettings])
  have second : keptDrafts (fun id => id ∈ block.screenIds) block.drafts =
      keptDrafts (fun id => id ∈ block.screenIds)
        (block.itemDrafts NodeKind.project.name [] block.numbered) :=
    List.filter_cons_of_neg (by simp [outside, draft])
  have inside : List.Forall₂ (fun link d => Mirrors block.lowered (some link.1, link.2)
      (Draft.entry d)) block.lowered.inside _ :=
    List.rel_append block.mirrors_others block.mirrors_screens
  rw [SourceMap.screensLast, others, screens, first, second, List.map_cons, List.cons_append,
    ← List.map_append, Project.links]
  refine .cons ⟨rfl, rfl, rfl, fun _ => rfl⟩ ?_
  rw [List.forall₂_map_left_iff, List.forall₂_map_right_iff]
  exact inside.imp fun link d same => ⟨same.id, same.subject, same.parent, same.root⟩

end ProjectBlock

/-! ### Settings -/

/-- The block of settings of a kind that an item is. -/
def Item.settings? (kind : SettingsKind) : Item → Option SettingsBlock
  | .settings block => if block.head.kind = kind then some block else none
  | _ => none

theorem SettingsKind.subject_kind_inj {kind other : SettingsKind}
    (same : kind.subject.kind = other.subject.kind) : kind = other := by
  cases kind <;> cases other <;> first | rfl | contradiction

theorem SettingsKind.kind_ne_project (kind : SettingsKind) : kind.subject.kind ≠ .project := by
  cases kind <;> decide

theorem SettingsKind.isSettings_kind (kind : SettingsKind) :
    kind.subject.kind.isSettings = true := by
  cases kind <;> rfl

theorem NodeKind.exists_of_isSettings {kind : NodeKind} (settings : kind.isSettings = true) :
    ∃ s : SettingsKind, kind = s.subject.kind := by
  cases kind with
  | theme => exact ⟨.style, rfl⟩
  | mocks => exact ⟨.mocks, rfl⟩
  | colors => exact ⟨.colors, rfl⟩
  | _ => contradiction

namespace ProjectBlock

variable {block : ProjectBlock}

theorem settings_eq_filterMap (block : ProjectBlock) (kind : SettingsKind) :
    block.settings kind = block.items.filterMap (Item.settings? kind) := by
  refine List.filterMap_congr fun item _ => ?_
  cases item <;> rfl

theorem itemDrafts_cons {item : NumberedItem} {body : NumberedBlock} (held : item.body? = some body)
    (parent : NodeId) (seen : List SettingsKind) (items : List NumberedItem) :
    block.itemDrafts parent seen (item :: items) =
      item.drafts block.names parent ++ block.itemDrafts parent seen items := by
  cases item with
  | settings => contradiction
  | componentDefinition | layoutDefinition | screen => rfl

/-- Settings of a kind have one draft if there are any, unless they have had it. -/
theorem countP_itemDrafts (kind : SettingsKind) (parent : NodeId) (seen : List SettingsKind)
    (items : List Item) (used : List IdFamily) :
    (block.itemDrafts parent seen (numberItems items used).1).countP
        (·.subject.kind = kind.subject.kind) =
      if kind ∈ seen ∨ items.filterMap (Item.settings? kind) = [] then 0 else 1 := by
  -- Items other than settings have no draft of settings.
  have apart : ∀ item : NumberedItem, (item.drafts block.names parent).countP
      (·.subject.kind = kind.subject.kind) = 0 := by
    intro item
    refine List.countP_eq_zero.mpr fun d own found => ?_
    have other := not_isSettings_of_mem_drafts own
    rw [of_decide_eq_true found, kind.isSettings_kind] at other
    contradiction
  induction items generalizing seen used with
  | nil => simp [numberItems, itemDrafts]
  | cons item items ih =>
    cases item with
    | settings first =>
      have tail := ih (first.head.kind :: seen) used
      simp only [numberItems, Item.number, Numbered.bind_apply, Numbered.pure_apply, itemDrafts]
      by_cases same : first.head.kind = kind
      · subst same
        by_cases later : first.head.kind ∈ seen
        · simp [later, tail]
        · simp [later, tail, settingsDraft, Item.settings?]
      · have other : first.head.kind.subject.kind ≠ kind.subject.kind :=
          fun equal => same (SettingsKind.subject_kind_inj equal)
        have reversed : kind ≠ first.head.kind := Ne.symm same
        by_cases later : first.head.kind ∈ seen
        · simp [later, tail, reversed, Item.settings?, same]
        · simp [later, tail, reversed, Item.settings?, same, settingsDraft, other]
    | definition first =>
      obtain ⟨body, held⟩ : ∃ body, ((Item.definition first).number used).1.body? = some body := by
        cases first with
        | component head body closing => cases body <;> exact ⟨_, rfl⟩
        | layout head l closing => exact ⟨_, rfl⟩
      rw [List.filterMap_cons_none rfl]
      simp only [numberItems, Numbered.bind_apply, Numbered.pure_apply, itemDrafts_cons held,
        List.countP_append, apart, Nat.zero_add, ih]
    | screen first =>
      have held : ((Item.screen first).number used).1.body? =
          some (numberLayout first.layout (IdFamily.screen :: used)).1.toTree := rfl
      rw [List.filterMap_cons_none rfl]
      simp only [numberItems, Numbered.bind_apply, Numbered.pure_apply, itemDrafts_cons held,
        List.countP_append, apart, Nat.zero_add, ih]

/-- Settings of a kind have an entry if there are any, and then only one. -/
theorem countP_entries (block : ProjectBlock) (text : List Char) (kind : SettingsKind) :
    (block.entries text).countP (·.kind = kind.subject.kind) =
      if block.settings kind = [] then 0 else 1 := by
  have ofKind : (block.entries text).countP (·.kind = kind.subject.kind) =
      block.drafts.countP (·.subject.kind = kind.subject.kind) := by
    rw [entries, List.countP_map]
    rfl
  have first : block.draft.subject.kind ≠ kind.subject.kind := kind.kind_ne_project.symm
  rw [ofKind, drafts, List.countP_cons_of_neg (by simpa using first), numbered,
    countP_itemDrafts, settings_eq_filterMap]
  simp

/-- The entries of settings lie in the project. -/
theorem parent_of_settings {text : List Char} {kind : SettingsKind} {e : Entry}
    (listed : e ∈ block.entries text) (same : e.kind = kind.subject.kind) :
    e.parent = block.lowered.id := by
  obtain ⟨d, drafted, rfl⟩ := List.mem_map.mp listed
  have settings : d.subject.kind = kind.subject.kind := same
  rcases List.mem_cons.mp drafted with rfl | drafted
  · exact absurd settings.symm kind.kind_ne_project
  · rcases mem_itemDrafts drafted with ⟨first, -, rfl⟩ | ⟨item, _, own⟩
    · rfl
    · have other := not_isSettings_of_mem_drafts own
      rw [settings, kind.isSettings_kind] at other
      contradiction

end ProjectBlock

/-- What is made out of a text is made out of the block that is read there. -/
theorem exists_block_of_built {text : String} {project : Project} {map : SourceMap}
    (built : (tolerant text).built = some (project, map)) :
    ∃ block, ProjectBlock.ofLexemes (scan text.toList).lexemes = .ok block ∧
      project = block.lowered ∧ map = ⟨block.entries text.toList⟩ := by
  cases read : ProjectBlock.ofLexemes (scan text.toList).lexemes with
  | error fault =>
    rw [tolerant_of_fault read] at built
    contradiction
  | ok block =>
    rw [tolerant_of_block read, block.build_eq] at built
    obtain ⟨rfl, rfl⟩ := Prod.mk.inj (Option.some.inj built)
    exact ⟨block, rfl, rfl, rfl⟩

/-- The source map of a text mirrors its project. Apart from those of settings, the entries are
those of the parts of the project, each with the part around it, in the order of a walk once screens
come last. Settings of a kind have an entry if the text has any, and then only one, which lies in
the project. -/
theorem sourceMap_mirrors {text : String} {project : Project} {map : SourceMap}
    (built : (tolerant text).built = some (project, map)) :
    List.Forall₂ (Mirrors project) project.links map.screensLast ∧
      project.links.map Prod.snd = project.walk ∧
      (∀ link ∈ project.links, link = (none, .project project) ∨
        ∃ around ∈ project.walk, link.1 = some around ∧ link.2 ∈ around.children) ∧
      ∃ block, ProjectBlock.ofLexemes (scan text.toList).lexemes = .ok block ∧
        ∀ kind : SettingsKind,
          map.entries.countP (·.kind = kind.subject.kind) =
              (if block.settings kind = [] then 0 else 1) ∧
            ∀ e ∈ map.entries, e.kind = kind.subject.kind → e.parent = project.id := by
  cases read : ProjectBlock.ofLexemes (scan text.toList).lexemes with
  | error fault =>
    rw [tolerant_of_fault read] at built
    contradiction
  | ok block =>
    rw [tolerant_of_block read, block.build_eq] at built
    obtain ⟨rfl, rfl⟩ := Prod.mk.inj (Option.some.inj built)
    refine ⟨block.mirrors text.toList, block.lowered.map_snd_links,
      fun link held => Project.mem_links held, block, rfl, fun kind => ?_⟩
    exact ⟨block.countP_entries text.toList kind, fun e listed same =>
      ProjectBlock.parent_of_settings listed same⟩

/-- A project with a definition behind the screen that uses it, between settings of one kind. -/
def cardText : String :=
  "project \"Cards\" \x7b style \x7b gap: 4 \x7d\n" ++
  "screen Main \x7b layout stack \x7b cell span: 2 \x7b component Card \x7d \x7d \x7d\n" ++
  "define Component \"Card\" \x7b component Text value: \"Hi\" \x7d style \x7b gap: 8 \x7d \x7d\n"

theorem sourceMap_mirrors_cardText : ∃ project map,
    (tolerant cardText).built = some (project, map) ∧
      List.Forall₂ (Mirrors project) project.links map.screensLast := by
  have built : (tolerant cardText).built.isSome = true := by decide +kernel
  obtain ⟨⟨project, map⟩, same⟩ := Option.isSome_iff_exists.mp built
  exact ⟨project, map, same, (sourceMap_mirrors same).1⟩

end Wireframe
