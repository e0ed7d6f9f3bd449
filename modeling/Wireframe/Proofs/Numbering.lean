import Wireframe.Analysis
import Wireframe.Proofs.Links

/-!
# Numbered blocks

Lowering hands out ids, makes the parts of a project and writes entries, all at once. Here these are
taken apart. First every block gets its ticket, in written order. The parts and the entries are then
read off the numbered blocks, so nothing that is said about them has to follow the handing out. An
entry is read off as a draft, which still holds the tokens and not yet where they stand.

## Main definitions

* `Ticket` — the number of an id within its family.
* `NumberedBlock`, `NumberedItem` — blocks and items with their tickets.
* `Draft` — an entry with tokens in place of ranges.
* `NumberedBlock.drafts`, `ProjectBlock.drafts` — the drafts of a block and of a project.

## Main results

* `lowerBlock_eq` — what a block becomes, read off the numbered block.
* `ProjectBlock.itemDrafts_eq_append` — what an item adds to the drafts of those behind it.
* `ProjectBlock.build_eq` — a project and its source map, read off the numbered items.
-/

namespace Wireframe

/-! ### Tickets -/

/-- The number of an id within its family. -/
@[ext]
structure Ticket where
  family : IdFamily
  number : Nat
  deriving DecidableEq, Repr

/-- The id that a ticket stands for. -/
def Ticket.id (t : Ticket) : NodeId :=
  t.family.id t.number

/-- Hand out the next ticket of a family. -/
def ticket (family : IdFamily) : Numbered Ticket := fun used =>
  (⟨family, used.count family⟩, family :: used)

theorem fresh_apply (family : IdFamily) (used : List IdFamily) :
    fresh family used = ((ticket family used).1.id, (ticket family used).2) :=
  rfl

/-- A component, layout or cell with its ticket, with the blocks inside it. -/
abbrev NumberedBlock :=
  Tree (Ticket × ComponentBlock) (Ticket × Closed LayoutHead) (Ticket × Closed CellHead)

/-- A layout with its ticket, with the blocks inside it. -/
abbrev NumberedLayout :=
  Rooted (Ticket × ComponentBlock) (Ticket × Closed LayoutHead) (Ticket × Closed CellHead)

/-- Components of one type are numbered together. -/
def ComponentBlock.family (c : ComponentBlock) : IdFamily :=
  .component c.kind.text.toLower

/-- Layouts of one type are numbered together. -/
def LayoutHead.family (head : LayoutHead) : IdFamily :=
  .layout head.kind.text.toLower

mutual

/-- Number a block and then the blocks inside it. -/
def number : Block → Numbered NumberedBlock
  | .component c => do
    let t ← ticket c.family
    return .component (t, c)
  | .layout l blocks => do
    let t ← ticket l.head.family
    let inside ← numberAll blocks
    return .layout (t, l) inside
  | .cell k blocks => do
    let t ← ticket .cell
    let inside ← numberAll blocks
    return .cell (t, k) inside

/-- Number several blocks, one after the other. -/
def numberAll : List Block → Numbered (List NumberedBlock)
  | [] => return []
  | block :: blocks => do
    let first ← number block
    let others ← numberAll blocks
    return first :: others

end

/-- Number a layout and then the blocks inside it. -/
def numberLayout (l : LayoutBlock) : Numbered NumberedLayout := do
  let t ← ticket l.layout.head.family
  let inside ← numberAll l.children
  return ⟨(t, l.layout), inside⟩

theorem number_toTree (l : LayoutBlock) (used : List IdFamily) :
    number l.toTree used = ((numberLayout l used).1.toTree, (numberLayout l used).2) := by
  simp only [Rooted.toTree, number, numberLayout, Numbered.bind_apply, Numbered.pure_apply]

/-! ### Elements -/

/-- A component with its id. -/
def componentOf (c : Ticket × ComponentBlock) : Component :=
  ⟨c.2.kind.text, propertyValues c.2.properties, some c.1.id⟩

/-- A layout with its id, apart from its children. -/
def layoutNodeOf (l : Ticket × Closed LayoutHead) : LayoutNode :=
  ⟨l.2.head.kind.text, propertyValues (paramProperties l.2.head.params), some l.1.id⟩

/-- A cell with its id, apart from its children. -/
def cellNodeOf (k : Ticket × Closed CellHead) : CellNode :=
  ⟨propertyValues k.2.head.properties, some k.1.id⟩

/-- The element that a numbered block stands for. -/
def NumberedBlock.element : NumberedBlock → Element :=
  Tree.map componentOf layoutNodeOf cellNodeOf

/-- The layout that a numbered layout stands for. -/
def NumberedLayout.lowered (l : NumberedLayout) : Layout :=
  ⟨layoutNodeOf l.layout, l.children.map NumberedBlock.element⟩

/-- The ticket of a block. -/
def NumberedBlock.ticket : NumberedBlock → Ticket
  | .component c => c.1
  | .layout l _ => l.1
  | .cell k _ => k.1

theorem element_toTree (l : NumberedLayout) :
    NumberedBlock.element l.toTree = (NumberedLayout.lowered l).toTree := by
  simp only [Rooted.toTree, NumberedBlock.element, Tree.map, Tree.fold_layout,
    NumberedLayout.lowered]

/-! ### Drafts -/

/-- Tokens of which the ranges are united: a first one and others. -/
structure Hull where
  first : Lexeme
  others : List Lexeme

/-- The range that tokens take up together. -/
def Hull.range (h : Hull) : CodeRange :=
  h.others.foldl (fun range l => range.union l.range) h.first.range

/-- A property with the value that it gives. -/
structure PropertyDraft where
  written : WrittenProperty
  value : PropertyValue

/-- An entry with tokens in place of where they stand. -/
structure Draft where
  id : NodeId
  subject : Subject
  parent : Option NodeId
  whole : Hull
  keyword : Hull
  name : Option Lexeme := none
  /-- The braces around the body. -/
  body : Option (Lexeme × Lexeme) := none
  properties : Option (List PropertyDraft) := none

/-- Where properties stand. -/
def placesOf (properties : List PropertyDraft) : OrderedMap PropertyPlace :=
  .ofList (properties.map fun p => (p.written.name.text, p.written.place p.value))

/-- The entry of a draft. -/
def Draft.entry (d : Draft) : Entry where
  id := d.id
  subject := d.subject
  parent := d.parent
  range := d.whole.range
  keywordRange := d.keyword.range
  nameRange := d.name.map (·.range)
  bodyRange := d.body.map fun braces => braces.1.range.union braces.2.range
  properties := d.properties.map placesOf

/-- Properties with values that may be numbers. -/
def valuedProperties (written : List WrittenProperty) : List PropertyDraft :=
  written.map fun p => ⟨p, p.value.token.value⟩

/-- Properties with values that are always texts. -/
def settingProperties (written : List WrittenProperty) : List PropertyDraft :=
  written.map fun p => ⟨p, .text p.value.token.setting⟩

theorem placesOf_valuedProperties (written : List WrittenProperty) :
    placesOf (valuedProperties written) = propertyPlaces written := by
  rw [placesOf, valuedProperties, List.map_map]
  rfl

theorem placesOf_settingProperties (written : List WrittenProperty) :
    placesOf (settingProperties written) = settingPlaces written := by
  rw [placesOf, settingProperties, List.map_map]
  rfl

/-- The tokens that a block takes up, from its keyword over its parameters to its closing brace. -/
def blockHull (keyword : Lexeme) (params : Option ParamList) (closing : Lexeme) : Hull :=
  ⟨keyword, params.elim [closing] fun list => [list.opening, list.closing, closing]⟩

theorem range_blockHull (keyword : Lexeme) (params : Option ParamList) (closing : Lexeme) :
    (blockHull keyword params closing).range = blockRange keyword params closing := by
  cases params <;> rfl

/-- The last token of a component. -/
def ComponentBlock.last (c : ComponentBlock) : Lexeme :=
  c.properties.getLast?.elim c.kind (·.value)

section Drafts

variable (names : DefinedNames)

/-- The draft of a component. -/
def componentDraft (c : Ticket × ComponentBlock) (parent : NodeId) : Draft where
  id := c.1.id
  subject := .component c.2.kind.text (names.components.contains c.2.kind.text)
  parent := some parent
  whole := ⟨c.2.keyword, [c.2.last]⟩
  keyword := ⟨c.2.keyword, []⟩
  name := some c.2.kind
  properties := some (valuedProperties c.2.properties)

/-- The draft of a layout. -/
def layoutDraft (l : Ticket × Closed LayoutHead) (parent : NodeId) : Draft where
  id := l.1.id
  subject := .layout l.2.head.kind.text (names.layouts.contains l.2.head.kind.text)
  parent := some parent
  whole := blockHull l.2.head.keyword l.2.head.params l.2.closing
  keyword := ⟨l.2.head.keyword, []⟩
  name := some l.2.head.kind
  body := some (l.2.head.opening, l.2.closing)
  properties := some (valuedProperties (paramProperties l.2.head.params))

/-- The draft of a cell. -/
def cellDraft (k : Ticket × Closed CellHead) (parent : NodeId) : Draft where
  id := k.1.id
  subject := .cell
  parent := some parent
  whole := ⟨k.2.head.keyword, [k.2.closing]⟩
  keyword := ⟨k.2.head.keyword, []⟩
  body := some (k.2.head.opening, k.2.closing)
  properties := some (valuedProperties k.2.head.properties)

/-- The draft of a block, given the id of the block around it. -/
def NumberedBlock.draft (n : NumberedBlock) (parent : NodeId) : Draft :=
  match n with
  | .component c => componentDraft names c parent
  | .layout l _ => layoutDraft names l parent
  | .cell k _ => cellDraft k parent

/-- The drafts of a block and of all blocks inside it. -/
def NumberedBlock.drafts (n : NumberedBlock) (parent : NodeId) : List Draft :=
  NumberedBlock.draft names n parent ::
    n.links.map fun link => NumberedBlock.draft names link.2 (NumberedBlock.ticket link.1).id

/-- Behind the draft of a block come those of its children. -/
theorem drafts_eq_cons (n : NumberedBlock) (parent : NodeId) :
    NumberedBlock.drafts names n parent = NumberedBlock.draft names n parent ::
      n.children.flatMap fun c =>
        NumberedBlock.drafts names c (NumberedBlock.ticket n).id := by
  rw [NumberedBlock.drafts, Tree.links_eq_flatMap, List.map_flatMap]
  rfl

end Drafts

/-! ### Lowering blocks -/

section Lowering

variable (names : DefinedNames)

/-- The entries of a block and of all blocks inside it. -/
def NumberedBlock.entries (n : NumberedBlock) (parent : NodeId) : List Entry :=
  (NumberedBlock.drafts names n parent).map Draft.entry

theorem lowerComponent_eq (c : ComponentBlock) (parent : NodeId) (used : List IdFamily) :
    lowerComponent names c parent used =
      ((componentOf ((ticket c.family used).1, c),
        [(componentDraft names ((ticket c.family used).1, c) parent).entry]),
        (ticket c.family used).2) := by
  simp only [lowerComponent, Numbered.bind_apply, Numbered.pure_apply, fresh_apply, Draft.entry,
    componentDraft, Option.map_some, placesOf_valuedProperties]
  rfl

/-- What a block becomes is read off the numbered block. -/
def ReadsOff (b : Block) : Prop :=
  ∀ parent used, lowerBlock names b parent used =
    ((NumberedBlock.element (number b used).1,
      NumberedBlock.entries names (number b used).1 parent), (number b used).2)

/-- What several blocks become, if it is known what each of them becomes. -/
theorem mapM_lowerBlock {blocks : List Block} (each : ∀ b ∈ blocks, ReadsOff names b)
    (parent : NodeId) (used : List IdFamily) :
    (blocks.map (lowerBlock names)).mapM (· parent) used =
      ((numberAll blocks used).1.map fun n =>
        (NumberedBlock.element n, NumberedBlock.entries names n parent),
        (numberAll blocks used).2) := by
  induction blocks generalizing used with
  | nil => rfl
  | cons b blocks ih =>
    obtain ⟨first, others⟩ := List.forall_mem_cons.mp each
    simp only [List.map_cons, List.mapM_cons, numberAll, Numbered.bind_apply, Numbered.pure_apply,
      first parent used, ih others]

theorem entries_eq_cons (n : NumberedBlock) (parent : NodeId) :
    NumberedBlock.entries names n parent = (NumberedBlock.draft names n parent).entry ::
      n.children.flatMap fun c =>
        NumberedBlock.entries names c (NumberedBlock.ticket n).id := by
  rw [NumberedBlock.entries, drafts_eq_cons, List.map_cons, List.map_flatMap]
  rfl

theorem entry_layoutDraft (l : Ticket × Closed LayoutHead) (parent : NodeId) :
    (layoutDraft names l parent).entry =
      { id := l.1.id, parent := some parent
        subject := .layout l.2.head.kind.text (names.layouts.contains l.2.head.kind.text)
        range := blockRange l.2.head.keyword l.2.head.params l.2.closing
        keywordRange := l.2.head.keyword.range
        nameRange := some l.2.head.kind.range
        bodyRange := some (l.2.head.opening.range.union l.2.closing.range)
        properties := some (propertyPlaces (paramProperties l.2.head.params)) } := by
  rw [Draft.entry, layoutDraft, ← range_blockHull, ← placesOf_valuedProperties]
  rfl

theorem lowerLayoutWith_eq {l : Closed LayoutHead} {blocks : List Block}
    (each : ∀ b ∈ blocks, ReadsOff names b) (parent : NodeId) (used : List IdFamily) :
    lowerLayoutWith names l (blocks.map (lowerBlock names)) parent used =
      ((NumberedLayout.lowered (numberLayout ⟨l, blocks⟩ used).1,
        NumberedBlock.entries names (numberLayout ⟨l, blocks⟩ used).1.toTree parent),
        (numberLayout ⟨l, blocks⟩ used).2) := by
  have head := entries_eq_cons names (numberLayout ⟨l, blocks⟩ used).1.toTree parent
  rw [Rooted.toTree, NumberedBlock.draft, entry_layoutDraft] at head
  rw [Rooted.toTree, head]
  simp only [lowerLayoutWith, numberLayout, Numbered.bind_apply, Numbered.pure_apply, fresh_apply,
    mapM_lowerBlock names each, NumberedLayout.lowered, List.map_map, List.flatMap_map]
  rfl

theorem lowerCellWith_eq {k : Closed CellHead} {blocks : List Block}
    (each : ∀ b ∈ blocks, ReadsOff names b) (parent : NodeId) (used : List IdFamily) :
    lowerCellWith k (blocks.map (lowerBlock names)) parent used =
      ((NumberedBlock.element (number (.cell k blocks) used).1,
        NumberedBlock.entries names (number (.cell k blocks) used).1 parent),
        (number (.cell k blocks) used).2) := by
  have head := entries_eq_cons names (number (.cell k blocks) used).1 parent
  rw [head]
  simp only [lowerCellWith, number, Numbered.bind_apply, Numbered.pure_apply, fresh_apply,
    mapM_lowerBlock names each, NumberedBlock.element, Tree.map, Tree.fold_cell, List.map_map,
    List.flatMap_map, NumberedBlock.draft, Draft.entry, cellDraft, Option.map_some,
    placesOf_valuedProperties]
  rfl

/-- What a block becomes is read off the numbered block. -/
theorem lowerBlock_eq (b : Block) : ReadsOff names b := by
  induction b using Tree.induction with
  | component c =>
    intro parent used
    rw [entries_eq_cons, lowerBlock, Tree.fold_component]
    simp only [Numbered.bind_apply, Numbered.pure_apply, lowerComponent_eq, number,
      NumberedBlock.element, Tree.map, Tree.fold_component, Tree.children, List.flatMap_nil]
    rfl
  | layout l blocks ih =>
    intro parent used
    rw [lowerBlock, Tree.fold_layout]
    have lowered := lowerLayoutWith_eq names (l := l) ih parent used
    rw [lowerBlock] at lowered
    simp only [Numbered.bind_apply, Numbered.pure_apply, lowered]
    have numbered := number_toTree ⟨l, blocks⟩ used
    rw [Rooted.toTree] at numbered
    rw [numbered, element_toTree]
  | cell k blocks ih =>
    intro parent used
    rw [lowerBlock, Tree.fold_cell]
    exact lowerCellWith_eq names ih parent used

/-- What a layout becomes is read off the numbered layout. -/
theorem lowerLayout_eq (l : LayoutBlock) (parent : NodeId) (used : List IdFamily) :
    lowerLayout names l parent used =
      ((NumberedLayout.lowered (numberLayout l used).1,
        NumberedBlock.entries names (numberLayout l used).1.toTree parent),
        (numberLayout l used).2) :=
  lowerLayoutWith_eq names (fun b _ => lowerBlock_eq names b) parent used

end Lowering

/-! ### Items -/

/-- What a component definition holds, numbered. -/
inductive NumberedBody where
  | layout (layout : NumberedLayout)
  | component (component : Ticket × ComponentBlock)

/-- An item with its ticket and a numbered body. Settings take no ticket. -/
inductive NumberedItem where
  | settings (block : SettingsBlock)
  | componentDefinition (ticket : Ticket) (head : DefinitionHead) (body : NumberedBody)
    (closing : Lexeme)
  | layoutDefinition (ticket : Ticket) (head : DefinitionHead) (layout : NumberedLayout)
    (closing : Lexeme)
  | screen (ticket : Ticket) (head : ScreenHead) (layout : NumberedLayout) (closing : Lexeme)

/-- Definitions of one name are numbered together. -/
def DefinitionHead.family (head : DefinitionHead) : IdFamily :=
  .definition (unquote head.name.text)

/-- Number the body of a component definition. -/
def DefinitionBody.number : DefinitionBody → Numbered NumberedBody
  | .layout l => do
    let n ← numberLayout l
    return .layout n
  | .component c => do
    let t ← ticket c.family
    return .component (t, c)

/-- Number an item and then its body. -/
def Item.number : Item → Numbered NumberedItem
  | .settings block => return .settings block
  | .definition (.component head body closing) => do
    let t ← ticket head.family
    let n ← body.number
    return .componentDefinition t head n closing
  | .definition (.layout head layout closing) => do
    let t ← ticket head.family
    let n ← numberLayout layout
    return .layoutDefinition t head n closing
  | .screen block => do
    let t ← ticket .screen
    let n ← numberLayout block.layout
    return .screen t block.head n block.closing

/-- Number items, one after the other. -/
def numberItems : List Item → Numbered (List NumberedItem)
  | [] => return []
  | item :: items => do
    let first ← item.number
    let others ← numberItems items
    return first :: others

/-- The body as a numbered block. -/
def NumberedBody.block : NumberedBody → NumberedBlock
  | .layout l => l.toTree
  | .component c => .component c

/-- What a numbered body stands for. -/
def NumberedBody.lowered : NumberedBody → Body
  | .layout l => .layout (NumberedLayout.lowered l)
  | .component c => .component (componentOf c)

namespace NumberedItem

/-- The definition that an item stands for. -/
def definition? : NumberedItem → Option Definition
  | .componentDefinition t head body _ =>
    some (.component ⟨unquote head.name.text, body.lowered, some t.id⟩)
  | .layoutDefinition t head l _ =>
    some (.layout ⟨unquote head.name.text, NumberedLayout.lowered l, some t.id⟩)
  | _ => none

/-- The screen that an item stands for. -/
def screen? : NumberedItem → Option Screen
  | .screen t head l _ =>
    some ⟨head.name.text, propertyValues (paramProperties head.params),
      NumberedLayout.lowered l, some t.id⟩
  | _ => none

end NumberedItem

/-- The draft of a definition. -/
def definitionDraft (t : Ticket) (head : DefinitionHead) (subject : Subject) (closing : Lexeme)
    (parent : NodeId) : Draft where
  id := t.id
  subject := subject
  parent := some parent
  whole := ⟨head.define, [closing]⟩
  keyword := ⟨head.define, [head.kind]⟩
  name := some head.name
  body := some (head.opening, closing)

/-- The draft of a screen. -/
def screenDraft (t : Ticket) (head : ScreenHead) (closing : Lexeme) (parent : NodeId) : Draft where
  id := t.id
  subject := .screen head.name.text
  parent := some parent
  whole := blockHull head.keyword head.params closing
  keyword := ⟨head.keyword, []⟩
  name := some head.name
  body := some (head.opening, closing)
  properties := some (valuedProperties (paramProperties head.params))

/-- The draft of all settings of one kind. -/
def settingsDraft (first : SettingsBlock) (written : List WrittenProperty) (parent : NodeId) :
    Draft where
  id := first.head.kind.subject.kind.name
  subject := first.head.kind.subject
  parent := some parent
  whole := ⟨first.head.keyword, [first.closing]⟩
  keyword := ⟨first.head.keyword, []⟩
  body := some (first.head.opening, first.closing)
  properties := some (settingProperties written)

/-- The drafts of an item and of its body. Settings are drafted all at once. -/
def NumberedItem.drafts (names : DefinedNames) (parent : NodeId) : NumberedItem → List Draft
  | .settings _ => []
  | .componentDefinition t head body closing =>
    definitionDraft t head (.componentDefinition (unquote head.name.text)) closing parent ::
      NumberedBlock.drafts names body.block t.id
  | .layoutDefinition t head l closing =>
    definitionDraft t head (.layoutDefinition (unquote head.name.text)) closing parent ::
      NumberedBlock.drafts names l.toTree t.id
  | .screen t head l closing =>
    screenDraft t head closing parent :: NumberedBlock.drafts names l.toTree t.id

/-- The drafts of numbered items. Settings of a kind in `seen` have had theirs. -/
def ProjectBlock.itemDrafts (project : ProjectBlock) (parent : NodeId)
    (seen : List SettingsKind) : List NumberedItem → List Draft
  | [] => []
  | .settings block :: others =>
    let rest := project.itemDrafts parent (block.head.kind :: seen) others
    if block.head.kind ∈ seen then rest
    else settingsDraft block (project.written block.head.kind) parent :: rest
  | item :: others =>
    item.drafts project.names parent ++ project.itemDrafts parent seen others

namespace ProjectBlock

/-- The drafts that an item adds to those of the items behind it. Settings are drafted once at
most. -/
inductive DraftedAs (project : ProjectBlock) (parent : NodeId) :
    NumberedItem → List Draft → Prop
  | item (item : NumberedItem) : DraftedAs project parent item (item.drafts project.names parent)
  | settings (block : SettingsBlock) : DraftedAs project parent (.settings block)
      [settingsDraft block (project.written block.head.kind) parent]

theorem itemDrafts_eq_append (project : ProjectBlock) (parent : NodeId) (seen : List SettingsKind)
    (item : NumberedItem) (items : List NumberedItem) :
    ∃ own seen', project.itemDrafts parent seen (item :: items) =
      own ++ project.itemDrafts parent seen' items ∧ DraftedAs project parent item own := by
  cases item with
  | settings block =>
    by_cases later : block.head.kind ∈ seen
    · exact ⟨[], _, by rw [itemDrafts, if_pos later]; rfl, .item _⟩
    · exact ⟨_, _, by rw [itemDrafts, if_neg later]; rfl, .settings block⟩
  | componentDefinition | layoutDefinition | screen => exact ⟨_, seen, rfl, .item _⟩

theorem exists_draftedAs {parent : NodeId} {seen : List SettingsKind} {items : List NumberedItem}
    {d : Draft} (inside : d ∈ project.itemDrafts parent seen items) :
    ∃ item ∈ items, ∃ own, DraftedAs project parent item own ∧ d ∈ own := by
  induction items generalizing seen with
  | nil => contradiction
  | cons item items ih =>
    obtain ⟨own, seen', drafts, drafted⟩ := itemDrafts_eq_append project parent seen item items
    rw [drafts] at inside
    rcases List.mem_append.mp inside with found | later
    · exact ⟨item, List.mem_cons_self, own, drafted, found⟩
    · obtain ⟨other, held, rest⟩ := ih later
      exact ⟨other, List.mem_cons_of_mem _ held, rest⟩

end ProjectBlock

/-! ### Lowering items -/

theorem DefinitionBlock.lower_eq (names : DefinedNames) (block : DefinitionBlock) (parent : NodeId)
    (used : List IdFamily) :
    some (block.lower names parent used).1.1 =
        ((Item.definition block).number used).1.definition? ∧
      (block.lower names parent used).1.2 =
        (((Item.definition block).number used).1.drafts names parent).map Draft.entry ∧
      (block.lower names parent used).2 = ((Item.definition block).number used).2 := by
  cases block with
  | component head body closing =>
    cases body with
    | layout l =>
      simp only [DefinitionBlock.lower, Numbered.bind_apply, Numbered.pure_apply, fresh_apply,
        lowerLayout_eq, Item.number, DefinitionBody.number, NumberedItem.definition?,
        NumberedItem.drafts, NumberedBody.lowered, NumberedBody.block, List.map_cons]
      exact ⟨rfl, rfl, rfl⟩
    | component c =>
      simp only [DefinitionBlock.lower, Numbered.bind_apply, Numbered.pure_apply, fresh_apply,
        lowerComponent_eq, Item.number, DefinitionBody.number, NumberedItem.definition?,
        NumberedItem.drafts, NumberedBody.lowered, NumberedBody.block, List.map_cons]
      exact ⟨rfl, rfl, rfl⟩
  | layout head l closing =>
    simp only [DefinitionBlock.lower, Numbered.bind_apply, Numbered.pure_apply, fresh_apply,
      lowerLayout_eq, Item.number, NumberedItem.definition?, NumberedItem.drafts, List.map_cons]
    exact ⟨rfl, rfl, rfl⟩

theorem ScreenBlock.lower_eq (names : DefinedNames) (block : ScreenBlock) (parent : NodeId)
    (used : List IdFamily) :
    some (block.lower names parent used).1.1 = ((Item.screen block).number used).1.screen? ∧
      (block.lower names parent used).1.2 =
        (((Item.screen block).number used).1.drafts names parent).map Draft.entry ∧
      (block.lower names parent used).2 = ((Item.screen block).number used).2 := by
  have entry : ∀ t, (screenDraft t block.head block.closing parent).entry =
      { id := t.id, parent := some parent
        subject := .screen block.head.name.text
        range := blockRange block.head.keyword block.head.params block.closing
        keywordRange := block.head.keyword.range
        nameRange := some block.head.name.range
        bodyRange := some (block.head.opening.range.union block.closing.range)
        properties := some (propertyPlaces (paramProperties block.head.params)) } := by
    intro t
    rw [Draft.entry, screenDraft, ← range_blockHull, ← placesOf_valuedProperties]
    rfl
  simp only [ScreenBlock.lower, Numbered.bind_apply, Numbered.pure_apply, fresh_apply,
    lowerLayout_eq, Item.number, NumberedItem.screen?, NumberedItem.drafts, List.map_cons, entry]
  exact ⟨trivial, rfl, trivial⟩

theorem entry_settingsDraft (first : SettingsBlock) (written : List WrittenProperty)
    (parent : NodeId) :
    (settingsDraft first written parent).entry = first.entry written parent := by
  rw [SettingsBlock.entry, ← placesOf_settingProperties]
  rfl

/-- What items become is read off the numbered items. -/
theorem ProjectBlock.lowerItems_eq (project : ProjectBlock) (parent : NodeId)
    (seen : List SettingsKind) (items : List Item) (used : List IdFamily) :
    project.lowerItems parent seen items used =
      (⟨(numberItems items used).1.filterMap NumberedItem.definition?,
        (numberItems items used).1.filterMap NumberedItem.screen?,
        (project.itemDrafts parent seen (numberItems items used).1).map Draft.entry⟩,
        (numberItems items used).2) := by
  induction items generalizing seen used with
  | nil => rfl
  | cons item items ih =>
    cases item with
    | settings block =>
      simp only [ProjectBlock.lowerItems, numberItems, Item.number, Numbered.bind_apply,
        Numbered.pure_apply, ih]
      -- Only the first settings of a kind have a draft.
      by_cases later : block.head.kind ∈ seen
      · rw [if_pos later, ProjectBlock.itemDrafts, if_pos later]
        rfl
      · rw [if_neg later, ProjectBlock.itemDrafts, if_neg later, List.map_cons,
          entry_settingsDraft]
        rfl
    | definition block =>
      obtain ⟨lowered, entries, numbered⟩ := block.lower_eq project.names parent used
      simp only [ProjectBlock.lowerItems, numberItems, Numbered.bind_apply, Numbered.pure_apply,
        ih, entries, numbered]
      generalize ((Item.definition block).number used).1 = item at lowered ⊢
      cases item with
      | settings | screen => contradiction
      | componentDefinition | layoutDefinition =>
        rw [List.filterMap_cons_some lowered.symm, List.filterMap_cons_none rfl,
          ProjectBlock.itemDrafts, List.map_append]
        intro _ found
        contradiction
    | screen block =>
      obtain ⟨lowered, entries, numbered⟩ := block.lower_eq project.names parent used
      simp only [ProjectBlock.lowerItems, numberItems, Numbered.bind_apply, Numbered.pure_apply,
        ih, entries, numbered]
      generalize ((Item.screen block).number used).1 = item at lowered ⊢
      cases item with
      | settings | componentDefinition | layoutDefinition => contradiction
      | screen =>
        rw [List.filterMap_cons_none rfl, List.filterMap_cons_some lowered.symm,
          ProjectBlock.itemDrafts, List.map_append]
        intro _ found
        contradiction

/-- The items of a project with their tickets. -/
def ProjectBlock.numbered (project : ProjectBlock) : List NumberedItem :=
  (numberItems project.items []).1

/-- The draft of a project. -/
def ProjectBlock.draft (project : ProjectBlock) : Draft where
  id := NodeKind.project.name
  subject := .project (unquote project.head.name.text)
  parent := none
  whole := ⟨project.head.keyword, [project.closing]⟩
  keyword := ⟨project.head.keyword, []⟩
  name := some project.head.name
  body := some (project.head.opening, project.closing)

/-- The drafts of a project and of everything in it. -/
def ProjectBlock.drafts (project : ProjectBlock) : List Draft :=
  project.draft :: project.itemDrafts NodeKind.project.name [] project.numbered

/-- What a project becomes, read off its numbered items. -/
def ProjectBlock.lowered (project : ProjectBlock) : Project where
  name := unquote project.head.name.text
  style := settingValues (project.written .style)
  mocks := settingValues (project.written .mocks)
  colors := settingValues (project.written .colors)
  definitions := project.numbered.filterMap NumberedItem.definition?
  screens := project.numbered.filterMap NumberedItem.screen?
  id := some NodeKind.project.name

/-- What a project becomes is read off its numbered items. -/
theorem ProjectBlock.lower_eq (project : ProjectBlock) :
    project.lower = (project.lowered, project.drafts.map Draft.entry) := by
  rw [ProjectBlock.lower, ProjectBlock.lowerItems_eq, ProjectBlock.drafts, List.map_cons]
  rfl

/-- The entry of a draft of a project, with its insertion point. -/
def ProjectBlock.placed (project : ProjectBlock) (text : List Char) (d : Draft) : Entry :=
  { d.entry with
    insertion := d.entry.insertionPoint? (LineIndex.ofText text) (project.drafts.map Draft.entry) }

/-- What a project becomes and its source map are read off its numbered items. -/
theorem ProjectBlock.build_eq (project : ProjectBlock) (text : List Char) :
    project.build text = (project.lowered, ⟨project.drafts.map (project.placed text)⟩) := by
  simp only [ProjectBlock.build, ProjectBlock.lower_eq, SourceMap.ofEntries, List.map_map]
  rfl

end Wireframe
