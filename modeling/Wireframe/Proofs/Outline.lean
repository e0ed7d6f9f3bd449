import Wireframe.Proofs.DraftOrder
import Wireframe.Proofs.Grafting

/-!
# What a project becomes depends on its tokens alone

Where tokens stand decides neither what a project means nor what its source map lists. Numbering,
values and drafts come out alike if the tokens are moved, and so does the choice of the child behind
which one more can be written. So all of a source map but the places is read off the bare tokens.

## Main definitions

* `Entry.unplaced`, `SourceMap.unplaced` — entries and maps without places.
* `ProjectBlock.outline` — the source map of a project without places.

## Main results

* `ProjectBlock.lowered_bare` — what a project becomes.
* `ProjectBlock.drafts_bare` — its drafts.
* `ProjectBlock.unplaced_build` — its source map.
-/

namespace Wireframe

/-! ### Numbered blocks -/

/-- A component with its ticket, of which the tokens stand nowhere. -/
def bareComponent (c : Ticket × ComponentBlock) : Ticket × ComponentBlock :=
  (c.1, c.2.bare)

/-- A layout with its ticket, of which the tokens stand nowhere. -/
def bareLayout (l : Ticket × Closed LayoutHead) : Ticket × Closed LayoutHead :=
  (l.1, l.2.bare LayoutHead.bare)

/-- A cell with its ticket, of which the tokens stand nowhere. -/
def bareCell (k : Ticket × Closed CellHead) : Ticket × Closed CellHead :=
  (k.1, k.2.bare CellHead.bare)

/-- A numbered block with tokens that stand nowhere. -/
def NumberedBlock.bare : NumberedBlock → NumberedBlock :=
  Tree.map bareComponent bareLayout bareCell

/-- A numbered layout with tokens that stand nowhere. -/
def NumberedLayout.bare (l : NumberedLayout) : NumberedLayout :=
  ⟨bareLayout l.layout, l.children.map NumberedBlock.bare⟩

/-- A block with tokens that stand nowhere. -/
def Block.bare : Block → Block :=
  Block.grafted .nothing

/-- Numbering does not depend on where tokens stand. -/
def NumbersAlike (b : Block) : Prop :=
  ∀ used, number (Block.bare b) used =
    (NumberedBlock.bare (number b used).1, (number b used).2)

theorem numberAll_bare {blocks : List Block} (each : ∀ b ∈ blocks, NumbersAlike b)
    (used : List IdFamily) :
    numberAll (blocks.map Block.bare) used =
      ((numberAll blocks used).1.map NumberedBlock.bare, (numberAll blocks used).2) := by
  induction blocks generalizing used with
  | nil => rfl
  | cons b blocks ih =>
    obtain ⟨first, others⟩ := List.forall_mem_cons.mp each
    simp only [List.map_cons, numberAll, Numbered.bind_apply, Numbered.pure_apply, first used,
      ih others]

theorem number_bare (b : Block) : NumbersAlike b := by
  induction b using Tree.induction with
  | component c =>
    intro used
    rw [Block.bare, Block.grafted_component]
    rfl
  | layout l blocks ih =>
    intro used
    have inside := numberAll_bare ih (ticket l.head.family used).2
    rw [Block.bare] at inside ⊢
    rw [Block.grafted_layout, Graft.nothing, List.append_nil]
    simp only [number, Numbered.bind_apply, Numbered.pure_apply, NumberedBlock.bare, Tree.map,
      Tree.fold_layout]
    exact congrArg (fun n => (Tree.layout _ n.1, n.2)) inside
  | cell k blocks ih =>
    intro used
    have inside := numberAll_bare ih (ticket .cell used).2
    rw [Block.bare] at inside ⊢
    rw [Block.grafted_cell, Graft.nothing, List.append_nil]
    simp only [number, Numbered.bind_apply, Numbered.pure_apply, NumberedBlock.bare, Tree.map,
      Tree.fold_cell]
    exact congrArg (fun n => (Tree.cell _ n.1, n.2)) inside

theorem numberLayout_bare (l : LayoutBlock) (used : List IdFamily) :
    numberLayout (LayoutBlock.grafted .nothing l) used =
      (NumberedLayout.bare (numberLayout l used).1, (numberLayout l used).2) := by
  have inside := numberAll_bare (fun b (_ : b ∈ l.children) => number_bare b)
    (ticket l.layout.head.family used).2
  rw [Block.bare] at inside
  rw [LayoutBlock.grafted, Graft.nothing, List.append_nil]
  simp only [numberLayout, Numbered.bind_apply, Numbered.pure_apply, NumberedLayout.bare]
  exact congrArg (fun n => (Rooted.mk _ n.1, n.2)) inside

/-- A numbered body with tokens that stand nowhere. -/
def NumberedBody.bare : NumberedBody → NumberedBody
  | .layout l => .layout (NumberedLayout.bare l)
  | .component c => .component (bareComponent c)

/-- A numbered item with tokens that stand nowhere. -/
def NumberedItem.bare : NumberedItem → NumberedItem
  | .settings block => .settings block.bare
  | .componentDefinition t head body closing =>
    .componentDefinition t head.bare body.bare closing.bare
  | .layoutDefinition t head l closing =>
    .layoutDefinition t head.bare (NumberedLayout.bare l) closing.bare
  | .screen t head l closing => .screen t head.bare (NumberedLayout.bare l) closing.bare

theorem Item.number_bare (item : Item) (used : List IdFamily) :
    (item.grafted .nothing).number used =
      ((item.number used).1.bare, (item.number used).2) := by
  match item with
  | .settings block => rfl
  | .definition (.component head (.layout l) closing) =>
    have inside := numberLayout_bare l (ticket head.family used).2
    exact congrArg (fun n => (NumberedItem.componentDefinition _ _ (.layout n.1) _, n.2)) inside
  | .definition (.component head (.component c) closing) => rfl
  | .definition (.layout head l closing) =>
    have inside := numberLayout_bare l (ticket head.family used).2
    exact congrArg (fun n => (NumberedItem.layoutDefinition _ _ n.1 _, n.2)) inside
  | .screen block =>
    have inside := numberLayout_bare block.layout (ticket .screen used).2
    exact congrArg (fun n => (NumberedItem.screen _ _ n.1 _, n.2)) inside

theorem numberItems_bare (items : List Item) (used : List IdFamily) :
    numberItems (items.map (Item.grafted .nothing)) used =
      ((numberItems items used).1.map NumberedItem.bare, (numberItems items used).2) := by
  induction items generalizing used with
  | nil => rfl
  | cons item items ih =>
    simp only [List.map_cons, numberItems, Numbered.bind_apply, Numbered.pure_apply,
      item.number_bare, ih]

/-- The numbered items of a project do not depend on where tokens stand. -/
theorem ProjectBlock.numbered_bare (project : ProjectBlock) :
    project.bare.numbered = project.numbered.map NumberedItem.bare :=
  congrArg Prod.fst (numberItems_bare project.items [])

/-! ### What blocks become -/

theorem propertyValues_bare (written : List WrittenProperty) :
    propertyValues (written.map WrittenProperty.bare) = propertyValues written := by
  rw [propertyValues, List.map_map]
  rfl

theorem settingValues_bare (written : List WrittenProperty) :
    settingValues (written.map WrittenProperty.bare) = settingValues written := by
  rw [settingValues, List.map_map]
  rfl

theorem paramProperties_bare (params : Option ParamList) :
    paramProperties (params.map ParamList.bare) =
      (paramProperties params).map WrittenProperty.bare := by
  cases params <;> rfl

theorem componentOf_bare (c : Ticket × ComponentBlock) :
    componentOf (bareComponent c) = componentOf c := by
  simp only [componentOf, bareComponent, ComponentBlock.bare, propertyValues_bare,
    Lexeme.text_bare]

theorem layoutNodeOf_bare (l : Ticket × Closed LayoutHead) :
    layoutNodeOf (bareLayout l) = layoutNodeOf l := by
  simp only [layoutNodeOf, bareLayout, Closed.bare, LayoutHead.bare, paramProperties_bare,
    propertyValues_bare, Lexeme.text_bare]

theorem cellNodeOf_bare (k : Ticket × Closed CellHead) :
    cellNodeOf (bareCell k) = cellNodeOf k := by
  simp only [cellNodeOf, bareCell, Closed.bare, CellHead.bare, propertyValues_bare]

/-- The element that a block stands for does not depend on where tokens stand. -/
theorem element_bare (n : NumberedBlock) :
    NumberedBlock.element (NumberedBlock.bare n) = NumberedBlock.element n := by
  have component : componentOf ∘ bareComponent = componentOf := funext componentOf_bare
  have layout : layoutNodeOf ∘ bareLayout = layoutNodeOf := funext layoutNodeOf_bare
  have cell : cellNodeOf ∘ bareCell = cellNodeOf := funext cellNodeOf_bare
  rw [NumberedBlock.element, NumberedBlock.bare, Tree.map_map, component, layout, cell]

theorem lowered_bareLayout (l : NumberedLayout) :
    NumberedLayout.lowered (NumberedLayout.bare l) = NumberedLayout.lowered l := by
  have elements : NumberedBlock.element ∘ NumberedBlock.bare = NumberedBlock.element :=
    funext element_bare
  rw [NumberedLayout.lowered, NumberedLayout.bare, layoutNodeOf_bare, List.map_map, elements]
  rfl

theorem NumberedBody.lowered_bare (body : NumberedBody) : body.bare.lowered = body.lowered := by
  cases body with
  | layout l => exact congrArg Body.layout (lowered_bareLayout l)
  | component c => exact congrArg Body.component (componentOf_bare c)

theorem NumberedItem.definition?_bare (item : NumberedItem) :
    item.bare.definition? = item.definition? := by
  cases item with
  | settings | screen => rfl
  | componentDefinition t head body closing =>
    rw [bare, definition?, body.lowered_bare]
    rfl
  | layoutDefinition t head l closing =>
    rw [bare, definition?, lowered_bareLayout]
    rfl

theorem NumberedItem.screen?_bare (item : NumberedItem) : item.bare.screen? = item.screen? := by
  cases item with
  | settings | componentDefinition | layoutDefinition => rfl
  | screen t head l closing =>
    rw [bare, screen?, lowered_bareLayout, ScreenHead.bare, paramProperties_bare,
      propertyValues_bare]
    rfl

namespace ProjectBlock

variable (project : ProjectBlock)

theorem settings_grafted (graft : Graft) (kind : SettingsKind) :
    (project.grafted graft).settings kind = (project.settings kind).map SettingsBlock.bare := by
  rw [settings, settings, grafted, List.filterMap_map, List.map_filterMap]
  refine List.filterMap_congr fun item _ => ?_
  match item with
  | .settings block => exact (Option.map_if).symm
  | .definition (.component _ _ _) | .definition (.layout _ _ _) | .screen _ => rfl

/-- Nothing is grafted into settings. -/
theorem written_grafted (graft : Graft) (kind : SettingsKind) :
    (project.grafted graft).written kind = (project.written kind).map WrittenProperty.bare := by
  rw [written, written, settings_grafted, List.flatMap_map, List.map_flatMap]
  rfl

theorem written_bare (kind : SettingsKind) :
    project.bare.written kind = (project.written kind).map WrittenProperty.bare :=
  project.written_grafted .nothing kind

theorem names_bare : project.bare.names = project.names := by
  simp only [names, definitions, bare, grafted, List.filterMap_filterMap, List.filterMap_map]
  congr 1
  all_goals
    refine List.filterMap_congr fun item _ => ?_
    match item with
    | .settings _ | .definition (.component _ _ _) | .definition (.layout _ _ _) | .screen _ => rfl

/-- What a project becomes does not depend on where its tokens stand. -/
theorem lowered_bare : project.bare.lowered = project.lowered := by
  simp only [lowered, written_bare, settingValues_bare, numbered_bare, List.filterMap_map,
    Function.comp_def, NumberedItem.definition?_bare, NumberedItem.screen?_bare]
  rfl

end ProjectBlock

/-! ### Drafts -/

/-- A hull with tokens that stand nowhere. -/
def Hull.bare (h : Hull) : Hull :=
  ⟨h.first.bare, h.others.map Lexeme.bare⟩

/-- A property with tokens that stand nowhere. -/
def PropertyDraft.bare (p : PropertyDraft) : PropertyDraft :=
  ⟨p.written.bare, p.value⟩

/-- A draft with tokens that stand nowhere. -/
def Draft.bare (d : Draft) : Draft where
  id := d.id
  subject := d.subject
  parent := d.parent
  whole := d.whole.bare
  keyword := d.keyword.bare
  name := d.name.map Lexeme.bare
  body := d.body.map fun braces => (braces.1.bare, braces.2.bare)
  properties := d.properties.map (·.map PropertyDraft.bare)

theorem valuedProperties_bare (written : List WrittenProperty) :
    valuedProperties (written.map WrittenProperty.bare) =
      (valuedProperties written).map PropertyDraft.bare := by
  simp only [valuedProperties, List.map_map]
  rfl

theorem settingProperties_bare (written : List WrittenProperty) :
    settingProperties (written.map WrittenProperty.bare) =
      (settingProperties written).map PropertyDraft.bare := by
  simp only [settingProperties, List.map_map]
  rfl

theorem blockHull_bare (keyword closing : Lexeme) (params : Option ParamList) :
    blockHull keyword.bare (params.map ParamList.bare) closing.bare =
      (blockHull keyword params closing).bare := by
  cases params <;> rfl

theorem ComponentBlock.last_bare (c : ComponentBlock) : c.bare.last = c.last.bare := by
  rw [last, last, bare, List.getLast?_map]
  cases c.properties.getLast? <;> rfl

section Drafts

variable (names : DefinedNames)

theorem draft_bare (n : NumberedBlock) (parent : NodeId) :
    NumberedBlock.draft names (NumberedBlock.bare n) parent =
      (NumberedBlock.draft names n parent).bare := by
  cases n with
  | component c =>
    have last := c.2.last_bare
    have properties : valuedProperties c.2.bare.properties =
        (valuedProperties c.2.properties).map PropertyDraft.bare :=
      valuedProperties_bare c.2.properties
    rw [NumberedBlock.bare, Tree.map_component]
    simp only [NumberedBlock.draft, componentDraft, bareComponent, last, properties]
    rfl
  | layout l trees =>
    rw [NumberedBlock.bare, Tree.map_layout, NumberedBlock.draft, NumberedBlock.draft,
      layoutDraft, layoutDraft, bareLayout]
    simp only [Closed.bare, LayoutHead.bare, blockHull_bare, paramProperties_bare,
      valuedProperties_bare]
    rfl
  | cell k trees =>
    rw [NumberedBlock.bare, Tree.map_cell, NumberedBlock.draft, NumberedBlock.draft,
      cellDraft, cellDraft, bareCell]
    simp only [Closed.bare, CellHead.bare, valuedProperties_bare]
    rfl

theorem ticket_bare (n : NumberedBlock) :
    NumberedBlock.ticket (NumberedBlock.bare n) = NumberedBlock.ticket n := by
  cases n with
  | component c =>
    rw [NumberedBlock.bare, Tree.map_component]
    rfl
  | layout l trees =>
    rw [NumberedBlock.bare, Tree.map_layout]
    rfl
  | cell k trees =>
    rw [NumberedBlock.bare, Tree.map_cell]
    rfl

/-- The drafts of a block, with tokens that stand nowhere. -/
theorem blockDrafts_bare (n : NumberedBlock) (parent : NodeId) :
    NumberedBlock.drafts names (NumberedBlock.bare n) parent =
      (NumberedBlock.drafts names n parent).map Draft.bare := by
  have below : ∀ link : NumberedBlock × NumberedBlock,
      NumberedBlock.draft names (NumberedBlock.bare link.2)
        (NumberedBlock.ticket (NumberedBlock.bare link.1)).id =
      (NumberedBlock.draft names link.2 (NumberedBlock.ticket link.1).id).bare := by
    intro link
    rw [ticket_bare, draft_bare]
  have links : (NumberedBlock.bare n).links =
      n.links.map (Prod.map NumberedBlock.bare NumberedBlock.bare) :=
    Tree.links_map _ _ _ n
  rw [NumberedBlock.drafts, NumberedBlock.drafts, draft_bare, links, List.map_map, List.map_cons,
    List.map_map]
  exact congrArg _ (List.map_congr_left fun link _ => below link)

theorem toTree_bare (l : NumberedLayout) :
    (NumberedLayout.bare l).toTree = NumberedBlock.bare l.toTree := by
  rw [Rooted.toTree, Rooted.toTree, NumberedBlock.bare, Tree.map_layout]
  rfl

theorem NumberedBody.block_bare (body : NumberedBody) :
    body.bare.block = NumberedBlock.bare body.block := by
  cases body with
  | layout l => exact toTree_bare l
  | component c =>
    rw [block, NumberedBlock.bare, Tree.map_component]
    rfl

/-- The drafts of an item, with tokens that stand nowhere. -/
theorem NumberedItem.drafts_bare (item : NumberedItem) (parent : NodeId) :
    item.bare.drafts names parent = (item.drafts names parent).map Draft.bare := by
  cases item with
  | settings => rfl
  | componentDefinition t head body closing =>
    rw [bare, drafts, drafts, body.block_bare, blockDrafts_bare]
    rfl
  | layoutDefinition t head l closing =>
    rw [bare, drafts, drafts, toTree_bare, blockDrafts_bare]
    rfl
  | screen t head l closing =>
    rw [bare, drafts, drafts, toTree_bare, blockDrafts_bare, screenDraft, screenDraft,
      ScreenHead.bare]
    simp only [blockHull_bare, paramProperties_bare, valuedProperties_bare]
    rfl

end Drafts

namespace ProjectBlock

variable (project : ProjectBlock)

theorem itemDrafts_bare (parent : NodeId) (seen : List SettingsKind) (items : List NumberedItem) :
    project.bare.itemDrafts parent seen (items.map NumberedItem.bare) =
      (project.itemDrafts parent seen items).map Draft.bare := by
  induction items generalizing seen with
  | nil => rfl
  | cons item items ih =>
    cases item with
    | settings block =>
      have first : settingsDraft block.bare (project.bare.written block.bare.head.kind) parent =
          (settingsDraft block (project.written block.head.kind) parent).bare := by
        rw [written_bare, settingsDraft, settingsDraft, settingProperties_bare]
        rfl
      have kind : block.bare.head.kind = block.head.kind := rfl
      rw [List.map_cons, NumberedItem.bare, itemDrafts, itemDrafts, first, kind, ih]
      split <;> rfl
    | componentDefinition | layoutDefinition | screen =>
      refine (congrArg₂ (· ++ ·) ?_ (ih seen)).trans List.map_append.symm
      rw [names_bare]
      exact NumberedItem.drafts_bare project.names _ parent

/-- The drafts of a project, with tokens that stand nowhere. -/
theorem drafts_bare : project.bare.drafts = project.drafts.map Draft.bare := by
  rw [drafts, drafts, numbered_bare, itemDrafts_bare]
  rfl

end ProjectBlock

/-! ### Source maps -/

namespace OrderedMap

variable {α β : Type} (f : α → β)

theorem mapValues_insert (m : OrderedMap α) (key : String) (value : α) :
    (m.insert key value).mapValues f = (m.mapValues f).insert key (f value) := by
  have keys : (m.mapValues f).entries.map Prod.fst = m.entries.map Prod.fst := by
    simp [mapValues, Function.comp_def]
  unfold insert
  by_cases present : key ∈ m.entries.map Prod.fst
  · rw [dif_pos present, dif_pos (keys ▸ present)]
    simp only [mapValues, replaceIn, List.map_map, mk.injEq]
    refine List.map_congr_left fun entry _ => ?_
    by_cases same : entry.1 = key <;> simp [same]
  · rw [dif_neg present, dif_neg (keys ▸ present)]
    simp [mapValues]

/-- Values may be changed before they are written. -/
theorem mapValues_ofList (writes : List (String × α)) :
    (ofList writes).mapValues f = ofList (writes.map fun write => (write.1, f write.2)) := by
  induction writes using List.reverseRecOn with
  | nil => rfl
  | append_singleton writes write ih =>
    rw [ofList] at ih ⊢
    rw [List.foldl_append, List.foldl_cons, List.foldl_nil, mapValues_insert, ih, List.map_append]
    simp only [ofList, List.foldl_append, List.map_cons, List.map_nil, List.foldl_cons,
      List.foldl_nil]

end OrderedMap

/-- A property without its place. -/
def PropertyPlace.unplaced (p : PropertyPlace) : PropertyPlace :=
  { p with range := {}, nameRange := {}, valueRange := {} }

/-- An insertion point without its place: only the child that is followed is kept. -/
def InsertionPoint.unplaced (point : InsertionPoint) : InsertionPoint :=
  { point with line := 0, column := 0, indentation := "" }

/-- An entry without its places. Whether there is one is kept. -/
def Entry.unplaced (e : Entry) : Entry where
  id := e.id
  subject := e.subject
  parent := e.parent
  range := {}
  keywordRange := {}
  nameRange := e.nameRange.map fun _ => {}
  bodyRange := e.bodyRange.map fun _ => {}
  properties := e.properties.map (·.mapValues PropertyPlace.unplaced)
  insertion := e.insertion.map InsertionPoint.unplaced

/-- A source map without places. -/
def SourceMap.unplaced (map : SourceMap) : SourceMap :=
  ⟨map.entries.map Entry.unplaced⟩

theorem Hull.range_bare (h : Hull) : h.bare.range = {} := by
  have rest : ∀ others : List Lexeme, (others.map Lexeme.bare).foldl
      (fun range l => range.union l.range) ({} : CodeRange) = {} := by
    intro others
    induction others with
    | nil => rfl
    | cons l others ih => exact ih
  exact rest h.others

theorem placesOf_bare (properties : List PropertyDraft) :
    placesOf (properties.map PropertyDraft.bare) =
      (placesOf properties).mapValues PropertyPlace.unplaced := by
  rw [placesOf, placesOf, OrderedMap.mapValues_ofList, List.map_map, List.map_map]
  rfl

/-- What stands nowhere has an entry without places. -/
theorem Draft.entry_bare (d : Draft) : d.bare.entry = d.entry.unplaced := by
  have places : (d.properties.map (·.map PropertyDraft.bare)).map placesOf =
      (d.properties.map placesOf).map (·.mapValues PropertyPlace.unplaced) := by
    rw [Option.map_map, Option.map_map]
    exact Option.map_congr fun properties _ => placesOf_bare properties
  simp only [entry, bare, Entry.unplaced, Hull.range_bare, Option.map_map, Option.map_none]
  simp only [Option.map_map] at places
  rw [places]
  rfl

namespace ProjectBlock

/-- The source map of a project without places, in which the last child of a container is the one
that has the last draft. -/
def outline (project : ProjectBlock) : SourceMap where
  entries := project.drafts.map fun d =>
    { d.entry with
      insertion :=
        if d.subject.kind.isContainer then
          some ⟨0, 0, "", ((project.drafts.filter (·.parent == some d.id)).getLast?).map Draft.id⟩
        else none }

theorem unplaced_insertionPoint? (index : LineIndex) (entries : List Entry) (e : Entry) :
    (e.insertionPoint? index entries).map InsertionPoint.unplaced =
      if e.kind.isContainer then some ⟨0, 0, "", (lastChild? entries e.id).map Entry.id⟩
      else none := by
  unfold Entry.insertionPoint?
  by_cases container : e.kind.isContainer
  · rw [if_pos container, if_pos container]
    cases lastChild? entries e.id <;> rfl
  · rw [if_neg container, if_neg container]
    rfl

/-- The source map of a text that was read is outlined by its tokens, wherever they stand. -/
theorem unplaced_build {text : List Char} {project : ProjectBlock}
    (read : ProjectBlock.ofLexemes (scan text).lexemes = .ok project) :
    (project.build text).2.unplaced = project.bare.outline := by
  -- Only the choice of the last child looks at places, and the order of drafts tells it as well.
  have children : ∀ id, ((project.bare.drafts.filter (·.parent == some id)).getLast?).map Draft.id =
      (lastChild? (project.drafts.map Draft.entry) id).map Entry.id := by
    intro id
    rw [lastChild?_of_read read, drafts_bare, List.filter_map, List.getLast?_map, Option.map_map,
      Option.map_map]
    rfl
  have each : ∀ d, (project.placed text d).unplaced =
      { d.bare.entry with
        insertion :=
          if d.bare.subject.kind.isContainer then
            some ⟨0, 0, "",
              ((project.bare.drafts.filter (·.parent == some d.bare.id)).getLast?).map Draft.id⟩
          else none } := by
    intro d
    rw [children, Draft.entry_bare, placed, Entry.unplaced, unplaced_insertionPoint?]
    rfl
  rw [build_eq, SourceMap.unplaced, outline, List.map_map]
  simp only [drafts_bare, List.map_map] at each ⊢
  exact congrArg _ (List.map_congr_left fun d _ => each d)

end ProjectBlock

end Wireframe
