import Wireframe.Proofs.Outline
import Wireframe.Proofs.ProjectBlocks

/-!
# Appending to a part of a project

A component is appended to the layout or cell with a given id, behind the children that it has. In
blocks this is a graft in front of a closing brace. Both come to the same once ids are dropped: what
is left of a project then depends on its blocks alone, without their tickets.

## Main definitions

* `Project.append` — a project with a component appended to the part with an id.
* `ProjectBlock.plain` — what a project becomes, without ids.
* `Graft.Appends` — a graft puts the component in front of the braces of that part.

## Main results

* `ProjectBlock.clearIds_lowered` — what a project becomes without ids.
* `ProjectBlock.clearIds_append` — appending is grafting.
-/

namespace Wireframe

/-! ### Appending -/

section Append

variable (id : NodeId) (c : Component)

/-- What is put behind the children of a part that bears an id. -/
def behindChildren (own : Option NodeId) : List Element :=
  if own = some id then [.component c] else []

/-- The element with the component appended to the layout or cell with the id. -/
def appendTree : Element → Element :=
  Tree.fold (fun own => .component own)
    (fun l inside => .layout l (inside ++ behindChildren id c l.id))
    (fun k inside => .cell k (inside ++ behindChildren id c k.id))

/-- The layout with the component appended. -/
def appendLayout (l : Layout) : Layout :=
  ⟨l.layout, l.children.map (appendTree id c) ++ behindChildren id c l.layout.id⟩

/-- The screen with the component appended. -/
def Screen.append (s : Screen) : Screen :=
  { s with layout := appendLayout id c s.layout }

/-- The body with the component appended. -/
def Body.append : Body → Body
  | .layout l => .layout (appendLayout id c l)
  | .component own => .component own

/-- The definition with the component appended. -/
def Definition.append : Definition → Definition
  | .component d => .component { d with body := d.body.append id c }
  | .layout d => .layout { d with layout := appendLayout id c d.layout }

/-- The project with the component appended to the layout or cell with the id. -/
def Project.append (project : Project) : Project :=
  { project with
    definitions := project.definitions.map (Definition.append id c)
    screens := project.screens.map (Screen.append id c) }

end Append

/-! ### What blocks become without ids -/

/-- The component of a block, without its id. -/
def ComponentBlock.plain (c : ComponentBlock) : Component :=
  ⟨c.kind.text, propertyValues c.properties, none⟩

/-- The layout of a block, without its id and apart from its children. -/
def LayoutHead.plain (head : LayoutHead) : LayoutNode :=
  ⟨head.kind.text, propertyValues (paramProperties head.params), none⟩

/-- The cell of a block, without its id and apart from its children. -/
def CellHead.plain (head : CellHead) : CellNode :=
  ⟨propertyValues head.properties, none⟩

/-- The element of a block, without ids. -/
def Block.plain : Block → Element :=
  Tree.map ComponentBlock.plain (·.head.plain) (·.head.plain)

/-- The layout of a block, without ids. -/
def LayoutBlock.plain (l : LayoutBlock) : Layout :=
  ⟨l.layout.head.plain, l.children.map Block.plain⟩

/-- What the body of a component definition becomes, without ids. -/
def DefinitionBody.plain : DefinitionBody → Body
  | .layout l => .layout (LayoutBlock.plain l)
  | .component c => .component c.plain

/-- The definition that an item becomes, without ids. -/
def Item.plainDefinition? : Item → Option Definition
  | .definition (.component head body _) =>
    some (.component ⟨unquote head.name.text, body.plain, none⟩)
  | .definition (.layout head l _) =>
    some (.layout ⟨unquote head.name.text, LayoutBlock.plain l, none⟩)
  | _ => none

/-- The screen that an item becomes, without ids. -/
def Item.plainScreen? : Item → Option Screen
  | .screen block =>
    some ⟨block.head.name.text, propertyValues (paramProperties block.head.params),
      LayoutBlock.plain block.layout, none⟩
  | _ => none

/-- What a project becomes, without ids. -/
def ProjectBlock.plain (project : ProjectBlock) : Project where
  name := unquote project.head.name.text
  style := settingValues (project.written .style)
  mocks := settingValues (project.written .mocks)
  colors := settingValues (project.written .colors)
  definitions := project.items.filterMap Item.plainDefinition?
  screens := project.items.filterMap Item.plainScreen?
  id := none

theorem clearTree_element (n : NumberedBlock) :
    clearTree (NumberedBlock.element n) = Block.plain (NumberedBlock.erase n) := by
  rw [clearTree, NumberedBlock.element, Block.plain, NumberedBlock.erase, Tree.map_map,
    Tree.map_map]
  rfl

theorem clearLayout_lowered (l : NumberedLayout) :
    clearLayout (NumberedLayout.lowered l) = LayoutBlock.plain (NumberedLayout.erase l) := by
  rw [clearLayout, NumberedLayout.lowered, LayoutBlock.plain, NumberedLayout.erase, List.map_map,
    List.map_map]
  exact congrArg _ (List.map_congr_left fun n _ => clearTree_element n)

theorem NumberedBody.clearIds_lowered (body : NumberedBody) :
    body.lowered.clearIds = body.erase.plain := by
  cases body with
  | layout l => exact congrArg Body.layout (clearLayout_lowered l)
  | component c => rfl

theorem NumberedItem.clearIds_definition? (item : NumberedItem) :
    item.definition?.map Definition.clearIds = item.erase.plainDefinition? := by
  cases item with
  | settings | screen => rfl
  | componentDefinition t head body closing =>
    have same := body.clearIds_lowered
    simp only [definition?, Option.map_some, Definition.clearIds, same]
    rfl
  | layoutDefinition t head l closing =>
    have same := clearLayout_lowered l
    simp only [definition?, Option.map_some, Definition.clearIds, same]
    rfl

theorem NumberedItem.clearIds_screen? (item : NumberedItem) :
    item.screen?.map Screen.clearIds = item.erase.plainScreen? := by
  cases item with
  | settings | componentDefinition | layoutDefinition => rfl
  | screen t head l closing =>
    have same := clearLayout_lowered l
    simp only [screen?, Option.map_some, Screen.clearIds, same]
    rfl

/-- What is read off the items of a project is read off its numbered items. -/
theorem ProjectBlock.filterMap_items {α : Type} (project : ProjectBlock) (f : Item → Option α) :
    project.items.filterMap f = project.numbered.filterMap fun item => f item.erase := by
  rw [← project.map_erase_numbered, List.filterMap_map]
  rfl

/-- What a project becomes without ids. -/
theorem ProjectBlock.clearIds_lowered (project : ProjectBlock) :
    project.lowered.clearIds = project.plain := by
  rw [plain, filterMap_items, filterMap_items]
  simp only [lowered, Project.clearIds, List.map_filterMap, NumberedItem.clearIds_definition?,
    NumberedItem.clearIds_screen?]

/-! ### Grafting is appending -/

/-- A graft puts the component in front of the brace of the block with the id, and nothing in front
of those of other blocks. -/
def Graft.Appends (graft : Graft) (id : NodeId) (c : Component) (n : NumberedBlock) : Prop :=
  ∀ l, NumberedBlock.closing? n = some l →
    (graft l).map Block.plain =
      (behindChildren id c (some (NumberedBlock.ticket n).id)).map clearTree

section Grafted

variable {graft : Graft} {id : NodeId} {c : Component}

theorem ComponentBlock.plain_bare (c : ComponentBlock) : c.bare.plain = c.plain := by
  rw [plain, plain, bare, propertyValues_bare]
  rfl

theorem LayoutHead.plain_bare (head : LayoutHead) : head.bare.plain = head.plain := by
  rw [plain, plain, bare, paramProperties_bare, propertyValues_bare]
  rfl

theorem CellHead.plain_bare (head : CellHead) : head.bare.plain = head.plain := by
  rw [plain, plain, bare, propertyValues_bare]

/-- Without ids, the element with the component appended is that of the grafted block. -/
theorem clearTree_appendTree {n : NumberedBlock} (appends : ∀ m ∈ n.walk, graft.Appends id c m) :
    clearTree (appendTree id c (NumberedBlock.element n)) =
      Block.plain (Block.grafted graft (NumberedBlock.erase n)) := by
  -- Children that agree one by one agree with what is put behind them.
  have inside : ∀ {trees : List NumberedBlock} {behind : List Element} {extra : List Block},
      (∀ n ∈ trees, clearTree (appendTree id c (NumberedBlock.element n)) =
        Block.plain (Block.grafted graft (NumberedBlock.erase n))) →
      extra.map Block.plain = behind.map clearTree →
      ((trees.map NumberedBlock.element).map (appendTree id c) ++ behind).map clearTree =
        ((trees.map NumberedBlock.erase).map (Block.grafted graft) ++ extra).map Block.plain := by
    intro trees behind extra each same
    simp only [List.map_append, List.map_map, same]
    exact congrArg (· ++ _) (List.map_congr_left each)
  induction n using Tree.induction_children with
  | node n ih =>
    have below : ∀ m ∈ n.children, clearTree (appendTree id c (NumberedBlock.element m)) =
        Block.plain (Block.grafted graft (NumberedBlock.erase m)) := by
      intro m child
      exact ih m child fun p held => appends p (Tree.mem_walk_iff.mpr (.inr ⟨m, child, held⟩))
    have own := appends n n.mem_walk_self
    cases n with
    | component k =>
      rw [NumberedBlock.element, Tree.map_component, appendTree, Tree.fold_component, clearTree,
        Tree.map_component, NumberedBlock.erase, Tree.map_component, Block.grafted_component,
        Block.plain, Tree.map_component, k.2.plain_bare]
      rfl
    | layout l trees =>
      have children := inside below (own l.2.closing rfl)
      have head := l.2.head.plain_bare
      simp only [NumberedBlock.element, appendTree, clearTree, NumberedBlock.erase, Block.plain]
        at children ⊢
      simp only [Tree.map_layout, Tree.fold_layout, Block.grafted_layout]
      exact congrArg₂ Tree.layout head.symm children
    | cell k trees =>
      have children := inside below (own k.2.closing rfl)
      have head := k.2.head.plain_bare
      simp only [NumberedBlock.element, appendTree, clearTree, NumberedBlock.erase, Block.plain]
        at children ⊢
      simp only [Tree.map_cell, Tree.fold_cell, Block.grafted_cell]
      exact congrArg₂ Tree.cell head.symm children

theorem clearLayout_appendLayout {l : NumberedLayout}
    (appends : ∀ m ∈ l.toTree.walk, graft.Appends id c m) :
    clearLayout (appendLayout id c (NumberedLayout.lowered l)) =
      LayoutBlock.plain (LayoutBlock.grafted graft (NumberedLayout.erase l)) := by
  have root := clearTree_appendTree appends
  rw [element_toTree, erase_toTree, Block.grafted_toTree] at root
  simp only [Rooted.toTree, appendTree, clearTree, Block.plain, Tree.fold_layout,
    Tree.map_layout] at root
  obtain ⟨head, children⟩ := Tree.layout.inj root
  exact congrArg₂ Rooted.mk head children

theorem NumberedBody.clearIds_append {body : NumberedBody}
    (appends : ∀ m ∈ body.block.walk, graft.Appends id c m) :
    (body.lowered.append id c).clearIds = (body.erase.grafted graft).plain := by
  cases body with
  | layout l => exact congrArg Body.layout (clearLayout_appendLayout appends)
  | component k => exact congrArg Body.component k.2.plain_bare.symm

namespace NumberedItem

variable {item : NumberedItem}
  (appends : ∀ body, item.body? = some body → ∀ m ∈ body.walk, graft.Appends id c m)

include appends

theorem clearIds_append_definition? :
    (item.definition?.map (Definition.append id c)).map Definition.clearIds =
      (item.erase.grafted graft).plainDefinition? := by
  cases item with
  | settings | screen => rfl
  | componentDefinition t head body closing =>
    have same := NumberedBody.clearIds_append (appends _ rfl)
    simp only [definition?, Option.map_some, Definition.append, Definition.clearIds, same]
    rfl
  | layoutDefinition t head l closing =>
    have same := clearLayout_appendLayout (appends _ rfl)
    simp only [definition?, Option.map_some, Definition.append, Definition.clearIds, same]
    rfl

theorem clearIds_append_screen? :
    (item.screen?.map (Screen.append id c)).map Screen.clearIds =
      (item.erase.grafted graft).plainScreen? := by
  cases item with
  | settings | componentDefinition | layoutDefinition => rfl
  | screen t head l closing =>
    have same := clearLayout_appendLayout (appends _ rfl)
    simp only [screen?, Option.map_some, Screen.append, Screen.clearIds, same, erase,
      Item.grafted, Item.plainScreen?, ScreenHead.bare, paramProperties_bare, propertyValues_bare]
    rfl

end NumberedItem

/-- Without ids, the project with the component appended is that of the grafted blocks. -/
theorem ProjectBlock.clearIds_append {project : ProjectBlock}
    (appends : ∀ m ∈ project.blocks, graft.Appends id c m) :
    (project.lowered.append id c).clearIds = (project.grafted graft).plain := by
  have inItem : ∀ item ∈ project.numbered, ∀ body, item.body? = some body →
      ∀ m ∈ body.walk, graft.Appends id c m := fun item listed body held m reached =>
    appends m (mem_blocks.mpr ⟨item, listed, body, held, reached⟩)
  have definitions : (project.lowered.definitions.map (Definition.append id c)).map
      Definition.clearIds = (project.grafted graft).items.filterMap Item.plainDefinition? := by
    rw [grafted, List.filterMap_map, filterMap_items, lowered, List.map_filterMap,
      List.map_filterMap]
    exact List.filterMap_congr fun item listed =>
      NumberedItem.clearIds_append_definition? (inItem item listed)
  have screens : (project.lowered.screens.map (Screen.append id c)).map Screen.clearIds =
      (project.grafted graft).items.filterMap Item.plainScreen? := by
    rw [grafted, List.filterMap_map, filterMap_items, lowered, List.map_filterMap,
      List.map_filterMap]
    exact List.filterMap_congr fun item listed =>
      NumberedItem.clearIds_append_screen? (inItem item listed)
  simp only [Project.append, Project.clearIds, definitions, screens, plain, written_grafted,
    settingValues_bare]
  rfl

end Grafted

end Wireframe
