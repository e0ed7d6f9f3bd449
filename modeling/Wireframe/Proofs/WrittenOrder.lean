import Wireframe.Proofs.BlockForm
import Wireframe.Proofs.DraftOrder
import Wireframe.Proofs.Mirror

/-!
# Children stand in the order in which they are written

What a block holds is kept by kind while a text is read, and put back in order by where it starts.
Since the tokens of a text start one after the other, that is the order in which it is written,
however the kinds follow one another. So the children of a layout or cell are exactly the blocks
between its braces, and the definitions and screens of a project are exactly its items of these
kinds, each one once and in textual order.

## Main definitions

* `ProjectBlock.regrouped` — a project of which all parts were kept by kind and then sorted.
* `WrittenAs` — an element is written as a row of tokens, its children one after the other.
* `Project.WrittenAs` — the same for a project, with definitions and screens in any mixture.

## Main results

* `ProjectBlock.regrouped_of_read` — keeping by kind and sorting changes nothing.
* `ProjectBlock.lowered_writtenAs` — what a project becomes is written as the tokens of its text.
* `children_in_written_order` — both, for every text that gives a project.
-/

namespace Wireframe

/-! ### Kept by kind and sorted -/

/-- The kind of a block. -/
def Block.kind : Block → PartKind
  | .component _ => .component
  | .layout _ _ => .layout
  | .cell _ _ => .cell

/-- The token that opens a block. -/
def Block.opening : Block → Lexeme
  | .component c => c.keyword
  | .layout l _ => l.head.keyword
  | .cell k _ => k.head.keyword

/-- Blocks that were kept by kind, sorted by where they start. -/
def regroupedBlocks (blocks : List Block) : List Block :=
  regrouped Block.kind (fun b => (Block.opening b).span.start) blocks

/-- A block of which the children at every depth were kept by kind and then sorted. -/
def Block.regrouped : Block → Block :=
  Tree.fold .component (fun l inside => .layout l (regroupedBlocks inside))
    (fun k inside => .cell k (regroupedBlocks inside))

/-- A layout of which the children at every depth were kept by kind and then sorted. -/
def LayoutBlock.regrouped (l : LayoutBlock) : LayoutBlock :=
  ⟨l.layout, regroupedBlocks (l.children.map Block.regrouped)⟩

/-- An item with everything inside it kept by kind and then sorted. -/
def Item.regrouped : Item → Item
  | .settings block => .settings block
  | .definition (.component head (.layout l) closing) =>
    .definition (.component head (.layout (LayoutBlock.regrouped l)) closing)
  | .definition (.component head (.component c) closing) =>
    .definition (.component head (.component c) closing)
  | .definition (.layout head l closing) =>
    .definition (.layout head (LayoutBlock.regrouped l) closing)
  | .screen block => .screen { block with layout := LayoutBlock.regrouped block.layout }

/-- A project of which the items, and all blocks inside them, were kept by kind and then sorted. -/
def ProjectBlock.regrouped (project : ProjectBlock) : ProjectBlock :=
  { project with
    items := Wireframe.regrouped Item.kind (·.opening.span.start)
      (project.items.map Item.regrouped) }

theorem start_writtenPart (b : Block) : (writtenPart b).start = (Block.opening b).span.start := by
  cases b with
  | component c => rfl
  | layout l blocks => rw [writtenPart, blockPart_layout]; rfl
  | cell k blocks => rw [writtenPart, blockPart_cell]; rfl

/-- Blocks in order start one after the other. -/
theorem regroupedBlocks_eq {blocks : List Block}
    (ordered : InOrder (blocks.flatMap Block.written)) : regroupedBlocks blocks = blocks := by
  rw [← tokens_map_writtenPart] at ordered
  have starts := List.pairwise_map.mp
    (pairwise_start_of_inOrder (leads_map_writtenPart blocks) ordered)
  simp only [start_writtenPart] at starts
  exact regrouped_eq starts

theorem Block.regrouped_eq {b : Block} (ordered : InOrder (Block.written b)) :
    Block.regrouped b = b := by
  -- The children of a block are regrouped themselves first.
  have children : ∀ {blocks : List Block},
      (∀ c ∈ blocks, InOrder (Block.written c) → Block.regrouped c = c) →
      InOrder (blocks.flatMap Block.written) →
      regroupedBlocks (blocks.map Block.regrouped) = blocks := by
    intro blocks each ordered
    have same : blocks.map Block.regrouped = blocks :=
      (List.map_congr_left fun c inside => each c inside (ordered.of_mem inside)).trans
        (List.map_id _)
    rw [same, regroupedBlocks_eq ordered]
  induction b using Tree.induction with
  | component c => exact Tree.fold_component _ _ _ c
  | layout l blocks ih =>
    rw [Block.written_layout] at ordered
    rw [Block.regrouped, Tree.fold_layout]
    exact congrArg (Tree.layout l) (children ih ordered.right.left)
  | cell k blocks ih =>
    rw [Block.written_cell] at ordered
    rw [Block.regrouped, Tree.fold_cell]
    exact congrArg (Tree.cell k) (children ih ordered.right.left)

theorem LayoutBlock.regrouped_eq {l : LayoutBlock} (ordered : InOrder (Block.written l.toTree)) :
    LayoutBlock.regrouped l = l := by
  have whole := Block.regrouped_eq ordered
  rw [Rooted.toTree, Block.regrouped, Tree.fold_layout] at whole
  cases l
  exact congrArg (Rooted.mk _) (Tree.layout.inj whole).2

theorem Item.regrouped_eq {item : Item} (ordered : InOrder item.written) :
    item.regrouped = item := by
  match item, ordered with
  | .settings block, _ => rfl
  | .definition (.component head (.layout l) closing), ordered =>
    rw [Item.regrouped, LayoutBlock.regrouped_eq ordered.right.left]
  | .definition (.component head (.component c) closing), _ => rfl
  | .definition (.layout head l closing), ordered =>
    rw [Item.regrouped, LayoutBlock.regrouped_eq ordered.right.left]
  | .screen block, ordered =>
    rw [Item.regrouped, LayoutBlock.regrouped_eq ordered.right.left]

/-- Keeping the parts of a project by kind and sorting them by where they start changes nothing, if
its tokens start one after the other. -/
theorem ProjectBlock.regrouped_eq {project : ProjectBlock}
    (ordered : InOrder project.inWrittenOrder) : project.regrouped = project := by
  have inOrder : InOrder (project.items.flatMap Item.written) := ordered.right.left
  have same : project.items.map Item.regrouped = project.items :=
    (List.map_congr_left fun item inside => Item.regrouped_eq (inOrder.of_mem inside)).trans
      (List.map_id _)
  have tokens : InOrder ((project.items.map itemPart).flatMap Part.tokens) := by
    rwa [tokens_map_itemPart inOrder]
  have starts := List.pairwise_map.mp
    (pairwise_start_of_inOrder (leads_map_itemPart inOrder) tokens)
  rw [ProjectBlock.regrouped, same]
  exact congrArg (ProjectBlock.mk project.head · project.closing) (Wireframe.regrouped_eq starts)

/-- In a text that was read, keeping by kind and sorting changes nothing. -/
theorem ProjectBlock.regrouped_of_read {text : List Char} {project : ProjectBlock}
    (read : ProjectBlock.ofLexemes (scan text).lexemes = .ok project) :
    project.regrouped = project :=
  ProjectBlock.regrouped_eq (.of_fits (written_fits read).2 (scan_pairwise_start text))

/-! ### What is written of a project -/

/-- A component is written as a row of tokens. -/
def Component.WrittenAs (c : Component) (row : List Lexeme) : Prop :=
  ∃ block : ComponentBlock, block.Sound ∧ List.Forall₂ Written.Fits block.written row ∧
    c.kind = block.kind.text ∧ c.properties = propertyValues block.properties

/-- A layout is opened by a row of tokens. -/
def LayoutNode.OpenedBy (l : LayoutNode) (row : List Lexeme) : Prop :=
  ∃ head : LayoutHead, head.Sound ∧ List.Forall₂ Written.Fits head.written row ∧
    l.kind = head.kind.text ∧ l.params = propertyValues (paramProperties head.params)

/-- A cell is opened by a row of tokens. -/
def CellNode.OpenedBy (k : CellNode) (row : List Lexeme) : Prop :=
  ∃ head : CellHead, head.Sound ∧ List.Forall₂ Written.Fits head.written row ∧
    k.properties = propertyValues head.properties

/-- An element is written as a row of tokens: its children stand between its braces, one after the
other and with nothing else between them. -/
inductive WrittenAs : Element → List Lexeme → Prop where
  | component {c : Component} {row : List Lexeme} (written : c.WrittenAs row) :
    WrittenAs (.component c) row
  | layout {l : LayoutNode} {opened : List Lexeme} (opens : l.OpenedBy opened)
    {children : List Element} {rows : List (List Lexeme)}
    (inside : List.Forall₂ WrittenAs children rows)
    {closing : Lexeme} (closed : closing.token = .mark .rightBrace) :
    WrittenAs (.layout l children) (opened ++ (rows.flatten ++ [closing]))
  | cell {k : CellNode} {opened : List Lexeme} (opens : k.OpenedBy opened)
    {children : List Element} {rows : List (List Lexeme)}
    (inside : List.Forall₂ WrittenAs children rows)
    (others : ∀ e ∈ children, Tree.isCell e = false)
    {closing : Lexeme} (closed : closing.token = .mark .rightBrace) :
    WrittenAs (.cell k children) (opened ++ (rows.flatten ++ [closing]))

/-- A definition is written as a row of tokens, with the one element it stands for. -/
def Definition.WrittenAs (d : Definition) (row : List Lexeme) : Prop :=
  ∃ (head : DefinitionHead) (opened body : List Lexeme) (closing : Lexeme),
    row = opened ++ (body ++ [closing]) ∧ closing.token = .mark .rightBrace ∧
      head.Sound (if d.isLayout then .layoutKind else .componentKind) ∧
      List.Forall₂ Written.Fits head.written opened ∧ d.name = unquote head.name.text ∧
      Wireframe.WrittenAs d.body body

/-- A screen is written as a row of tokens, with its layout. -/
def Screen.WrittenAs (s : Screen) (row : List Lexeme) : Prop :=
  ∃ (head : ScreenHead) (opened body : List Lexeme) (closing : Lexeme),
    row = opened ++ (body ++ [closing]) ∧ closing.token = .mark .rightBrace ∧
      head.Sound ∧ List.Forall₂ Written.Fits head.written opened ∧ s.name = head.name.text ∧
      s.params = propertyValues (paramProperties head.params) ∧
      Wireframe.WrittenAs s.layout.toTree body

/-- Definitions and screens are written as a row of tokens, in any mixture and with settings
anywhere between them. -/
inductive ItemsWrittenAs : List Definition → List Screen → List Lexeme → Prop where
  | nil : ItemsWrittenAs [] [] []
  | settings {block : SettingsBlock} {row : List Lexeme} (sound : block.Sound)
    (fits : List.Forall₂ Written.Fits block.written row)
    {ds : List Definition} {ss : List Screen} {rows : List Lexeme}
    (others : ItemsWrittenAs ds ss rows) : ItemsWrittenAs ds ss (row ++ rows)
  | definition {d : Definition} {row : List Lexeme} (first : d.WrittenAs row)
    {ds : List Definition} {ss : List Screen} {rows : List Lexeme}
    (others : ItemsWrittenAs ds ss rows) : ItemsWrittenAs (d :: ds) ss (row ++ rows)
  | screen {s : Screen} {row : List Lexeme} (first : s.WrittenAs row)
    {ds : List Definition} {ss : List Screen} {rows : List Lexeme}
    (others : ItemsWrittenAs ds ss rows) : ItemsWrittenAs ds (s :: ss) (row ++ rows)

/-- A project is written as a row of tokens. -/
def Project.WrittenAs (project : Project) (row : List Lexeme) : Prop :=
  ∃ (head : ProjectHead) (opened items : List Lexeme) (closing : Lexeme),
    row = opened ++ (items ++ [closing]) ∧ closing.token = .mark .rightBrace ∧
      head.Sound ∧ List.Forall₂ Written.Fits head.written opened ∧
      project.name = unquote head.name.text ∧
      ItemsWrittenAs project.definitions project.screens items

/-! ### Blocks are written as their tokens -/

theorem Tree.isCell_map {C L K C' L' K' : Type} (component : C → C') (layout : L → L')
    (cell : K → K') (t : Tree C L K) : (t.map component layout cell).isCell = t.isCell := by
  cases t <;> simp [Tree.map, Tree.isCell]

section Elements

variable {row : List Lexeme}

/-- The children of a block, one after the other. -/
theorem exists_rows_writtenAs {blocks : List NumberedBlock}
    (each : ∀ n ∈ blocks, ∀ {row},
      List.Forall₂ Written.Fits (Block.written (NumberedBlock.erase n)) row →
        WrittenAs (NumberedBlock.element n) row)
    (fits : List.Forall₂ Written.Fits
      ((blocks.map NumberedBlock.erase).flatMap Block.written) row) :
    ∃ rows : List (List Lexeme), row = rows.flatten ∧
      List.Forall₂ WrittenAs (blocks.map NumberedBlock.element) rows := by
  rw [List.flatMap_map] at fits
  obtain ⟨rows, whole, all⟩ := exists_rows_of_fits each fits
  exact ⟨rows, whole, List.forall₂_map_left_iff.mpr all⟩

/-- What a sound block becomes is written as the tokens of the block. -/
theorem element_writtenAs {n : NumberedBlock} (sound : Block.Sound (NumberedBlock.erase n))
    (fits : List.Forall₂ Written.Fits (Block.written (NumberedBlock.erase n)) row) :
    WrittenAs (NumberedBlock.element n) row := by
  -- The row is cut behind the opening brace and before the closing one, and what is left between
  -- them into one row for each child, to which the induction hypothesis applies.
  induction n using Tree.induction generalizing row with
  | component c =>
    rw [NumberedBlock.element, Tree.map_component]
    rw [NumberedBlock.erase, Tree.map_component] at sound fits
    rw [Block.written_component] at fits
    exact .component ⟨c.2, (Block.sound_iff.mp sound).1, fits, rfl, rfl⟩
  | layout l blocks ih =>
    rw [NumberedBlock.element, Tree.map_layout]
    rw [NumberedBlock.erase, Tree.map_layout] at sound fits
    obtain ⟨⟨opens, closed⟩, inside⟩ := Block.sound_iff.mp sound
    rw [Block.written_layout] at fits
    obtain ⟨opened, held, rfl, first, body⟩ := exists_enclosed_of_fits fits
    obtain ⟨rows, rfl, all⟩ := exists_rows_writtenAs
      (fun n found {row} own => ih n found (inside _ (List.mem_map_of_mem found)) own) body
    exact .layout ⟨l.2.head, opens, first, rfl, rfl⟩ all closed
  | cell k blocks ih =>
    rw [NumberedBlock.element, Tree.map_cell]
    rw [NumberedBlock.erase, Tree.map_cell] at sound fits
    obtain ⟨⟨⟨opens, closed⟩, others⟩, inside⟩ := Block.sound_iff.mp sound
    rw [Block.written_cell] at fits
    obtain ⟨opened, held, rfl, first, body⟩ := exists_enclosed_of_fits fits
    obtain ⟨rows, rfl, all⟩ := exists_rows_writtenAs
      (fun n found {row} own => ih n found (inside _ (List.mem_map_of_mem found)) own) body
    refine .cell ⟨k.2.head, opens, first, rfl⟩ all (fun e child => ?_) closed
    obtain ⟨n, found, rfl⟩ := List.mem_map.mp child
    have other : Tree.isCell (NumberedBlock.erase n) = false :=
      others _ (List.mem_map_of_mem found)
    rw [NumberedBlock.erase, Tree.isCell_map] at other
    rw [NumberedBlock.element, Tree.isCell_map]
    exact other

end Elements

section Items

variable {row : List Lexeme}

theorem layout_writtenAs {l : NumberedLayout} (sound : Block.Sound (NumberedLayout.erase l).toTree)
    (fits : List.Forall₂ Written.Fits (Block.written (NumberedLayout.erase l).toTree) row) :
    WrittenAs (NumberedLayout.lowered l).toTree row := by
  rw [← erase_toTree] at sound fits
  rw [← element_toTree]
  exact element_writtenAs sound fits

theorem body_writtenAs {body : NumberedBody} (sound : Block.Sound body.erase.block)
    (fits : List.Forall₂ Written.Fits (Block.written body.erase.block) row) :
    WrittenAs body.lowered.toTree row := by
  rw [← erase_block] at sound fits
  rw [body.toTree_lowered]
  exact element_writtenAs sound fits

/-- What sound items become is written as the tokens of the items. -/
theorem items_writtenAs {items : List NumberedItem} (sound : ∀ item ∈ items, item.erase.Sound)
    (fits : List.Forall₂ Written.Fits
      ((items.map NumberedItem.erase).flatMap Item.written) row) :
    ItemsWrittenAs (items.filterMap NumberedItem.definition?)
      (items.filterMap NumberedItem.screen?) row := by
  -- Each item adds to one of the two lists at most, so the order within each of them is kept.
  induction items generalizing row with
  | nil =>
    rw [List.forall₂_nil_left_iff.mp fits]
    exact .nil
  | cons item items ih =>
    obtain ⟨own, behind⟩ := List.forall_mem_cons.mp sound
    rw [List.map_cons, List.flatMap_cons] at fits
    obtain ⟨first, rest, rfl, mine, theirs⟩ := exists_append_of_forall₂ fits
    have others := ih behind theirs
    cases item with
    | settings block => exact .settings own mine others
    | componentDefinition t head body closing =>
      obtain ⟨⟨opens, closed⟩, inside⟩ := own
      obtain ⟨opened, held, rfl, before, within⟩ := exists_enclosed_of_fits mine
      have definition : (Definition.component
          ⟨unquote head.name.text, body.lowered, some t.id⟩).WrittenAs _ :=
        ⟨head, opened, held, closing, rfl, closed, opens, before, rfl,
          body_writtenAs inside within⟩
      exact .definition definition others
    | layoutDefinition t head l closing =>
      obtain ⟨⟨opens, closed⟩, inside⟩ := own
      obtain ⟨opened, held, rfl, before, within⟩ := exists_enclosed_of_fits mine
      have definition : (Definition.layout
          ⟨unquote head.name.text, NumberedLayout.lowered l, some t.id⟩).WrittenAs _ :=
        ⟨head, opened, held, closing, rfl, closed, opens, before, rfl,
          layout_writtenAs inside within⟩
      exact .definition definition others
    | screen t head l closing =>
      obtain ⟨⟨opens, closed⟩, inside⟩ := own
      obtain ⟨opened, held, rfl, before, within⟩ := exists_enclosed_of_fits mine
      exact .screen ⟨head, opened, held, closing, rfl, closed, opens, before, rfl, rfl,
        layout_writtenAs inside within⟩ others

end Items

/-- What a project that was read becomes is written as the tokens it was read from. -/
theorem ProjectBlock.lowered_writtenAs {ls : List Lexeme} {project : ProjectBlock}
    (read : ProjectBlock.ofLexemes ls = .ok project) : project.lowered.WrittenAs ls := by
  obtain ⟨opens, items, closed⟩ := ProjectBlock.sound_of_read read
  obtain ⟨opened, held, rfl, before, within⟩ := exists_enclosed_of_fits (written_fits read).2
  refine ⟨project.head, opened, held, project.closing, rfl, closed, opens, before, rfl, ?_⟩
  refine items_writtenAs (fun item inside => items _ (erase_mem_items inside)) ?_
  rwa [project.map_erase_numbered]

/-- Children keep the order in which they are written. The children of a layout or cell are the
blocks between its braces, and the definitions and screens of a project are its items of these
kinds, each one once and in textual order. To keep all these by kind and to sort them by where they
start changes nothing. -/
theorem children_in_written_order {text : String} {project : Project} {map : SourceMap}
    (built : (tolerant text).built = some (project, map)) :
    project.WrittenAs (scan text.toList).lexemes ∧
      ∃ block, ProjectBlock.ofLexemes (scan text.toList).lexemes = .ok block ∧
        project = (block.build text.toList).1 ∧ block.regrouped = block := by
  cases read : ProjectBlock.ofLexemes (scan text.toList).lexemes with
  | error fault =>
    rw [tolerant_of_fault read] at built
    contradiction
  | ok block =>
    rw [tolerant_of_block read, block.build_eq] at built
    obtain ⟨rfl, -⟩ := Prod.mk.inj (Option.some.inj built)
    exact ⟨ProjectBlock.lowered_writtenAs read, block, rfl,
      congrArg Prod.fst (block.build_eq text.toList).symm, ProjectBlock.regrouped_of_read read⟩

/-- A text in which the kinds of block, and those of item, follow one another in mixed order. -/
def mixedText : String :=
  "project \"M\" \x7b screen S \x7b layout stack \x7b component A\n" ++
  "cell \x7b layout row \x7b \x7d component B \x7d component C \x7d \x7d\n" ++
  "define Component \"D\" \x7b component E \x7d style \x7b \x7d\n" ++
  "screen T \x7b layout stack \x7b \x7d \x7d \x7d\n"

theorem children_in_written_order_mixedText : ∃ project map,
    (tolerant mixedText).built = some (project, map) ∧
      project.WrittenAs (scan mixedText.toList).lexemes := by
  have built : (tolerant mixedText).built.isSome = true := by decide +kernel
  obtain ⟨⟨project, map⟩, same⟩ := Option.isSome_iff_exists.mp built
  exact ⟨project, map, same, (children_in_written_order same).1⟩

end Wireframe
