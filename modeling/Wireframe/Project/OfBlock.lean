import Wireframe.Block
import Wireframe.Project
import Wireframe.SourceMap

/-!
# From blocks to a project

Each block becomes a part of the project and an entry of the source map, both under one fresh id.
Blocks are taken in written order, an outer one before those inside it.

## Main definitions

* `IdFamily` — the ids that are numbered together.
* `fresh` — the next id of a family.
* `lowerBlock` — the element of a block with its entries.
* `ProjectBlock.lower` — the project of a whole text with its entries.
-/

namespace Wireframe

/-! ### Values -/

/-- The value of a property whose value is this token. Quoted texts and colors are never numbers. -/
def Token.value : Token → PropertyValue
  | .string raw => .text (unquote raw)
  | .color raw => .text raw
  | t => .ofWord t.text

/-- The value of a setting whose value is this token: always a text. -/
def Token.setting : Token → String
  | .string raw => unquote raw
  | t => t.text

/-- Where a property stands. -/
def WrittenProperty.place (p : WrittenProperty) (value : PropertyValue) : PropertyPlace where
  name := p.name.text
  value := value
  range := p.name.range.union p.value.range
  nameRange := p.name.range
  valueRange := p.value.range

/-- The values of written properties. -/
def propertyValues (written : List WrittenProperty) : Properties :=
  .ofList (written.map fun p => (p.name.text, p.value.token.value))

/-- The places of written properties. -/
def propertyPlaces (written : List WrittenProperty) : OrderedMap PropertyPlace :=
  .ofList (written.map fun p => (p.name.text, p.place p.value.token.value))

/-- The values of settings. -/
def settingValues (written : List WrittenProperty) : OrderedMap String :=
  .ofList (written.map fun p => (p.name.text, p.value.token.setting))

/-- The places of settings. -/
def settingPlaces (written : List WrittenProperty) : OrderedMap PropertyPlace :=
  .ofList (written.map fun p => (p.name.text, p.place (.text p.value.token.setting)))

/-- The properties in a list of parameters, if there is one. -/
def paramProperties (params : Option ParamList) : List WrittenProperty :=
  params.elim [] (·.properties)

/-! ### Ids -/

/-- Ids that are numbered together. -/
inductive IdFamily where
  | screen
  | cell
  /-- Components of a type, whose letters are all in lower case. -/
  | component (kind : String)
  /-- Layouts of a type, whose letters are all in lower case. -/
  | layout (kind : String)
  /-- Definitions of a name, of either kind. -/
  | definition (name : String)
  deriving DecidableEq, Repr

/-- The id with a given number, counted from zero. -/
def IdFamily.id : IdFamily → Nat → NodeId
  | .screen, k => s!"screen-{k}"
  | .cell, k => s!"cell-{k}"
  | .component kind, k => s!"component-{kind}-{k}"
  | .layout kind, k => s!"layout-{kind}-{k}"
  -- the first definition of a name goes without a number
  | .definition name, 0 => s!"define-{name}"
  | .definition name, k + 1 => s!"define-{name}-{k + 1}"

/-- A computation that hands out ids. Its state holds the families of the ids handed out. -/
abbrev Numbered :=
  StateM (List IdFamily)

@[simp]
theorem Numbered.bind_apply {α β : Type} (x : Numbered α) (f : α → Numbered β)
    (used : List IdFamily) : (x >>= f) used = f (x used).1 (x used).2 :=
  rfl

@[simp]
theorem Numbered.pure_apply {α : Type} (a : α) (used : List IdFamily) :
    (pure a : Numbered α) used = (a, used) :=
  rfl

/-- The next id of a family. -/
def fresh (family : IdFamily) : Numbered NodeId := fun used =>
  (family.id (used.count family), family :: used)

/-! ### Elements -/

/-- The names that a project defines, quotes resolved. -/
structure DefinedNames where
  components : List String
  layouts : List String

/-- What a block becomes, given the id of the block around it. -/
abbrev Lowering (α : Type) :=
  NodeId → Numbered (α × List Entry)

/-- The range of a block from its keyword over its parameters to its closing brace. -/
def blockRange (keyword : Lexeme) (params : Option ParamList) (closing : Lexeme) : CodeRange :=
  match params with
  | none => keyword.range.union closing.range
  | some list =>
    ((keyword.range.union list.opening.range).union list.closing.range).union closing.range

/-- A component becomes a leaf. -/
def lowerComponent (names : DefinedNames) (block : ComponentBlock) : Lowering Component :=
  fun parent => do
    let kind := block.kind.text
    let id ← fresh (.component kind.toLower)
    let last := block.properties.getLast?.elim block.kind (·.value)
    let entry : Entry :=
      { id, parent := some parent
        subject := .component kind (names.components.contains kind)
        range := block.keyword.range.union last.range
        keywordRange := block.keyword.range
        nameRange := some block.kind.range
        properties := some (propertyPlaces block.properties) }
    return (⟨kind, propertyValues block.properties, some id⟩, [entry])

/-- A layout takes its id before its children take theirs. -/
def lowerLayoutWith (names : DefinedNames) (block : Closed LayoutHead)
    (children : List (Lowering Element)) : Lowering Layout := fun parent => do
  let head := block.head
  let kind := head.kind.text
  let id ← fresh (.layout kind.toLower)
  let entry : Entry :=
    { id, parent := some parent
      subject := .layout kind (names.layouts.contains kind)
      range := blockRange head.keyword head.params block.closing
      keywordRange := head.keyword.range
      nameRange := some head.kind.range
      bodyRange := some (head.opening.range.union block.closing.range)
      properties := some (propertyPlaces (paramProperties head.params)) }
  let lowered ← children.mapM (· id)
  return (⟨⟨kind, propertyValues (paramProperties head.params), some id⟩, lowered.map Prod.fst⟩,
    entry :: lowered.flatMap Prod.snd)

/-- A cell takes its id before its children take theirs. -/
def lowerCellWith (block : Closed CellHead) (children : List (Lowering Element)) :
    Lowering Element := fun parent => do
  let head := block.head
  let id ← fresh .cell
  let entry : Entry :=
    { id, parent := some parent
      subject := .cell
      range := head.keyword.range.union block.closing.range
      keywordRange := head.keyword.range
      bodyRange := some (head.opening.range.union block.closing.range)
      properties := some (propertyPlaces head.properties) }
  let lowered ← children.mapM (· id)
  return (.cell ⟨propertyValues head.properties, some id⟩ (lowered.map Prod.fst),
    entry :: lowered.flatMap Prod.snd)

/-- The element of a block with its entries. -/
def lowerBlock (names : DefinedNames) : Block → Lowering Element :=
  Tree.fold
    (fun block parent => do
      let (component, entries) ← lowerComponent names block parent
      return (.component component, entries))
    (fun block children parent => do
      let (layout, entries) ← lowerLayoutWith names block children parent
      return (layout.toTree, entries))
    (fun block children => lowerCellWith block children)

/-- The layout of a screen or definition with its entries. -/
def lowerLayout (names : DefinedNames) (block : LayoutBlock) : Lowering Layout :=
  lowerLayoutWith names block.layout (block.children.map (lowerBlock names))

/-! ### Items -/

/-- The kind of a definition is written as a keyword. -/
def DefinitionHead.entry (head : DefinitionHead) (id parent : NodeId) (subject : Subject)
    (closing : Lexeme) : Entry :=
  { id, parent := some parent
    subject
    range := head.define.range.union closing.range
    keywordRange := head.define.range.union head.kind.range
    nameRange := some head.name.range
    bodyRange := some (head.opening.range.union closing.range) }

/-- A definition takes its id before its body takes any. -/
def DefinitionBlock.lower (names : DefinedNames) : DefinitionBlock → Lowering Definition
  | .component head body closing, parent => do
    let name := unquote head.name.text
    let id ← fresh (.definition name)
    let entry := head.entry id parent (.componentDefinition name) closing
    match body with
    | .layout block =>
      let (lowered, entries) ← lowerLayout names block id
      return (.component ⟨name, .layout lowered, some id⟩, entry :: entries)
    | .component block =>
      let (lowered, entries) ← lowerComponent names block id
      return (.component ⟨name, .component lowered, some id⟩, entry :: entries)
  | .layout head block closing, parent => do
    let name := unquote head.name.text
    let id ← fresh (.definition name)
    let entry := head.entry id parent (.layoutDefinition name) closing
    let (lowered, entries) ← lowerLayout names block id
    return (.layout ⟨name, lowered, some id⟩, entry :: entries)

/-- A screen takes its id before its layout takes any. -/
def ScreenBlock.lower (names : DefinedNames) (block : ScreenBlock) : Lowering Screen :=
  fun parent => do
    let head := block.head
    let id ← fresh .screen
    let entry : Entry :=
      { id, parent := some parent
        subject := .screen head.name.text
        range := blockRange head.keyword head.params block.closing
        keywordRange := head.keyword.range
        nameRange := some head.name.range
        bodyRange := some (head.opening.range.union block.closing.range)
        properties := some (propertyPlaces (paramProperties head.params)) }
    let (layout, entries) ← lowerLayout names block.layout id
    return (⟨head.name.text, propertyValues (paramProperties head.params), layout, some id⟩,
      entry :: entries)

/-- What the entry of a kind of settings is about. -/
def SettingsKind.subject : SettingsKind → Subject
  | .style => .theme
  | .mocks => .mocks
  | .colors => .colors

/-- The entry of all settings of one kind. It covers the first block and lists the properties of
every block. -/
def SettingsBlock.entry (first : SettingsBlock) (written : List WrittenProperty)
    (parent : NodeId) : Entry where
  id := first.head.kind.subject.kind.name
  parent := some parent
  subject := first.head.kind.subject
  range := first.head.keyword.range.union first.closing.range
  keywordRange := first.head.keyword.range
  bodyRange := some (first.head.opening.range.union first.closing.range)
  properties := some (settingPlaces written)

/-- The properties in all blocks of one kind of settings. -/
def ProjectBlock.written (project : ProjectBlock) (kind : SettingsKind) : List WrittenProperty :=
  (project.settings kind).flatMap (·.properties)

/-- Names of definitions, quotes resolved. -/
def ProjectBlock.names (project : ProjectBlock) : DefinedNames where
  components := project.definitions.filterMap fun
    | .component head _ _ => some (unquote head.name.text)
    | .layout _ _ _ => none
  layouts := project.definitions.filterMap fun
    | .layout head _ _ => some (unquote head.name.text)
    | .component _ _ _ => none

/-- What the items of a project become. -/
structure LoweredItems where
  definitions : List Definition := []
  screens : List Screen := []
  entries : List Entry := []

/-- Lower items in order. Settings of a kind in `seen` have had their entry. -/
def ProjectBlock.lowerItems (project : ProjectBlock) (parent : NodeId)
    (seen : List SettingsKind) : List Item → Numbered LoweredItems
  | [] => return {}
  | .settings block :: others => do
    let kind := block.head.kind
    let rest ← project.lowerItems parent (kind :: seen) others
    -- settings take no number, so it does not matter that the rest is lowered first
    if kind ∈ seen then return rest
    else return { rest with entries := block.entry (project.written kind) parent :: rest.entries }
  | .definition block :: others => do
    let (definition, entries) ← block.lower project.names parent
    let rest ← project.lowerItems parent seen others
    return { rest with
      definitions := definition :: rest.definitions
      entries := entries ++ rest.entries }
  | .screen block :: others => do
    let (screen, entries) ← block.lower project.names parent
    let rest ← project.lowerItems parent seen others
    return { rest with
      screens := screen :: rest.screens
      entries := entries ++ rest.entries }

/-- The entry of a project. -/
def ProjectBlock.entry (project : ProjectBlock) (id : NodeId) : Entry where
  id := id
  parent := none
  subject := .project (unquote project.head.name.text)
  range := project.head.keyword.range.union project.closing.range
  keywordRange := project.head.keyword.range
  nameRange := some project.head.name.range
  bodyRange := some (project.head.opening.range.union project.closing.range)

/-- The project of a whole text with its entries, which have no insertion points yet. -/
def ProjectBlock.lower (project : ProjectBlock) : Project × List Entry :=
  let id := NodeKind.project.name
  let items := (project.lowerItems id [] project.items []).1
  let lowered : Project :=
    { name := unquote project.head.name.text
      style := settingValues (project.written .style)
      mocks := settingValues (project.written .mocks)
      colors := settingValues (project.written .colors)
      definitions := items.definitions
      screens := items.screens
      id := some id }
  (lowered, project.entry id :: items.entries)

end Wireframe
