import Wireframe.Block
import Wireframe.Block.Expectation

/-!
# Reading blocks from tokens

A project is read token by token. What has been read so far is kept in a state: the blocks that are
still open with everything inside them, and the point reached in the innermost one. A token either
leads to the next state or cannot come here, and then the state tells what could have.

## Main definitions

* `OpenBlock` — a layout or cell whose closing brace has not come yet, and all blocks around it.
* `ReaderState` — what has been read so far.
* `ReaderState.step` — the state after one more token.
* `ReaderState.expected` — what could come next.
* `ProjectBlock.ofLexemes` — the project that a row of tokens is, or the fault in it.
-/

namespace Wireframe

/-- A project whose closing brace has not come yet. -/
structure OpenProject where
  head : ProjectHead
  items : List Item

/-- The project with one more item. -/
def OpenProject.add (project : OpenProject) (item : Item) : OpenProject :=
  { project with items := project.items ++ [item] }

/-- An item that holds one body, which has not come yet. -/
inductive OpenItem where
  | screen (project : OpenProject) (head : ScreenHead)
  | layoutDefinition (project : OpenProject) (head : DefinitionHead)
  | componentDefinition (project : OpenProject) (head : DefinitionHead)

/-- An item whose body is complete and whose closing brace has not come yet. -/
inductive FilledItem where
  | screen (project : OpenProject) (head : ScreenHead) (layout : LayoutBlock)
  | layoutDefinition (project : OpenProject) (head : DefinitionHead) (layout : LayoutBlock)
  | componentDefinition (project : OpenProject) (head : DefinitionHead) (body : DefinitionBody)

/-- A layout or cell whose closing brace has not come yet, with the blocks read inside it. -/
inductive OpenBlock where
  /-- The layout that is the body of an item. -/
  | body (item : OpenItem) (head : LayoutHead) (children : List Block)
  | layout (outer : OpenBlock) (head : LayoutHead) (children : List Block)
  | cell (outer : OpenBlock) (head : CellHead) (children : List Block)

/-- Where a layout stands. -/
inductive LayoutSite where
  | body (item : OpenItem)
  | child (outer : OpenBlock)

/-- Where a component stands. -/
inductive ComponentSite where
  | body (project : OpenProject) (head : DefinitionHead)
  | child (outer : OpenBlock)

/-- A block that may have parameters, up to its name or type. -/
inductive ParamSite where
  | screen (project : OpenProject) (keyword name : Lexeme)
  | layout (site : LayoutSite) (keyword kind : Lexeme)

/-- Where properties stand, with all that was read before them. -/
inductive PropertySite where
  | settings (project : OpenProject) (head : SettingsHead)
  | component (site : ComponentSite) (keyword kind : Lexeme)
  | cell (outer : OpenBlock) (keyword : Lexeme)
  | params (site : ParamSite) (opening : Lexeme)

/-- What has been read so far, named for what comes next. -/
inductive ReaderState where
  | start
  | projectName (keyword : Lexeme)
  | projectOpening (keyword name : Lexeme)
  | item (project : OpenProject)
  | settingsOpening (project : OpenProject) (kind : SettingsKind) (keyword : Lexeme)
  | definitionKind (project : OpenProject) (define : Lexeme)
  | definitionName (project : OpenProject) (define kind : Lexeme)
  | definitionOpening (project : OpenProject) (define kind name : Lexeme)
  | screenName (project : OpenProject) (keyword : Lexeme)
  | layoutKind (site : LayoutSite) (keyword : Lexeme)
  | componentKind (site : ComponentSite) (keyword : Lexeme)
  /-- Parameters, unless they have come, or the opening brace. -/
  | opening (site : ParamSite) (params : Option ParamList)
  /-- One more property, or what ends the properties. -/
  | property (site : PropertySite) (properties : List WrittenProperty)
  | colon (site : PropertySite) (properties : List WrittenProperty) (name : Lexeme)
  | value (site : PropertySite) (properties : List WrittenProperty) (name : Lexeme)
  /-- A parameter after a comma. -/
  | param (site : ParamSite) (opening : Lexeme) (properties : List WrittenProperty)
    (comma : Lexeme)
  | body (item : OpenItem)
  | child (block : OpenBlock)
  | itemEnd (item : FilledItem)
  | nothing (project : ProjectBlock)

namespace OpenItem

/-- The item with a layout as its body. -/
def fill (item : OpenItem) (layout : LayoutBlock) : FilledItem :=
  match item with
  | .screen project head => .screen project head layout
  | .layoutDefinition project head => .layoutDefinition project head layout
  | .componentDefinition project head => .componentDefinition project head (.layout layout)

/-- What can be the body of the item. -/
def expected : OpenItem → Expectation
  | .screen _ _ => .layout
  | .layoutDefinition _ _ => .layout
  | .componentDefinition _ _ => .definitionBody

/-- The body begins. -/
def step (item : OpenItem) (t : Lexeme) : Option ReaderState :=
  match t.token with
  | .keyword .layout => some (.layoutKind (.body item) t)
  | .keyword .component =>
    match item with
    | .componentDefinition project head => some (.componentKind (.body project head) t)
    | _ => none
  | _ => none

end OpenItem

namespace FilledItem

/-- What can follow the body. -/
def expected : FilledItem → Expectation
  | .screen _ _ _ => .screenEnd
  | .layoutDefinition _ _ _ => .layoutDefinitionEnd
  | .componentDefinition _ _ _ => .componentDefinitionEnd

/-- The project with the item added. -/
def close (item : FilledItem) (closing : Lexeme) : OpenProject :=
  match item with
  | .screen project head layout => project.add (.screen ⟨head, layout, closing⟩)
  | .layoutDefinition project head layout =>
    project.add (.definition (.layout head layout closing))
  | .componentDefinition project head body =>
    project.add (.definition (.component head body closing))

/-- The item ends. -/
def step (item : FilledItem) (t : Lexeme) : Option ReaderState :=
  match t.token with
  | .mark .rightBrace => some (.item (item.close t))
  | _ => none

end FilledItem

namespace OpenBlock

/-- The block with one more child. -/
def add (block : OpenBlock) (child : Block) : OpenBlock :=
  match block with
  | .body item head children => .body item head (children ++ [child])
  | .layout outer head children => .layout outer head (children ++ [child])
  | .cell outer head children => .cell outer head (children ++ [child])

/-- The block ends and takes its place in the one around it. -/
def close (block : OpenBlock) (closing : Lexeme) : ReaderState :=
  match block with
  | .body item head children => .itemEnd (item.fill ⟨⟨head, closing⟩, children⟩)
  | .layout outer head children => .child (outer.add (.layout ⟨head, closing⟩ children))
  | .cell outer head children => .child (outer.add (.cell ⟨head, closing⟩ children))

/-- What the block can hold. A cell holds no cells. -/
def expected : OpenBlock → Expectation
  | .body _ _ _ => .layoutChild
  | .layout _ _ _ => .layoutChild
  | .cell _ _ _ => .cellChild

/-- A child begins, or the block ends. -/
def step (block : OpenBlock) (t : Lexeme) : Option ReaderState :=
  match t.token with
  | .keyword .component => some (.componentKind (.child block) t)
  | .keyword .layout => some (.layoutKind (.child block) t)
  | .keyword .cell =>
    match block with
    | .cell _ _ _ => none
    | _ => some (.property (.cell block t) [])
  | .mark .rightBrace => some (block.close t)
  | _ => none

end OpenBlock

/-- A layout opens where it stands. -/
def LayoutSite.enter (site : LayoutSite) (head : LayoutHead) : OpenBlock :=
  match site with
  | .body item => .body item head []
  | .child outer => .layout outer head []

namespace ComponentSite

/-- What can follow a component. -/
def expected : ComponentSite → Expectation
  | .body _ _ => .componentDefinitionEnd
  | .child outer => outer.expected

/-- The component is complete, and the next token follows it. -/
def step (site : ComponentSite) (component : ComponentBlock) (t : Lexeme) : Option ReaderState :=
  match site with
  | .body project head =>
    (FilledItem.componentDefinition project head (.component component)).step t
  | .child outer => (outer.add (.component component)).step t

end ComponentSite

namespace ParamSite

/-- The block opens. -/
def enter (site : ParamSite) (params : Option ParamList) (opening : Lexeme) : ReaderState :=
  match site with
  | .screen project keyword name => .body (.screen project ⟨keyword, name, params, opening⟩)
  | .layout site keyword kind => .child (site.enter ⟨keyword, kind, params, opening⟩)

/-- Parameters begin, or the block opens. -/
def step (site : ParamSite) (params : Option ParamList) (t : Lexeme) : Option ReaderState :=
  match t.token, params with
  | .mark .leftBrace, _ => some (site.enter params t)
  | .mark .leftParen, none => some (.property (.params site t) [])
  | _, _ => none

end ParamSite

namespace PropertySite

/-- What can follow the properties. -/
def expected : PropertySite → Expectation
  | .settings _ _ => .settingsEnd
  | .component site _ _ => site.expected
  | .cell _ _ => .cellOpening
  | .params _ _ => .paramEnd

/-- Something other than a name follows the properties. -/
def leave (site : PropertySite) (properties : List WrittenProperty) (t : Lexeme) :
    Option ReaderState :=
  match site with
  | .settings project head =>
    match t.token with
    | .mark .rightBrace => some (.item (project.add (.settings ⟨head, properties, t⟩)))
    | _ => none
  | .component site keyword kind => site.step ⟨keyword, kind, properties⟩ t
  | .cell outer keyword =>
    match t.token with
    | .mark .leftBrace => some (.child (.cell outer ⟨keyword, properties, t⟩ []))
    | _ => none
  | .params site opening =>
    match t.token, properties with
    | .mark .rightParen, _ => some (.opening site (some ⟨opening, properties, t⟩))
    -- A comma needs a property before it.
    | .mark .comma, _ :: _ => some (.param site opening properties t)
    | _, _ => none

/-- Whether a name begins one more property. Parameters need a comma between them. -/
def takesName (site : PropertySite) (properties : List WrittenProperty) : Bool :=
  match site with
  | .params _ _ => properties.isEmpty
  | _ => true

/-- One more property begins, or something else follows the properties. -/
def step (site : PropertySite) (properties : List WrittenProperty) (t : Lexeme) :
    Option ReaderState :=
  if t.token.isName && site.takesName properties then some (.colon site properties t)
  else site.leave properties t

end PropertySite

/-- An item begins, or the project ends. -/
def OpenProject.step (project : OpenProject) (t : Lexeme) : Option ReaderState :=
  match t.token with
  | .keyword .style => some (.settingsOpening project .style t)
  | .keyword .mocks => some (.settingsOpening project .mocks t)
  | .keyword .colors => some (.settingsOpening project .colors t)
  | .keyword .define => some (.definitionKind project t)
  | .keyword .screen => some (.screenName project t)
  | .mark .rightBrace => some (.nothing ⟨project.head, project.items, t⟩)
  | _ => none

/-- The item that a definition opens, by the word for its kind. -/
def OpenItem.ofDefinition (project : OpenProject) (head : DefinitionHead) : OpenItem :=
  if head.kind.token = .keyword .layoutKind then .layoutDefinition project head
  else .componentDefinition project head

namespace ReaderState

/-- The state after one more token, if the token can come here. -/
def step (state : ReaderState) (t : Lexeme) : Option ReaderState :=
  match state with
  | .start => if t.token = .keyword .project then some (.projectName t) else none
  | .projectName keyword => if t.token.isString then some (.projectOpening keyword t) else none
  | .projectOpening keyword name =>
    if t.token = .mark .leftBrace then some (.item ⟨⟨keyword, name, t⟩, []⟩) else none
  | .item p => p.step t
  | .settingsOpening p kind keyword =>
    if t.token = .mark .leftBrace then some (.property (.settings p ⟨kind, keyword, t⟩) [])
    else none
  | .definitionKind p define =>
    if t.token = .keyword .componentKind ∨ t.token = .keyword .layoutKind then
      some (.definitionName p define t)
    else none
  | .definitionName p define kind =>
    if t.token.isString then some (.definitionOpening p define kind t) else none
  | .definitionOpening p define kind name =>
    if t.token = .mark .leftBrace then
      some (.body (.ofDefinition p ⟨define, kind, name, t⟩))
    else none
  | .screenName p keyword =>
    if t.token.isName then some (.opening (.screen p keyword t) none) else none
  | .layoutKind site keyword =>
    if t.token.isName then some (.opening (.layout site keyword t) none) else none
  | .componentKind site keyword =>
    if t.token.isName then some (.property (.component site keyword t) []) else none
  | .opening site params => site.step params t
  | .property site properties => site.step properties t
  | .colon site properties name =>
    if t.token = .mark .colon then some (.value site properties name) else none
  | .value site properties name =>
    if t.token.isValue then some (.property site (properties ++ [⟨name, t⟩])) else none
  | .param site paren properties _ =>
    if t.token.isName then some (.colon (.params site paren) properties t) else none
  | .body held => held.step t
  | .child block => block.step t
  | .itemEnd held => held.step t
  | .nothing _ => none

/-- What could come next. -/
def expected : ReaderState → Expectation
  | .start => .project
  | .projectName _ => .projectName
  | .projectOpening _ _ => .opening
  | .item _ => .item
  | .settingsOpening _ _ _ => .opening
  | .definitionKind _ _ => .definitionKind
  | .definitionName _ _ _ => .definitionName
  | .definitionOpening _ _ _ _ => .opening
  | .screenName _ _ => .screenName
  | .layoutKind _ _ => .layoutType
  | .componentKind _ _ => .componentType
  | .opening _ _ => .opening
  | .property site _ => site.expected
  | .colon _ _ _ => .colon
  | .value _ _ _ => .value
  | .param _ _ _ _ => .paramEnd
  | .body held => held.expected
  | .child block => block.expected
  | .itemEnd held => held.expected
  | .nothing _ => .nothing

/-- A token cannot come here. A comma that no parameter follows is itself out of place. -/
def refuse (state : ReaderState) (previous : Option Lexeme) (t : Lexeme) : SyntaxFault :=
  match state with
  | .param _ _ _ comma => .unexpected comma none .paramEnd
  | _ => .unexpected t previous state.expected

/-- The tokens end here, after `last`. -/
def finish (state : ReaderState) (last : Option Lexeme) : Except SyntaxFault ProjectBlock :=
  match state with
  | .nothing p => .ok p
  | .param _ _ _ comma => .error (.unexpected comma none .paramEnd)
  | _ => .error (.ended last state.expected)

/-- Read all tokens that follow `previous`. -/
def run (state : ReaderState) (previous : Option Lexeme) :
    List Lexeme → Except SyntaxFault ProjectBlock
  | [] => state.finish previous
  | t :: others =>
    match state.step t with
    | some next => next.run (some t) others
    | none => .error (state.refuse previous t)

end ReaderState

/-- The first brace inside too many others, when `depth` blocks are open. A closing brace too many
is passed over here: it is a fault of its own. -/
def firstTooDeep? (depth : Nat) : List Lexeme → Option Lexeme
  | [] => none
  | t :: others =>
    match t.token with
    | .mark .leftBrace => if nestingLimit ≤ depth then some t else firstTooDeep? (depth + 1) others
    | .mark .rightBrace => firstTooDeep? (depth - 1) others
    | _ => firstTooDeep? depth others

/-- The project that a row of tokens is. Nesting is checked before anything else. -/
def ProjectBlock.ofLexemes (lexemes : List Lexeme) : Except SyntaxFault ProjectBlock :=
  match firstTooDeep? 0 lexemes with
  | some brace => .error (.tooDeep brace)
  | none => ReaderState.start.run none lexemes

end Wireframe
