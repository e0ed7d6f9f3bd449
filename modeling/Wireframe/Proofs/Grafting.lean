import Wireframe.Proofs.ReaderProgress

/-!
# Reading grafted blocks

The reader looks at tokens and never at where they stand, so tokens that stand nowhere are read to
the same blocks, up to where those stand. At the same time blocks may be grown: what is grafted in
front of a closing brace is as good as read there. A single step commutes with both unless it closes
a block that something is grafted into.

## Main definitions

* `Lexeme.bare` — a token that stands nowhere.
* `Graft`, `Block.grafted` — blocks to put in front of closing braces, and what they make of others.
* `ReaderState.grafted`, `ReaderState.block?` — the same for what has been read so far, and the
  block that a brace would close.
* `ProjectBlock.bare`, `SyntaxFault.bare` — the outcome of reading, of which the tokens stand
  nowhere.

## Main results

* `ReaderState.step_grafted` — how a step commutes with grafting.
* `ReaderState.run_grafted` — how a run does.
* `ofLexemes_bare` — reading does not depend on where tokens stand.
-/

namespace Wireframe

/-! ### Blocks -/

/-- A token that stands nowhere. -/
def Lexeme.bare (l : Lexeme) : Lexeme where
  token := l.token
  span := {}
  range := {}

@[simp]
theorem Lexeme.token_bare (l : Lexeme) : l.bare.token = l.token :=
  rfl

@[simp]
theorem Lexeme.text_bare (l : Lexeme) : l.bare.text = l.text :=
  rfl

/-- Rows with the same tokens are the same once they stand nowhere. -/
theorem map_bare_eq {ls ms : List Lexeme} (same : ls.map Lexeme.token = ms.map Lexeme.token) :
    ls.map Lexeme.bare = ms.map Lexeme.bare := by
  have shape : Lexeme.bare = (fun t => ⟨t, {}, {}⟩) ∘ Lexeme.token := rfl
  rw [shape, ← List.map_map, ← List.map_map, same]

/-- The property with tokens that stand nowhere. -/
def WrittenProperty.bare (p : WrittenProperty) : WrittenProperty :=
  ⟨p.name.bare, p.value.bare⟩

/-- The parameters with tokens that stand nowhere. -/
def ParamList.bare (params : ParamList) : ParamList :=
  ⟨params.opening.bare, params.properties.map WrittenProperty.bare, params.closing.bare⟩

/-- The component with tokens that stand nowhere. -/
def ComponentBlock.bare (c : ComponentBlock) : ComponentBlock :=
  ⟨c.keyword.bare, c.kind.bare, c.properties.map WrittenProperty.bare⟩

/-- The head of a layout with tokens that stand nowhere. -/
def LayoutHead.bare (head : LayoutHead) : LayoutHead :=
  ⟨head.keyword.bare, head.kind.bare, head.params.map ParamList.bare, head.opening.bare⟩

/-- The head of a cell with tokens that stand nowhere. -/
def CellHead.bare (head : CellHead) : CellHead :=
  ⟨head.keyword.bare, head.properties.map WrittenProperty.bare, head.opening.bare⟩

/-- The head of a screen with tokens that stand nowhere. -/
def ScreenHead.bare (head : ScreenHead) : ScreenHead :=
  ⟨head.keyword.bare, head.name.bare, head.params.map ParamList.bare, head.opening.bare⟩

/-- The head of a definition with tokens that stand nowhere. -/
def DefinitionHead.bare (head : DefinitionHead) : DefinitionHead :=
  ⟨head.define.bare, head.kind.bare, head.name.bare, head.opening.bare⟩

/-- The head of settings with tokens that stand nowhere. -/
def SettingsHead.bare (head : SettingsHead) : SettingsHead :=
  ⟨head.kind, head.keyword.bare, head.opening.bare⟩

/-- Settings with tokens that stand nowhere. -/
def SettingsBlock.bare (block : SettingsBlock) : SettingsBlock :=
  ⟨block.head.bare, block.properties.map WrittenProperty.bare, block.closing.bare⟩

/-- The head of a project with tokens that stand nowhere. -/
def ProjectHead.bare (head : ProjectHead) : ProjectHead :=
  ⟨head.keyword.bare, head.name.bare, head.opening.bare⟩

/-- The head and the closing brace of a block with tokens that stand nowhere. -/
def Closed.bare {α : Type} (bare : α → α) (block : Closed α) : Closed α :=
  ⟨bare block.head, block.closing.bare⟩

/-- What to put in front of a closing brace. The tokens of it stand nowhere. -/
abbrev Graft :=
  Lexeme → List Block

/-- Nothing is grafted anywhere. -/
def Graft.nothing : Graft :=
  fun _ => []

section Blocks

variable (graft : Graft)

/-- The block with tokens that stand nowhere, grown by what is grafted into it and into the blocks
inside it. -/
def Block.grafted : Block → Block :=
  Tree.fold (fun c => .component c.bare)
    (fun l inside => .layout (l.bare LayoutHead.bare) (inside ++ graft l.closing))
    (fun k inside => .cell (k.bare CellHead.bare) (inside ++ graft k.closing))

@[simp]
theorem Block.grafted_component (c : ComponentBlock) :
    Block.grafted graft (.component c) = .component c.bare :=
  Tree.fold_component _ _ _ c

@[simp]
theorem Block.grafted_layout (l : Closed LayoutHead) (blocks : List Block) :
    Block.grafted graft (.layout l blocks) =
      .layout (l.bare LayoutHead.bare) (blocks.map (Block.grafted graft) ++ graft l.closing) :=
  Tree.fold_layout _ _ _ l blocks

@[simp]
theorem Block.grafted_cell (k : Closed CellHead) (blocks : List Block) :
    Block.grafted graft (.cell k blocks) =
      .cell (k.bare CellHead.bare) (blocks.map (Block.grafted graft) ++ graft k.closing) :=
  Tree.fold_cell _ _ _ k blocks

/-- A grafted layout. -/
def LayoutBlock.grafted (l : LayoutBlock) : LayoutBlock :=
  ⟨l.layout.bare LayoutHead.bare, l.children.map (Block.grafted graft) ++ graft l.layout.closing⟩

theorem Block.grafted_toTree (l : LayoutBlock) :
    Block.grafted graft l.toTree = (LayoutBlock.grafted graft l).toTree :=
  Block.grafted_layout graft l.layout l.children

/-- The grafted body of a component definition. -/
def DefinitionBody.grafted : DefinitionBody → DefinitionBody
  | .layout l => .layout (LayoutBlock.grafted graft l)
  | .component c => .component c.bare

/-- A grafted item. -/
def Item.grafted : Item → Item
  | .settings block => .settings block.bare
  | .definition (.component head body closing) =>
    .definition (.component head.bare (body.grafted graft) closing.bare)
  | .definition (.layout head layout closing) =>
    .definition (.layout head.bare (LayoutBlock.grafted graft layout) closing.bare)
  | .screen block =>
    .screen ⟨block.head.bare, LayoutBlock.grafted graft block.layout, block.closing.bare⟩

/-- A grafted project. -/
def ProjectBlock.grafted (project : ProjectBlock) : ProjectBlock :=
  ⟨project.head.bare, project.items.map (Item.grafted graft), project.closing.bare⟩

/-! ### What has been read so far -/

/-- A grafted open project. -/
def OpenProject.grafted (project : OpenProject) : OpenProject :=
  ⟨project.head.bare, project.items.map (Item.grafted graft)⟩

/-- A grafted item that waits for its body. -/
def OpenItem.grafted : OpenItem → OpenItem
  | .screen project head => .screen (project.grafted graft) head.bare
  | .layoutDefinition project head => .layoutDefinition (project.grafted graft) head.bare
  | .componentDefinition project head => .componentDefinition (project.grafted graft) head.bare

/-- A grafted item that waits for its closing brace. -/
def FilledItem.grafted : FilledItem → FilledItem
  | .screen project head layout =>
    .screen (project.grafted graft) head.bare (LayoutBlock.grafted graft layout)
  | .layoutDefinition project head layout =>
    .layoutDefinition (project.grafted graft) head.bare (LayoutBlock.grafted graft layout)
  | .componentDefinition project head body =>
    .componentDefinition (project.grafted graft) head.bare (body.grafted graft)

/-- A grafted open block. Into the block itself nothing is grafted before it closes. -/
def OpenBlock.grafted : OpenBlock → OpenBlock
  | .body item head children =>
    .body (item.grafted graft) head.bare (children.map (Block.grafted graft))
  | .layout outer head children =>
    .layout outer.grafted head.bare (children.map (Block.grafted graft))
  | .cell outer head children =>
    .cell outer.grafted head.bare (children.map (Block.grafted graft))

/-- A grafted place for a layout. -/
def LayoutSite.grafted : LayoutSite → LayoutSite
  | .body item => .body (item.grafted graft)
  | .child outer => .child (outer.grafted graft)

/-- A grafted place for a component. -/
def ComponentSite.grafted : ComponentSite → ComponentSite
  | .body project head => .body (project.grafted graft) head.bare
  | .child outer => .child (outer.grafted graft)

/-- A grafted block up to its name or type. -/
def ParamSite.grafted : ParamSite → ParamSite
  | .screen project keyword name => .screen (project.grafted graft) keyword.bare name.bare
  | .layout site keyword kind => .layout (site.grafted graft) keyword.bare kind.bare

/-- A grafted place for properties. -/
def PropertySite.grafted : PropertySite → PropertySite
  | .settings project head => .settings (project.grafted graft) head.bare
  | .component site keyword kind => .component (site.grafted graft) keyword.bare kind.bare
  | .cell outer keyword => .cell (outer.grafted graft) keyword.bare
  | .params site opening => .params (site.grafted graft) opening.bare

/-- A grafted state. -/
def ReaderState.grafted : ReaderState → ReaderState
  | .start => .start
  | .projectName keyword => .projectName keyword.bare
  | .projectOpening keyword name => .projectOpening keyword.bare name.bare
  | .item project => .item (project.grafted graft)
  | .settingsOpening project kind keyword =>
    .settingsOpening (project.grafted graft) kind keyword.bare
  | .definitionKind project define => .definitionKind (project.grafted graft) define.bare
  | .definitionName project define kind =>
    .definitionName (project.grafted graft) define.bare kind.bare
  | .definitionOpening project define kind name =>
    .definitionOpening (project.grafted graft) define.bare kind.bare name.bare
  | .screenName project keyword => .screenName (project.grafted graft) keyword.bare
  | .layoutKind site keyword => .layoutKind (site.grafted graft) keyword.bare
  | .componentKind site keyword => .componentKind (site.grafted graft) keyword.bare
  | .opening site params => .opening (site.grafted graft) (params.map ParamList.bare)
  | .property site properties =>
    .property (site.grafted graft) (properties.map WrittenProperty.bare)
  | .colon site properties name =>
    .colon (site.grafted graft) (properties.map WrittenProperty.bare) name.bare
  | .value site properties name =>
    .value (site.grafted graft) (properties.map WrittenProperty.bare) name.bare
  | .param site paren properties comma =>
    .param (site.grafted graft) paren.bare (properties.map WrittenProperty.bare) comma.bare
  | .body held => .body (held.grafted graft)
  | .child block => .child (block.grafted graft)
  | .itemEnd held => .itemEnd (held.grafted graft)
  | .nothing project => .nothing (project.grafted graft)

end Blocks

/-- The block that a brace would close behind properties. -/
def PropertySite.block? (site : PropertySite) (properties : List WrittenProperty) :
    Option OpenBlock :=
  match site with
  | .component (.child outer) keyword kind =>
    some (outer.add (.component ⟨keyword, kind, properties⟩))
  | _ => none

/-- The block that a brace would close. -/
def ReaderState.block? : ReaderState → Option OpenBlock
  | .property site properties => site.block? properties
  | .child block => some block
  | _ => none

/-- A token closes a block. -/
structure ReaderState.Closes (state : ReaderState) (t : Lexeme) : Prop where
  block : state.block?.isSome = true
  brace : t.token = .mark .rightBrace

theorem ReaderState.restsIn_of_block? {state : ReaderState} {block : OpenBlock}
    (found : state.block? = some block) : RestsIn state block := by
  cases state with
  | child inner =>
    obtain rfl := Option.some.inj found
    exact restsIn_child inner
  | property site properties =>
    match site with
    | .component (.child outer) keyword kind =>
      obtain rfl := Option.some.inj found
      exact restsIn_component outer keyword kind properties
    | .component (.body _ _) _ _ | .settings _ _ | .cell _ _ | .params _ _ => contradiction
  | _ => contradiction

/-! ### One step -/

section Step

variable (graft : Graft) (t : Lexeme)

theorem OpenProject.grafted_add (project : OpenProject) (item : Item) :
    (project.add item).grafted graft = (project.grafted graft).add (item.grafted graft) := by
  simp [OpenProject.add, OpenProject.grafted]

theorem OpenItem.grafted_fill (item : OpenItem) (layout : LayoutBlock) :
    (item.fill layout).grafted graft =
      (item.grafted graft).fill (LayoutBlock.grafted graft layout) := by
  cases item <;> rfl

theorem OpenItem.step_grafted (item : OpenItem) :
    (item.grafted graft).step t.bare = (item.step t).map (ReaderState.grafted graft) := by
  unfold OpenItem.step
  simp only [Lexeme.token_bare]
  split
  · rfl
  · cases item <;> rfl
  · rfl

theorem FilledItem.grafted_close (item : FilledItem) :
    (item.close t).grafted graft = (item.grafted graft).close t.bare := by
  cases item <;> exact OpenProject.grafted_add graft _ _

theorem FilledItem.step_grafted (item : FilledItem) :
    (item.grafted graft).step t.bare = (item.step t).map (ReaderState.grafted graft) := by
  unfold FilledItem.step
  simp only [Lexeme.token_bare]
  split
  · rw [← FilledItem.grafted_close]
    rfl
  · rfl

theorem OpenBlock.grafted_add (block : OpenBlock) (child : Block) :
    (block.add child).grafted graft = (block.grafted graft).add (Block.grafted graft child) := by
  cases block <;> simp [OpenBlock.add, OpenBlock.grafted]

/-- A block that closes takes in what is grafted in front of its brace. -/
theorem OpenBlock.grafted_close (block : OpenBlock) :
    (block.close t).grafted graft = ((block.grafted graft).addAll (graft t)).close t.bare := by
  cases block with
  | body item head children =>
    rw [OpenBlock.grafted, addAll_eq (OpenBlock.body (item.grafted graft) head.bare) fun _ _ => rfl]
    exact congrArg ReaderState.itemEnd (OpenItem.grafted_fill graft item _)
  | layout outer head children =>
    rw [OpenBlock.grafted,
      addAll_eq (OpenBlock.layout (outer.grafted graft) head.bare) fun _ _ => rfl]
    have added := outer.grafted_add graft (.layout ⟨head, t⟩ children)
    rw [Block.grafted_layout] at added
    exact congrArg ReaderState.child added
  | cell outer head children =>
    rw [OpenBlock.grafted,
      addAll_eq (OpenBlock.cell (outer.grafted graft) head.bare) fun _ _ => rfl]
    have added := outer.grafted_add graft (.cell ⟨head, t⟩ children)
    rw [Block.grafted_cell] at added
    exact congrArg ReaderState.child added

variable {graft t}

theorem OpenBlock.step_grafted (block : OpenBlock)
    (free : t.token = .mark .rightBrace → graft t = []) :
    (block.grafted graft).step t.bare = (block.step t).map (ReaderState.grafted graft) := by
  unfold OpenBlock.step
  simp only [Lexeme.token_bare]
  split
  case h_1 | h_2 | h_5 => rfl
  case h_3 => cases block <;> rfl
  case h_4 closed =>
    rw [Option.map_some, OpenBlock.grafted_close, free closed]
    rfl

theorem LayoutSite.grafted_enter (site : LayoutSite) (head : LayoutHead) :
    (site.enter head).grafted graft = (site.grafted graft).enter head.bare := by
  cases site <;> rfl

theorem ComponentSite.step_grafted (site : ComponentSite) (c : ComponentBlock)
    (free : t.token = .mark .rightBrace → graft t = []) :
    (site.grafted graft).step c.bare t.bare = (site.step c t).map (ReaderState.grafted graft) := by
  cases site with
  | body project head =>
    exact FilledItem.step_grafted graft t (.componentDefinition project head (.component c))
  | child outer =>
    have added := outer.grafted_add graft (.component c)
    have step := OpenBlock.step_grafted (outer.add (.component c)) free
    rw [added, Block.grafted_component] at step
    exact step

theorem ParamSite.grafted_enter (site : ParamSite) (params : Option ParamList) :
    (site.enter params t).grafted graft =
      (site.grafted graft).enter (params.map ParamList.bare) t.bare := by
  cases site with
  | screen project keyword name => rfl
  | layout site keyword kind =>
    exact congrArg ReaderState.child (site.grafted_enter ⟨keyword, kind, params, t⟩)

theorem ParamSite.step_grafted (site : ParamSite) (params : Option ParamList) :
    (site.grafted graft).step (params.map ParamList.bare) t.bare =
      (site.step params t).map (ReaderState.grafted graft) := by
  unfold ParamSite.step
  simp only [Lexeme.token_bare]
  cases params <;> cases t.token with
  | mark sign =>
    cases sign <;> first | rfl | exact congrArg some (ParamSite.grafted_enter site _).symm
  | _ => rfl

/-- A place for properties is left alike, unless a brace closes a block into which something is
grafted. -/
theorem PropertySite.leave_grafted (site : PropertySite) (properties : List WrittenProperty)
    (free : (ReaderState.property site properties).Closes t → graft t = []) :
    (site.grafted graft).leave (properties.map WrittenProperty.bare) t.bare =
      (site.leave properties t).map (ReaderState.grafted graft) := by
  match site with
  | .settings project head =>
    simp only [PropertySite.grafted, PropertySite.leave, Lexeme.token_bare]
    split
    · have added := project.grafted_add graft (.settings ⟨head, properties, t⟩)
      rw [Option.map_some, ReaderState.grafted, added]
      rfl
    · rfl
  | .component (.body project head) keyword kind =>
    exact FilledItem.step_grafted graft t
      (.componentDefinition project head (.component ⟨keyword, kind, properties⟩))
  | .component (.child outer) keyword kind =>
    exact ComponentSite.step_grafted (.child outer) ⟨keyword, kind, properties⟩ fun closed =>
      free ⟨rfl, closed⟩
  | .cell outer keyword =>
    simp only [PropertySite.grafted, PropertySite.leave, Lexeme.token_bare]
    split <;> rfl
  | .params site opening =>
    simp only [PropertySite.grafted, PropertySite.leave, Lexeme.token_bare]
    cases properties <;> cases t.token with
    | mark sign => cases sign <;> rfl
    | _ => rfl

theorem PropertySite.takesName_grafted (site : PropertySite) (properties : List WrittenProperty) :
    (site.grafted graft).takesName (properties.map WrittenProperty.bare) =
      site.takesName properties := by
  cases site with
  | params site opening => exact List.isEmpty_map
  | _ => rfl

theorem PropertySite.step_grafted (site : PropertySite) (properties : List WrittenProperty)
    (free : (ReaderState.property site properties).Closes t → graft t = []) :
    (site.grafted graft).step (properties.map WrittenProperty.bare) t.bare =
      (site.step properties t).map (ReaderState.grafted graft) := by
  unfold PropertySite.step
  rw [PropertySite.takesName_grafted, Lexeme.token_bare]
  split
  · rfl
  · exact PropertySite.leave_grafted site properties free

theorem OpenProject.step_grafted (project : OpenProject) :
    (project.grafted graft).step t.bare = (project.step t).map (ReaderState.grafted graft) := by
  unfold OpenProject.step
  simp only [Lexeme.token_bare]
  split <;> rfl

theorem OpenItem.grafted_ofDefinition (project : OpenProject) (head : DefinitionHead) :
    (OpenItem.ofDefinition project head).grafted graft =
      .ofDefinition (project.grafted graft) head.bare := by
  unfold OpenItem.ofDefinition
  by_cases layout : head.kind.token = .keyword .layoutKind
  · rw [if_pos layout, if_pos (show head.bare.kind.token = _ from layout)]
    rfl
  · rw [if_neg layout, if_neg (show ¬ head.bare.kind.token = _ from layout)]
    rfl

end Step

namespace ReaderState

variable {graft : Graft}

/-- A step commutes with grafting, unless it closes a block into which something is grafted. -/
theorem step_grafted (state : ReaderState) {t : Lexeme}
    (free : state.Closes t → graft t = []) :
    (state.grafted graft).step t.bare = (state.step t).map (grafted graft) := by
  cases state with
  | item project => exact project.step_grafted
  | opening site params => exact site.step_grafted params
  | property site properties => exact site.step_grafted properties free
  | body item => exact item.step_grafted graft t
  | child block => exact block.step_grafted fun closed => free ⟨rfl, closed⟩
  | itemEnd item => exact item.step_grafted graft t
  | nothing project => rfl
  | definitionOpening project define kind name =>
    rw [step, Option.map_if, grafted, grafted, OpenItem.grafted_ofDefinition]
    rfl
  | value site properties name =>
    rw [step, Option.map_if, grafted, List.map_append]
    rfl
  | start | projectName | projectOpening | settingsOpening | definitionKind | definitionName
  | screenName | layoutKind | componentKind | colon | param =>
    rw [step, Option.map_if]
    rfl

theorem expected_grafted (graft : Graft) (state : ReaderState) :
    (state.grafted graft).expected = state.expected := by
  cases state with
  | property site properties =>
    match site with
    | .component (.child outer) _ _ => cases outer <;> rfl
    | .component (.body _ _) _ _ | .settings _ _ | .cell _ _ | .params _ _ => rfl
  | body held => cases held <;> rfl
  | child block => cases block <;> rfl
  | itemEnd held => cases held <;> rfl
  | _ => rfl

end ReaderState

/-! ### Runs -/

/-- The fault with tokens that stand nowhere. -/
def SyntaxFault.bare : SyntaxFault → SyntaxFault
  | .unexpected found previous expected =>
    .unexpected found.bare (previous.map Lexeme.bare) expected
  | .ended last expected => .ended (last.map Lexeme.bare) expected
  | .tooDeep brace => .tooDeep brace.bare

/-- What reading comes to when blocks are grafted. -/
def graftedOutcome (graft : Graft) (outcome : Except SyntaxFault ProjectBlock) :
    Except SyntaxFault ProjectBlock :=
  (outcome.map (ProjectBlock.grafted graft)).mapError SyntaxFault.bare

/-- A project with tokens that stand nowhere. -/
def ProjectBlock.bare (project : ProjectBlock) : ProjectBlock :=
  project.grafted .nothing

section Runs

variable {graft : Graft} {ls : List Lexeme}

theorem ReaderState.refuse_grafted (state : ReaderState) (previous : Option Lexeme) (t : Lexeme) :
    (state.grafted graft).refuse (previous.map Lexeme.bare) t.bare =
      (state.refuse previous t).bare := by
  have expected := state.expected_grafted graft
  cases state with
  | param site opening properties comma => rfl
  | _ => exact congrArg (SyntaxFault.unexpected _ _) expected

theorem ReaderState.finish_grafted (state : ReaderState) (last : Option Lexeme) :
    (state.grafted graft).finish (last.map Lexeme.bare) =
      graftedOutcome graft (state.finish last) := by
  have expected := state.expected_grafted graft
  cases state with
  | param | nothing => rfl
  | _ => exact congrArg (fun e => Except.error (SyntaxFault.ended _ e)) expected

/-- A run commutes with grafting, if nothing is grafted in front of what it reads. -/
theorem ReaderState.run_grafted (state : ReaderState) (previous : Option Lexeme)
    (free : ∀ l ∈ ls, graft l = []) :
    (state.grafted graft).run (previous.map Lexeme.bare) (ls.map Lexeme.bare) =
      graftedOutcome graft (state.run previous ls) := by
  -- The step that is taken or refused is the same one, token by token.
  induction ls generalizing state previous with
  | nil => exact state.finish_grafted previous
  | cons t others ih =>
    obtain ⟨first, rest⟩ := List.forall_mem_cons.mp free
    rw [List.map_cons, run, run, state.step_grafted fun _ => first]
    cases state.step t with
    | some next => exact ih next (some t) rest
    | none => exact congrArg Except.error (state.refuse_grafted previous t)

/-- Runs that arrive somewhere do so when blocks are grafted. -/
theorem Arrives.grafted {state last : ReaderState} (arrives : Arrives state ls last)
    (free : ∀ l ∈ ls, graft l = []) :
    Arrives (state.grafted graft) (ls.map Lexeme.bare) (last.grafted graft) := by
  induction arrives with
  | refl s => exact .refl _
  | @step s next last t ls step _ ih =>
    obtain ⟨first, rest⟩ := List.forall_mem_cons.mp free
    refine .step ?_ (ih rest)
    rw [s.step_grafted fun _ => first, step]
    rfl

theorem firstTooDeep?_bare (depth : Nat) (ls : List Lexeme) :
    firstTooDeep? depth (ls.map Lexeme.bare) = (firstTooDeep? depth ls).map Lexeme.bare := by
  induction ls generalizing depth with
  | nil => rfl
  | cons t others ih =>
    simp only [List.map_cons, firstTooDeep?, Lexeme.token_bare]
    split
    · split
      · rfl
      · exact ih _
    · exact ih _
    · exact ih _

/-- Reading does not depend on where tokens stand. -/
theorem ofLexemes_bare (ls : List Lexeme) :
    ProjectBlock.ofLexemes (ls.map Lexeme.bare) =
      ((ProjectBlock.ofLexemes ls).map ProjectBlock.bare).mapError SyntaxFault.bare := by
  rw [ProjectBlock.ofLexemes, ProjectBlock.ofLexemes, firstTooDeep?_bare]
  cases firstTooDeep? 0 ls with
  | some brace => rfl
  | none => exact ReaderState.start.run_grafted none fun _ _ => rfl

/-- What is read of tokens that stand nowhere is read of the tokens themselves. -/
theorem exists_of_ofLexemes_bare {project : ProjectBlock}
    (read : ProjectBlock.ofLexemes (ls.map Lexeme.bare) = .ok project) :
    ∃ block, ProjectBlock.ofLexemes ls = .ok block ∧ block.bare = project := by
  rw [ofLexemes_bare] at read
  cases found : ProjectBlock.ofLexemes ls with
  | ok block =>
    rw [found] at read
    exact ⟨block, rfl, Except.ok.inj read⟩
  | error fault =>
    rw [found] at read
    contradiction

end Runs

end Wireframe
