import Wireframe.Proofs.Spelling

/-!
# What the reader has read

At every point the state of the reader gives back exactly the tokens read so far, and everything in
it stands where the grammar has it. Every single step keeps both, so a project that is read gives
back all of its tokens and is derived as a whole.

## Main definitions

* `ReaderState.written` — the tokens that a state gives back.
* `ReaderState.Sound` — a state in which everything stands where the grammar has it.
* `Follows` — a sound state that gives back one token more.

## Main results

* `ReaderState.step_follows` — what one step does.
* `ReaderState.run_sound` — what a whole run does.
-/

namespace Wireframe

/-! ### What a state gives back -/

/-- An open project and the items in it. -/
def OpenProject.written (project : OpenProject) : List Written :=
  project.head.written ++ project.items.flatMap Item.written

/-- An item up to its opening brace. -/
def OpenItem.written : OpenItem → List Written
  | .screen project head => project.written ++ head.written
  | .layoutDefinition project head | .componentDefinition project head =>
    project.written ++ head.written

/-- An item up to its body. -/
def FilledItem.written : FilledItem → List Written
  | .screen project head layout => project.written ++ (head.written ++ Block.written layout.toTree)
  | .layoutDefinition project head layout =>
    project.written ++ (head.written ++ Block.written layout.toTree)
  | .componentDefinition project head body =>
    project.written ++ (head.written ++ Block.written body.block)

/-- An open block with all around it and all inside it. -/
def OpenBlock.written : OpenBlock → List Written
  | .body item head children =>
    item.written ++ (head.written ++ children.flatMap Block.written)
  | .layout outer head children =>
    outer.written ++ (head.written ++ children.flatMap Block.written)
  | .cell outer head children =>
    outer.written ++ (head.written ++ children.flatMap Block.written)

/-- What stands before a layout. -/
def LayoutSite.written : LayoutSite → List Written
  | .body item => item.written
  | .child outer => outer.written

/-- What stands before a component. -/
def ComponentSite.written : ComponentSite → List Written
  | .body project head => project.written ++ head.written
  | .child outer => outer.written

/-- A block up to its name or type. -/
def ParamSite.written : ParamSite → List Written
  | .screen project keyword name => project.written ++ [.own keyword, .own name]
  | .layout site keyword kind => site.written ++ [.own keyword, .own kind]

/-- Properties and what stands before them. -/
def PropertySite.written (site : PropertySite) (properties : List WrittenProperty) :
    List Written :=
  match site with
  | .settings project head =>
    project.written ++ (head.written ++ properties.flatMap WrittenProperty.written)
  | .component site keyword kind =>
    site.written ++ (ComponentBlock.mk keyword kind properties).written
  | .cell outer keyword =>
    outer.written ++ .own keyword :: properties.flatMap WrittenProperty.written
  | .params site opening => site.written ++ .own opening :: separated properties

/-- What stands between properties and one more. -/
def PropertySite.gap (site : PropertySite) (properties : List WrittenProperty) : List Written :=
  match site, properties with
  | .params _ _, _ :: _ => [.mark .comma]
  | _, _ => []

/-- The tokens read so far. -/
def ReaderState.written : ReaderState → List Written
  | .start => []
  | .projectName keyword => [.own keyword]
  | .projectOpening keyword name => [.own keyword, .own name]
  | .item p => p.written
  | .settingsOpening p _ keyword => p.written ++ [.own keyword]
  | .definitionKind p define => p.written ++ [.own define]
  | .definitionName p define kind => p.written ++ [.own define, .own kind]
  | .definitionOpening p define kind name => p.written ++ [.own define, .own kind, .own name]
  | .screenName p keyword => p.written ++ [.own keyword]
  | .layoutKind site keyword => site.written ++ [.own keyword]
  | .componentKind site keyword => site.written ++ [.own keyword]
  | .opening site params => site.written ++ writtenParams params
  | .property site properties => site.written properties
  | .colon site properties name => site.written properties ++ (site.gap properties ++ [.own name])
  | .value site properties name =>
    site.written properties ++ (site.gap properties ++ [.own name, .mark .colon])
  | .param site paren properties _ =>
    (PropertySite.params site paren).written properties ++ [.mark .comma]
  | .body held => held.written
  | .child block => block.written
  | .itemEnd held => held.written
  | .nothing project => project.inWrittenOrder

/-! ### Sound states -/

/-- An open project with its items as the grammar has them. -/
structure OpenProject.Sound (project : OpenProject) : Prop where
  keyword : project.head.keyword.token = .keyword .project
  name : project.head.name.token.isString = true
  opening : project.head.opening.token = .mark .leftBrace
  items : ∀ item ∈ project.items, Spells projectItem item.written

/-- An item that waits for its body. -/
def OpenItem.Sound : OpenItem → Prop
  | .screen project head => project.Sound ∧ head.Sound
  | .layoutDefinition project head => project.Sound ∧ head.Sound .layoutKind
  | .componentDefinition project head => project.Sound ∧ head.Sound .componentKind

/-- An item that waits for its closing brace. -/
def FilledItem.Sound : FilledItem → Prop
  | .screen project head layout =>
    project.Sound ∧ head.Sound ∧ Spells (.rule .layout) (Block.written layout.toTree)
  | .layoutDefinition project head layout =>
    project.Sound ∧ head.Sound .layoutKind ∧ Spells (.rule .layout) (Block.written layout.toTree)
  | .componentDefinition project head body =>
    project.Sound ∧ head.Sound .componentKind ∧
      Spells (.either (.rule .layout) (.rule .component)) (Block.written body.block)

/-- What an open block can hold. -/
def OpenBlock.child : OpenBlock → Phrase
  | .body _ _ _ | .layout _ _ _ => layoutChild
  | .cell _ _ _ => cellChild

/-- An open block, all blocks around it, and all blocks inside it. -/
def OpenBlock.Sound : OpenBlock → Prop
  | .body item head children =>
    item.Sound ∧ head.Sound ∧ ∀ b ∈ children, Spells layoutChild (Block.written b)
  | .layout outer head children =>
    outer.Sound ∧ head.Sound ∧ ∀ b ∈ children, Spells layoutChild (Block.written b)
  | .cell outer head children =>
    (outer.Sound ∧ outer.child = layoutChild) ∧ head.Sound ∧
      ∀ b ∈ children, Spells cellChild (Block.written b)

/-- A place for a layout. -/
def LayoutSite.Sound : LayoutSite → Prop
  | .body item => item.Sound
  | .child outer => outer.Sound

/-- A place for a component. -/
def ComponentSite.Sound : ComponentSite → Prop
  | .body project head => project.Sound ∧ head.Sound .componentKind
  | .child outer => outer.Sound

/-- A block up to its name or type. -/
def ParamSite.Sound : ParamSite → Prop
  | .screen project keyword name =>
    project.Sound ∧ keyword.token = .keyword .screen ∧ name.token.isName = true
  | .layout site keyword kind =>
    site.Sound ∧ keyword.token = .keyword .layout ∧ kind.token.isName = true

/-- A place for properties. -/
def PropertySite.Sound : PropertySite → Prop
  | .settings project head => project.Sound ∧ head.Sound
  | .component site keyword kind =>
    site.Sound ∧ keyword.token = .keyword .component ∧ kind.token.isName = true
  | .cell outer keyword =>
    (outer.Sound ∧ outer.child = layoutChild) ∧ keyword.token = .keyword .cell
  | .params site opening => site.Sound ∧ opening.token = .mark .leftParen

/-- A state in which everything stands where the grammar has it. -/
def ReaderState.Sound : ReaderState → Prop
  | .start => True
  | .projectName keyword => keyword.token = .keyword .project
  | .projectOpening keyword name =>
    keyword.token = .keyword .project ∧ name.token.isString = true
  | .item p => p.Sound
  | .settingsOpening p kind keyword => p.Sound ∧ keyword.token = .keyword kind.keyword
  | .definitionKind p define => p.Sound ∧ define.token = .keyword .define
  | .definitionName p define kind =>
    p.Sound ∧ define.token = .keyword .define ∧
      (kind.token = .keyword .componentKind ∨ kind.token = .keyword .layoutKind)
  | .definitionOpening p define kind name =>
    (p.Sound ∧ define.token = .keyword .define ∧
      (kind.token = .keyword .componentKind ∨ kind.token = .keyword .layoutKind)) ∧
      name.token.isString = true
  | .screenName p keyword => p.Sound ∧ keyword.token = .keyword .screen
  | .layoutKind site keyword => site.Sound ∧ keyword.token = .keyword .layout
  | .componentKind site keyword => site.Sound ∧ keyword.token = .keyword .component
  | .opening site params => site.Sound ∧ ∀ l ∈ params, l.Sound
  | .property site properties => site.Sound ∧ ∀ p ∈ properties, p.Sound
  | .colon site properties name | .value site properties name =>
    (site.Sound ∧ ∀ p ∈ properties, p.Sound) ∧ name.token.isName = true
  | .param site paren properties _ =>
    ((PropertySite.params site paren).Sound ∧ ∀ p ∈ properties, p.Sound) ∧ properties ≠ []
  | .body held => held.Sound
  | .child block => block.Sound
  | .itemEnd held => held.Sound
  | .nothing project => Spells (.rule .project) project.inWrittenOrder

/-- A sound state that gives back one token more. -/
structure Follows (before : List Written) (t : Lexeme) (next : ReaderState) : Prop where
  written : ∃ w : Written, w.Fits t ∧ next.written = before ++ [w]
  sound : next.Sound

theorem Follows.own {before : List Written} {t : Lexeme} {next : ReaderState}
    (written : next.written = before ++ [.own t]) (sound : next.Sound) : Follows before t next :=
  ⟨⟨.own t, rfl, written⟩, sound⟩

/-! ### Steps between items -/

section Step

variable {t : Lexeme} {next : ReaderState}

theorem OpenProject.written_add (project : OpenProject) (item : Item) :
    (project.add item).written = project.written ++ item.written := by
  simp [OpenProject.add, OpenProject.written]

theorem OpenProject.Sound.add {project : OpenProject} (sound : project.Sound) {item : Item}
    (spells : Spells projectItem item.written) : (project.add item).Sound where
  keyword := sound.keyword
  name := sound.name
  opening := sound.opening
  items := fun i inside => by
    rcases List.mem_append.mp inside with old | new
    · exact sound.items i old
    · rw [List.mem_singleton.mp new]
      exact spells

/-- A sound project that closes is derived as a whole. -/
theorem OpenProject.Sound.spells {project : OpenProject} (sound : project.Sound)
    (closed : t.token = .mark .rightBrace) :
    Spells (.rule .project) (ProjectBlock.inWrittenOrder ⟨project.head, project.items, t⟩) := by
  obtain ⟨raw, name⟩ := exists_of_isString sound.name
  have shape : (ProjectBlock.inWrittenOrder ⟨project.head, project.items, t⟩).map Written.token =
      .keyword .project :: .string raw :: .mark .leftBrace ::
        ((project.items.flatMap Item.written).map Written.token ++ [.mark .rightBrace]) := by
    simp [ProjectBlock.inWrittenOrder, ProjectHead.written, Written.token, sound.keyword, name,
      sound.opening, closed]
  rw [Spells, shape]
  exact .rule (derivable_titled .project raw (Spells.many sound.items))

theorem OpenProject.step_follows {project : OpenProject} (sound : project.Sound)
    (step : project.step t = some next) : Follows project.written t next := by
  unfold OpenProject.step at step
  split at step <;> cases step
  case h_1 word => exact .own rfl ⟨sound, word⟩
  case h_2 word => exact .own rfl ⟨sound, word⟩
  case h_3 word => exact .own rfl ⟨sound, word⟩
  case h_4 word => exact .own rfl ⟨sound, word⟩
  case h_5 word => exact .own rfl ⟨sound, word⟩
  case h_6 closed =>
    refine .own ?_ (sound.spells closed)
    simp [ReaderState.written, ProjectBlock.inWrittenOrder, OpenProject.written]

theorem OpenItem.written_fill (item : OpenItem) (layout : LayoutBlock) :
    (item.fill layout).written = item.written ++ Block.written layout.toTree := by
  cases item <;> simp [OpenItem.fill, FilledItem.written, OpenItem.written, DefinitionBody.block]

theorem OpenItem.Sound.fill {item : OpenItem} (sound : item.Sound) {layout : LayoutBlock}
    (spells : Spells (.rule .layout) (Block.written layout.toTree)) : (item.fill layout).Sound := by
  cases item with
  | screen project head => exact ⟨sound.1, sound.2, spells⟩
  | layoutDefinition project head => exact ⟨sound.1, sound.2, spells⟩
  | componentDefinition project head => exact ⟨sound.1, sound.2, .either_first spells⟩

theorem OpenItem.step_follows {item : OpenItem} (sound : item.Sound)
    (step : item.step t = some next) : Follows item.written t next := by
  unfold OpenItem.step at step
  split at step
  case h_1 word =>
    cases step
    exact .own rfl ⟨sound, word⟩
  case h_2 word =>
    -- Only the body of a component definition may be a component.
    split at step <;> cases step
    exact .own rfl ⟨sound, word⟩
  case h_3 => contradiction

theorem FilledItem.step_follows {item : FilledItem} (sound : item.Sound)
    (step : item.step t = some next) : Follows item.written t next := by
  unfold FilledItem.step at step
  split at step <;> cases step
  case h_1 closed =>
    cases item with
    | screen project head layout =>
      obtain ⟨outer, opened, body⟩ := sound
      refine .own ?_ (outer.add (spells_screen opened body closed))
      simp [ReaderState.written, FilledItem.close, OpenProject.written_add, FilledItem.written,
        Item.written, Item.writtenWith]
    | layoutDefinition project head layout =>
      obtain ⟨outer, opened, body⟩ := sound
      refine .own ?_ (outer.add (spells_layoutDefinition opened body closed))
      simp [ReaderState.written, FilledItem.close, OpenProject.written_add, FilledItem.written,
        Item.written, Item.writtenWith]
    | componentDefinition project head body =>
      obtain ⟨outer, opened, held⟩ := sound
      refine .own ?_ (outer.add (spells_componentDefinition opened held closed))
      simp [ReaderState.written, FilledItem.close, OpenProject.written_add, FilledItem.written,
        Item.written, Item.writtenWith]

/-! ### Steps inside blocks -/

theorem OpenBlock.written_add (block : OpenBlock) (child : Block) :
    (block.add child).written = block.written ++ Block.written child := by
  cases block <;> simp [OpenBlock.add, OpenBlock.written]

theorem OpenBlock.Sound.add {block : OpenBlock} (sound : block.Sound) {child : Block}
    (spells : Spells block.child (Block.written child)) : (block.add child).Sound := by
  -- What may stand in a block differs by the block, so the children are taken with any phrase.
  have all : ∀ {phrase : Phrase} {children : List Block},
      (∀ b ∈ children, Spells phrase (Block.written b)) → Spells phrase (Block.written child) →
      ∀ b ∈ children ++ [child], Spells phrase (Block.written b) := by
    intro phrase children old new b inside
    rcases List.mem_append.mp inside with before | last
    · exact old b before
    · rw [List.mem_singleton.mp last]
      exact new
  cases block with
  | body item head children => exact ⟨sound.1, sound.2.1, all sound.2.2 spells⟩
  | layout outer head children => exact ⟨sound.1, sound.2.1, all sound.2.2 spells⟩
  | cell outer head children => exact ⟨sound.1, sound.2.1, all sound.2.2 spells⟩

/-- Layouts may stand in every block. -/
theorem OpenBlock.spells_child_of_layout (block : OpenBlock) {ws : List Written}
    (spells : Spells (.rule .layout) ws) : Spells block.child ws := by
  cases block with
  | body _ _ _ | layout _ _ _ => exact .either_second (.either_first spells)
  | cell _ _ _ => exact .either_second spells

/-- Components may stand in every block. -/
theorem OpenBlock.spells_child_of_component (block : OpenBlock) {ws : List Written}
    (spells : Spells (.rule .component) ws) : Spells block.child ws := by
  cases block with
  | body _ _ _ | layout _ _ _ => exact .either_first spells
  | cell _ _ _ => exact .either_first spells

theorem OpenBlock.close_follows {block : OpenBlock} (sound : block.Sound)
    (closed : t.token = .mark .rightBrace) : Follows block.written t (block.close t) := by
  cases block with
  | body item head children =>
    obtain ⟨outer, opened, inside⟩ := sound
    refine .own ?_ (outer.fill (spells_layout opened inside closed))
    simp [ReaderState.written, OpenBlock.close, OpenItem.written_fill, OpenBlock.written,
      Rooted.toTree]
  | layout outer head children =>
    obtain ⟨around, opened, inside⟩ := sound
    refine .own ?_ (around.add (outer.spells_child_of_layout (spells_layout opened inside closed)))
    simp [ReaderState.written, OpenBlock.close, OpenBlock.written_add, OpenBlock.written]
  | cell outer head children =>
    -- A cell may not stand everywhere; that it stands in a layout is part of being sound.
    obtain ⟨⟨around, place⟩, opened, inside⟩ := sound
    have child : Spells outer.child (Block.written (.cell ⟨head, t⟩ children)) := by
      rw [place]
      exact .either_second (.either_second (spells_cell opened inside closed))
    refine .own ?_ (around.add child)
    simp [ReaderState.written, OpenBlock.close, OpenBlock.written_add, OpenBlock.written]

theorem OpenBlock.step_follows {block : OpenBlock} (sound : block.Sound)
    (step : block.step t = some next) : Follows block.written t next := by
  unfold OpenBlock.step at step
  split at step
  case h_1 word =>
    cases step
    exact .own rfl ⟨sound, word⟩
  case h_2 word =>
    cases step
    exact .own rfl ⟨sound, word⟩
  case h_3 word =>
    -- A cell does not begin inside a cell.
    cases block with
    | cell outer head children => contradiction
    | body item head children =>
      cases step
      exact .own rfl ⟨⟨⟨sound, rfl⟩, word⟩, by simp⟩
    | layout outer head children =>
      cases step
      exact .own rfl ⟨⟨⟨sound, rfl⟩, word⟩, by simp⟩
  case h_4 closed =>
    cases step
    exact OpenBlock.close_follows sound closed
  case h_5 => contradiction

theorem LayoutSite.enter_written (site : LayoutSite) (head : LayoutHead) :
    (site.enter head).written = site.written ++ head.written := by
  cases site <;> simp [LayoutSite.enter, LayoutSite.written, OpenBlock.written]

theorem LayoutSite.Sound.enter {site : LayoutSite} (sound : site.Sound) {head : LayoutHead}
    (opened : head.Sound) : (site.enter head).Sound := by
  cases site with
  | body item => exact ⟨sound, opened, by simp⟩
  | child outer => exact ⟨sound, opened, by simp⟩

theorem ComponentSite.step_follows {site : ComponentSite} (sound : site.Sound)
    {c : ComponentBlock} (complete : c.Sound) (step : site.step c t = some next) :
    Follows (site.written ++ c.written) t next := by
  -- The component is complete, so the token is read as if it had been added already.
  cases site with
  | body project head =>
    have filled : (FilledItem.componentDefinition project head (.component c)).Sound :=
      ⟨sound.1, sound.2, .either_second complete.spells⟩
    have follows := FilledItem.step_follows filled step
    simpa [FilledItem.written, DefinitionBody.block, ComponentSite.written] using follows
  | child outer =>
    have child : Spells outer.child (Block.written (.component c)) :=
      outer.spells_child_of_component (by simpa using complete.spells)
    have follows := OpenBlock.step_follows (OpenBlock.Sound.add sound child) step
    simpa [OpenBlock.written_add, ComponentSite.written] using follows

/-! ### Steps between properties -/

theorem ParamSite.enter_follows {site : ParamSite} (sound : site.Sound)
    {params : Option ParamList} (listed : ∀ l ∈ params, l.Sound)
    (opened : t.token = .mark .leftBrace) :
    Follows (site.written ++ writtenParams params) t (site.enter params t) := by
  cases site with
  | screen project keyword name =>
    obtain ⟨outer, word, named⟩ := sound
    refine .own ?_ ⟨outer, word, named, listed, opened⟩
    simp [ParamSite.enter, ReaderState.written, OpenItem.written, ScreenHead.written,
      ParamSite.written]
  | layout site keyword kind =>
    obtain ⟨outer, word, named⟩ := sound
    refine .own ?_ (outer.enter ⟨word, named, listed, opened⟩)
    simp [ParamSite.enter, ReaderState.written, LayoutSite.enter_written, LayoutHead.written,
      ParamSite.written]

theorem ParamSite.step_follows {site : ParamSite} (sound : site.Sound)
    {params : Option ParamList} (listed : ∀ l ∈ params, l.Sound)
    (step : site.step params t = some next) :
    Follows (site.written ++ writtenParams params) t next := by
  unfold ParamSite.step at step
  split at step
  case h_1 opened =>
    cases step
    exact ParamSite.enter_follows sound listed opened
  case h_2 paren =>
    cases step
    refine .own ?_ ⟨⟨sound, paren⟩, by simp⟩
    simp [ReaderState.written, PropertySite.written, separated, writtenParams]
  case h_3 => contradiction

/-- One more property stands behind the others. -/
theorem PropertySite.written_append (site : PropertySite) (properties : List WrittenProperty)
    (p : WrittenProperty) :
    site.written (properties ++ [p]) =
      site.written properties ++ (site.gap properties ++ p.written) := by
  cases site with
  | params site opening =>
    cases properties <;> simp [PropertySite.written, PropertySite.gap, separated]
  | _ => simp [PropertySite.written, PropertySite.gap, ComponentBlock.written]

theorem PropertySite.leave_follows {site : PropertySite} (sound : site.Sound)
    {properties : List WrittenProperty} (all : ∀ p ∈ properties, p.Sound)
    (step : site.leave properties t = some next) : Follows (site.written properties) t next := by
  cases site with
  | settings project head =>
    simp only [PropertySite.leave] at step
    split at step <;> cases step
    case h_1 closed =>
      obtain ⟨outer, opened⟩ := sound
      refine .own ?_ (outer.add (spells_settings opened all closed))
      simp [ReaderState.written, OpenProject.written_add, PropertySite.written, Item.written,
        Item.writtenWith, SettingsBlock.written]
  | component site keyword kind =>
    obtain ⟨outer, word, named⟩ := sound
    exact ComponentSite.step_follows outer ⟨word, named, all⟩ step
  | cell outer keyword =>
    simp only [PropertySite.leave] at step
    split at step <;> cases step
    case h_1 opened =>
      obtain ⟨place, word⟩ := sound
      refine .own ?_ ⟨place, ⟨word, all, opened⟩, by simp⟩
      simp [ReaderState.written, OpenBlock.written, PropertySite.written, CellHead.written]
  | params site opening =>
    simp only [PropertySite.leave] at step
    split at step
    case h_1 closed =>
      cases step
      refine .own ?_ ⟨sound.1, ?_⟩
      · simp [ReaderState.written, PropertySite.written, writtenParams, ParamList.written]
      · rintro l ⟨rfl⟩
        exact ⟨sound.2, all, closed⟩
    case h_2 p others comma =>
      -- The comma is not kept in the state; it comes back as a mark.
      cases step
      exact ⟨⟨.mark .comma, comma, rfl⟩, ⟨sound, all⟩, by simp⟩
    case h_3 => contradiction

theorem PropertySite.step_follows {site : PropertySite} (sound : site.Sound)
    {properties : List WrittenProperty} (all : ∀ p ∈ properties, p.Sound)
    (step : site.step properties t = some next) : Follows (site.written properties) t next := by
  unfold PropertySite.step at step
  split at step
  case isTrue another =>
    cases step
    rw [Bool.and_eq_true] at another
    obtain ⟨named, free⟩ := another
    -- Between parentheses a name may only come at once if it is the first.
    have gap : site.gap properties = [] := by
      cases site with
      | params site opening =>
        cases properties with
        | nil => rfl
        | cons p others => contradiction
      | _ => rfl
    refine .own ?_ ⟨⟨sound, all⟩, named⟩
    rw [ReaderState.written, gap, List.nil_append]
  case isFalse => exact PropertySite.leave_follows sound all step

/-! ### All steps -/

/-- A definition opens by the word for its kind. -/
theorem OpenItem.sound_ofDefinition {project : OpenProject} {head : DefinitionHead}
    (outer : project.Sound) (define : head.define.token = .keyword .define)
    (kind : head.kind.token = .keyword .componentKind ∨ head.kind.token = .keyword .layoutKind)
    (name : head.name.token.isString = true) (opening : head.opening.token = .mark .leftBrace) :
    (OpenItem.ofDefinition project head).Sound := by
  unfold OpenItem.ofDefinition
  split
  case isTrue layout => exact ⟨outer, define, layout, name, opening⟩
  case isFalse other => exact ⟨outer, define, kind.resolve_right other, name, opening⟩

theorem OpenItem.written_ofDefinition (project : OpenProject) (head : DefinitionHead) :
    (OpenItem.ofDefinition project head).written = project.written ++ head.written := by
  unfold OpenItem.ofDefinition
  split <;> rfl

end Step

namespace ReaderState

/-- A step from a sound state leads to one that gives back one token more. -/
theorem step_follows {state next : ReaderState} {t : Lexeme} (sound : state.Sound)
    (step : state.step t = some next) : Follows state.written t next := by
  cases state with
  | start =>
    obtain ⟨word, ⟨⟩⟩ := Option.ite_none_right_eq_some.mp step
    exact .own rfl word
  | projectName keyword =>
    obtain ⟨quoted, ⟨⟩⟩ := Option.ite_none_right_eq_some.mp step
    exact .own rfl ⟨sound, quoted⟩
  | projectOpening keyword name =>
    obtain ⟨opened, ⟨⟩⟩ := Option.ite_none_right_eq_some.mp step
    refine .own ?_ ⟨sound.1, sound.2, opened, by simp⟩
    simp [written, OpenProject.written, ProjectHead.written]
  | item project => exact OpenProject.step_follows sound step
  | settingsOpening project kind keyword =>
    obtain ⟨opened, ⟨⟩⟩ := Option.ite_none_right_eq_some.mp step
    refine .own ?_ ⟨⟨sound.1, sound.2, opened⟩, by simp⟩
    simp [written, PropertySite.written, SettingsHead.written]
  | definitionKind project define =>
    obtain ⟨kind, ⟨⟩⟩ := Option.ite_none_right_eq_some.mp step
    refine .own ?_ ⟨sound.1, sound.2, kind⟩
    simp [written]
  | definitionName project define kind =>
    obtain ⟨quoted, ⟨⟩⟩ := Option.ite_none_right_eq_some.mp step
    refine .own ?_ ⟨sound, quoted⟩
    simp [written]
  | definitionOpening project define kind name =>
    obtain ⟨opened, ⟨⟩⟩ := Option.ite_none_right_eq_some.mp step
    obtain ⟨⟨outer, word, kinds⟩, quoted⟩ := sound
    refine .own ?_ (OpenItem.sound_ofDefinition outer word kinds quoted opened)
    simp [written, OpenItem.written_ofDefinition, DefinitionHead.written]
  | screenName project keyword =>
    obtain ⟨named, ⟨⟩⟩ := Option.ite_none_right_eq_some.mp step
    refine .own ?_ ⟨⟨sound.1, sound.2, named⟩, by simp⟩
    simp [written, ParamSite.written, writtenParams]
  | layoutKind site keyword =>
    obtain ⟨named, ⟨⟩⟩ := Option.ite_none_right_eq_some.mp step
    refine .own ?_ ⟨⟨sound.1, sound.2, named⟩, by simp⟩
    simp [written, ParamSite.written, writtenParams]
  | componentKind site keyword =>
    obtain ⟨named, ⟨⟩⟩ := Option.ite_none_right_eq_some.mp step
    refine .own ?_ ⟨⟨sound.1, sound.2, named⟩, by simp⟩
    simp [written, PropertySite.written, ComponentBlock.written]
  | opening site params => exact ParamSite.step_follows sound.1 sound.2 step
  | property site properties => exact PropertySite.step_follows sound.1 sound.2 step
  | colon site properties name =>
    obtain ⟨colon, ⟨⟩⟩ := Option.ite_none_right_eq_some.mp step
    refine ⟨⟨.mark .colon, colon, ?_⟩, sound⟩
    simp [written]
  | value site properties name =>
    obtain ⟨valued, ⟨⟩⟩ := Option.ite_none_right_eq_some.mp step
    obtain ⟨⟨outer, all⟩, named⟩ := sound
    refine .own ?_ ⟨outer, List.forall_mem_append.mpr ⟨all, ?_⟩⟩
    · simp [written, PropertySite.written_append, WrittenProperty.written]
    · rw [List.forall_mem_singleton]
      exact ⟨named, valued⟩
  | param site paren properties comma =>
    obtain ⟨named, ⟨⟩⟩ := Option.ite_none_right_eq_some.mp step
    obtain ⟨⟨outer, all⟩, some⟩ := sound
    refine .own ?_ ⟨⟨outer, all⟩, named⟩
    obtain ⟨p, others, rfl⟩ := List.exists_cons_of_ne_nil some
    simp [written, PropertySite.gap]
  | body held => exact OpenItem.step_follows sound step
  | child block => exact OpenBlock.step_follows sound step
  | itemEnd held => exact FilledItem.step_follows sound step
  | nothing project => contradiction

/-- A run from a sound state reads exactly the tokens that it gives back afterwards, and what it
reads is derived by the grammar. -/
theorem run_sound {state : ReaderState} {previous : Option Lexeme} {ls : List Lexeme}
    {project : ProjectBlock} (sound : state.Sound) (ran : state.run previous ls = .ok project) :
    Spells (.rule .project) project.inWrittenOrder ∧
      ∃ ws, project.inWrittenOrder = state.written ++ ws ∧ List.Forall₂ Written.Fits ws ls := by
  induction ls generalizing state previous with
  | nil =>
    -- A text may end only behind a whole project.
    cases state with
    | nothing p =>
      cases ran
      exact ⟨sound, [], (List.append_nil _).symm, .nil⟩
    | _ => contradiction
  | cons t others ih =>
    rw [run] at ran
    split at ran
    case h_1 next step =>
      obtain ⟨⟨w, fits, read⟩, sound⟩ := step_follows sound step
      obtain ⟨spells, ws, whole, rest⟩ := ih sound ran
      refine ⟨spells, w :: ws, ?_, .cons fits rest⟩
      rw [whole, read, List.append_assoc, List.singleton_append]
    case h_2 => contradiction

end ReaderState

end Wireframe
