import Wireframe.Proofs.Links
import Wireframe.Proofs.Reading

/-!
# The form of what was read

The blocks of a project that was read are as the grammar has them, at every depth: each one is
opened by the tokens of its kind and closed by a brace, and no cell holds a cell. A block is put
together when its closing brace comes, and from then on it is kept as it is, so it is enough to look
at the step that closes it.

## Main definitions

* `Block.Sound`, `Item.Sound`, `ProjectBlock.Sound` — closed blocks as the grammar has them.
* `ReaderState.Keeps` — a state in which all closed blocks are sound.

## Main results

* `ReaderState.step_keeps` — one step keeps closed blocks sound.
* `ProjectBlock.sound_of_read` — a project that was read is sound.
-/

namespace Wireframe

/-! ### Closed blocks -/

/-- Whether a tree is a cell. -/
def Tree.isCell {C L K : Type} : Tree C L K → Bool
  | .cell _ _ => true
  | _ => false

/-- What a block has of its own: the tokens that open it, the brace that closes it, and which kinds
of block it holds. -/
def Block.NodeSound : Block → Prop
  | .component c => c.Sound
  | .layout l _ => l.head.Sound ∧ l.closing.token = .mark .rightBrace
  | .cell k children =>
    (k.head.Sound ∧ k.closing.token = .mark .rightBrace) ∧ ∀ c ∈ children, Tree.isCell c = false

/-- A block that is sound, with all blocks inside it. -/
def Block.Sound (b : Block) : Prop :=
  ∀ n ∈ b.walk, Block.NodeSound n

theorem Block.sound_iff {b : Block} :
    Block.Sound b ↔ Block.NodeSound b ∧ ∀ c ∈ b.children, Block.Sound c := by
  constructor
  · exact fun sound => ⟨sound b b.mem_walk_self, fun c child n inside =>
      sound n (Tree.mem_walk_iff.mpr (.inr ⟨c, child, inside⟩))⟩
  · rintro ⟨own, children⟩ n inside
    rcases Tree.mem_walk_iff.mp inside with rfl | ⟨c, child, below⟩
    · exact own
    · exact children c child n below

theorem Block.sound_component {c : ComponentBlock} (sound : c.Sound) :
    Block.Sound (.component c) :=
  Block.sound_iff.mpr ⟨sound, nofun⟩

/-- A block of settings. -/
structure SettingsBlock.Sound (block : SettingsBlock) : Prop where
  head : block.head.Sound
  properties : ∀ p ∈ block.properties, p.Sound
  closing : block.closing.token = .mark .rightBrace

/-- An item, with the blocks inside it. -/
def Item.Sound : Item → Prop
  | .settings block => block.Sound
  | .definition (.component head body closing) =>
    (head.Sound .componentKind ∧ closing.token = .mark .rightBrace) ∧ Block.Sound body.block
  | .definition (.layout head layout closing) =>
    (head.Sound .layoutKind ∧ closing.token = .mark .rightBrace) ∧ Block.Sound layout.toTree
  | .screen block =>
    (block.head.Sound ∧ block.closing.token = .mark .rightBrace) ∧ Block.Sound block.layout.toTree

/-- What opens a project. -/
structure ProjectHead.Sound (head : ProjectHead) : Prop where
  keyword : head.keyword.token = .keyword .project
  name : head.name.token.isString = true
  opening : head.opening.token = .mark .leftBrace

/-- A project, with its items. -/
structure ProjectBlock.Sound (project : ProjectBlock) : Prop where
  head : project.head.Sound
  items : ∀ item ∈ project.items, item.Sound
  closing : project.closing.token = .mark .rightBrace

/-! ### What a state keeps -/

/-- An open project with sound items. -/
def OpenProject.Keeps (project : OpenProject) : Prop :=
  ∀ item ∈ project.items, item.Sound

/-- An item that waits for its body. -/
def OpenItem.Keeps : OpenItem → Prop
  | .screen project _ | .layoutDefinition project _ | .componentDefinition project _ =>
    project.Keeps

/-- An item with a sound body. -/
def FilledItem.Keeps : FilledItem → Prop
  | .screen project _ layout | .layoutDefinition project _ layout =>
    project.Keeps ∧ Block.Sound layout.toTree
  | .componentDefinition project _ body => project.Keeps ∧ Block.Sound body.block

/-- An open block with sound blocks inside it and around it. -/
def OpenBlock.Keeps : OpenBlock → Prop
  | .body item _ children => item.Keeps ∧ ∀ b ∈ children, Block.Sound b
  | .layout outer _ children => outer.Keeps ∧ ∀ b ∈ children, Block.Sound b
  | .cell outer _ children =>
    outer.Keeps ∧ ∀ b ∈ children, Block.Sound b ∧ Tree.isCell b = false

/-- A place for a layout. -/
def LayoutSite.Keeps : LayoutSite → Prop
  | .body item => item.Keeps
  | .child outer => outer.Keeps

/-- A place for a component. -/
def ComponentSite.Keeps : ComponentSite → Prop
  | .body project _ => project.Keeps
  | .child outer => outer.Keeps

/-- A block up to its name or type. -/
def ParamSite.Keeps : ParamSite → Prop
  | .screen project _ _ => project.Keeps
  | .layout site _ _ => site.Keeps

/-- A place for properties. -/
def PropertySite.Keeps : PropertySite → Prop
  | .settings project _ => project.Keeps
  | .component site _ _ => site.Keeps
  | .cell outer _ => outer.Keeps
  | .params site _ => site.Keeps

/-- A state in which all blocks that are closed are sound. -/
def ReaderState.Keeps : ReaderState → Prop
  | .start | .projectName _ | .projectOpening _ _ => True
  | .item p | .settingsOpening p _ _ | .definitionKind p _ | .definitionName p _ _
  | .definitionOpening p _ _ _ | .screenName p _ => p.Keeps
  | .layoutKind site _ => site.Keeps
  | .componentKind site _ => site.Keeps
  | .opening site _ | .param site _ _ _ => site.Keeps
  | .property site _ | .colon site _ _ | .value site _ _ => site.Keeps
  | .body held => held.Keeps
  | .child block => block.Keeps
  | .itemEnd held => held.Keeps
  | .nothing project => project.Sound

section Step

variable {t : Lexeme} {next : ReaderState}

/-! ### Steps between items -/

theorem OpenProject.Keeps.add {project : OpenProject} (keeps : project.Keeps) {item : Item}
    (closed : item.Sound) : (project.add item).Keeps :=
  List.forall_mem_append.mpr ⟨keeps, List.forall_mem_singleton.mpr closed⟩

theorem OpenProject.step_keeps {project : OpenProject} (sound : project.Sound)
    (keeps : project.Keeps) (step : project.step t = some next) : next.Keeps := by
  unfold OpenProject.step at step
  split at step <;> cases step
  case h_6 closed => exact ⟨⟨sound.keyword, sound.name, sound.opening⟩, keeps, closed⟩
  all_goals exact keeps

theorem OpenItem.Keeps.fill {item : OpenItem} (keeps : item.Keeps) {layout : LayoutBlock}
    (closed : Block.Sound layout.toTree) : (item.fill layout).Keeps := by
  cases item with
  | screen | layoutDefinition | componentDefinition => exact ⟨keeps, closed⟩

theorem OpenItem.step_keeps {item : OpenItem} (keeps : item.Keeps)
    (step : item.step t = some next) : next.Keeps := by
  unfold OpenItem.step at step
  split at step
  case h_1 =>
    cases step
    exact keeps
  case h_2 =>
    split at step <;> cases step
    exact keeps
  case h_3 => contradiction

/-- The item that a closing brace completes is sound. -/
theorem FilledItem.step_keeps {item : FilledItem} (sound : item.Sound) (keeps : item.Keeps)
    (step : item.step t = some next) : next.Keeps := by
  unfold FilledItem.step at step
  split at step <;> cases step
  case h_1 closed =>
    cases item with
    | screen | layoutDefinition | componentDefinition =>
      exact keeps.1.add ⟨⟨sound.2.1, closed⟩, keeps.2⟩

/-! ### Steps inside blocks -/

theorem OpenBlock.Keeps.add {block : OpenBlock} (keeps : block.Keeps) {child : Block}
    (closed : Block.Sound child)
    (place : Tree.isCell child = true → block.child = layoutChild) : (block.add child).Keeps := by
  cases block with
  | body item head children =>
    exact ⟨keeps.1, List.forall_mem_append.mpr ⟨keeps.2, List.forall_mem_singleton.mpr closed⟩⟩
  | layout outer head children =>
    exact ⟨keeps.1, List.forall_mem_append.mpr ⟨keeps.2, List.forall_mem_singleton.mpr closed⟩⟩
  | cell outer head children =>
    have other : Tree.isCell child = false := by
      refine Bool.eq_false_iff.mpr fun cell => ?_
      have same := place cell
      simp [OpenBlock.child, layoutChild, cellChild] at same
    exact ⟨keeps.1, List.forall_mem_append.mpr
      ⟨keeps.2, List.forall_mem_singleton.mpr ⟨closed, other⟩⟩⟩

/-- The block that a closing brace completes is sound. -/
theorem OpenBlock.close_keeps {block : OpenBlock} (sound : block.Sound) (keeps : block.Keeps)
    (closed : t.token = .mark .rightBrace) : (block.close t).Keeps := by
  cases block with
  | body item head children =>
    exact keeps.1.fill (Block.sound_iff.mpr ⟨⟨sound.2.1, closed⟩, keeps.2⟩)
  | layout outer head children =>
    exact keeps.1.add (Block.sound_iff.mpr ⟨⟨sound.2.1, closed⟩, keeps.2⟩) nofun
  | cell outer head children =>
    -- A cell closes into a block that can hold cells, since it was opened in one.
    obtain ⟨⟨-, place⟩, opened, -⟩ := sound
    obtain ⟨around, inside⟩ := keeps
    refine around.add (Block.sound_iff.mpr ⟨⟨⟨opened, closed⟩, ?_⟩, ?_⟩) fun _ => place
    · exact fun b held => (inside b held).2
    · exact fun b held => (inside b held).1

theorem OpenBlock.step_keeps {block : OpenBlock} (sound : block.Sound) (keeps : block.Keeps)
    (step : block.step t = some next) : next.Keeps := by
  unfold OpenBlock.step at step
  split at step
  case h_1 =>
    cases step
    exact keeps
  case h_2 =>
    cases step
    exact keeps
  case h_3 =>
    cases block with
    | cell outer head children => contradiction
    | body | layout =>
      cases step
      exact keeps
  case h_4 closed =>
    cases step
    exact OpenBlock.close_keeps sound keeps closed
  case h_5 => contradiction

theorem LayoutSite.Keeps.enter {site : LayoutSite} (keeps : site.Keeps) (head : LayoutHead) :
    (site.enter head).Keeps := by
  cases site with
  | body | child => exact ⟨keeps, by simp⟩

theorem ComponentSite.step_keeps {site : ComponentSite} (sound : site.Sound) (keeps : site.Keeps)
    {c : ComponentBlock} (complete : c.Sound) (step : site.step c t = some next) :
    next.Keeps := by
  -- As before, the token is read as if the component had been added already.
  cases site with
  | body project head =>
    have filled : (FilledItem.componentDefinition project head (.component c)).Sound :=
      ⟨sound.1, sound.2, .either_second complete.spells⟩
    exact FilledItem.step_keeps filled ⟨keeps, Block.sound_component complete⟩ step
  | child outer =>
    have child : Spells outer.child (Block.written (.component c)) :=
      outer.spells_child_of_component (by simpa using complete.spells)
    have added : (outer.add (.component c)).Keeps :=
      OpenBlock.Keeps.add keeps (Block.sound_component complete) nofun
    exact OpenBlock.step_keeps (OpenBlock.Sound.add sound child) added step

/-! ### Steps between properties -/

theorem ParamSite.step_keeps {site : ParamSite} (keeps : site.Keeps) {params : Option ParamList}
    (step : site.step params t = some next) : next.Keeps := by
  unfold ParamSite.step at step
  split at step <;> cases step
  case h_1 =>
    cases site with
    | screen => exact keeps
    | layout site keyword kind => exact LayoutSite.Keeps.enter keeps _
  case h_2 => exact keeps

theorem PropertySite.leave_keeps {site : PropertySite} (sound : site.Sound) (keeps : site.Keeps)
    {properties : List WrittenProperty} (all : ∀ p ∈ properties, p.Sound)
    (step : site.leave properties t = some next) : next.Keeps := by
  cases site with
  | settings project head =>
    simp only [PropertySite.leave] at step
    split at step <;> cases step
    case h_1 closed => exact OpenProject.Keeps.add keeps ⟨sound.2, all, closed⟩
  | component site keyword kind =>
    obtain ⟨outer, word, named⟩ := sound
    exact ComponentSite.step_keeps outer keeps ⟨word, named, all⟩ step
  | cell outer keyword =>
    simp only [PropertySite.leave] at step
    split at step <;> cases step
    exact ⟨keeps, by simp⟩
  | params site opening =>
    simp only [PropertySite.leave] at step
    split at step <;> cases step
    · exact keeps
    · exact keeps

theorem PropertySite.step_keeps {site : PropertySite} (sound : site.Sound) (keeps : site.Keeps)
    {properties : List WrittenProperty} (all : ∀ p ∈ properties, p.Sound)
    (step : site.step properties t = some next) : next.Keeps := by
  unfold PropertySite.step at step
  split at step
  case isTrue =>
    cases step
    exact keeps
  case isFalse => exact PropertySite.leave_keeps sound keeps all step

end Step

/-! ### All steps -/

namespace ReaderState

/-- A step keeps the blocks that are closed sound, and makes a sound one of any that it closes. -/
theorem step_keeps {state next : ReaderState} {t : Lexeme} (sound : state.Sound)
    (keeps : state.Keeps) (step : state.step t = some next) : next.Keeps := by
  cases state with
  | item => exact OpenProject.step_keeps sound keeps step
  | opening => exact ParamSite.step_keeps keeps step
  | property => exact PropertySite.step_keeps sound.1 keeps sound.2 step
  | body => exact OpenItem.step_keeps keeps step
  | child => exact OpenBlock.step_keeps sound keeps step
  | itemEnd => exact FilledItem.step_keeps sound keeps step
  | nothing => contradiction
  | definitionOpening =>
    obtain ⟨-, ⟨⟩⟩ := Option.ite_none_right_eq_some.mp step
    unfold OpenItem.ofDefinition
    split <;> exact keeps
  | projectOpening =>
    obtain ⟨-, ⟨⟩⟩ := Option.ite_none_right_eq_some.mp step
    exact fun _ inside => absurd inside List.not_mem_nil
  | _ =>
    obtain ⟨-, ⟨⟩⟩ := Option.ite_none_right_eq_some.mp step
    exact keeps

/-- A run that reads a project to its end reads a sound one. -/
theorem run_keeps {state : ReaderState} {previous : Option Lexeme} {ls : List Lexeme}
    {project : ProjectBlock} (sound : state.Sound) (keeps : state.Keeps)
    (ran : state.run previous ls = .ok project) : project.Sound := by
  -- The run carries both invariants: what is open stands as it should, and what is closed is sound.
  induction ls generalizing state previous with
  | nil =>
    cases state with
    | nothing p =>
      cases ran
      exact keeps
    | _ => contradiction
  | cons t others ih =>
    rw [run] at ran
    split at ran
    case h_1 next step => exact ih (step_follows sound step).sound (step_keeps sound keeps step) ran
    case h_2 => contradiction

end ReaderState

/-- A project that was read is sound, with everything inside it. -/
theorem ProjectBlock.sound_of_read {ls : List Lexeme} {project : ProjectBlock}
    (read : ProjectBlock.ofLexemes ls = .ok project) : project.Sound := by
  obtain ⟨-, ran⟩ := ofLexemes_eq_ok_iff.mp read
  have sound : ReaderState.start.Sound := trivial
  have keeps : ReaderState.start.Keeps := trivial
  exact ReaderState.run_keeps sound keeps ran

end Wireframe
