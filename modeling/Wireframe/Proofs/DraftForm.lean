import Wireframe.Proofs.Nesting
import Wireframe.Proofs.Planting

/-!
# The form of entries

What an entry says about its part is read off the tokens that the part is written as: the keyword
that opens it, its name or type, its braces and its properties. Here this is done once for each kind
of part.

## Main definitions

* `ProjectBlock.Drafted` — the drafts that a project has, one case for each kind of part.
* `Draft.Spelt` — a draft with the keyword and the name of its part.
* `Bearer`, `ProjectBlock.Bears` — a part that bears properties, as it is written.
* `Draft.Lists` — a draft with the properties of its part.
* `Project.Gives` — the properties that a part has in the project.

## Main results

* `ProjectBlock.drafted_of_mem` — there are no other drafts.
* `ProjectBlock.Drafted.spelt` — every draft has the keyword and the name of its part.
* `ProjectBlock.Drafted.exists_bearer` — a draft with properties has those of its part, and so has
  the project.
-/

namespace Wireframe

/-! ### The drafts of a project -/

namespace ProjectBlock

variable {project : ProjectBlock} {d : Draft}

/-- The drafts of a project, one case for each kind of part. -/
inductive Drafted (project : ProjectBlock) : Draft → Prop
  | project : Drafted project project.draft
  | settings {first : SettingsBlock} : .settings first ∈ project.numbered →
      Drafted project
        (settingsDraft first (project.written first.head.kind) NodeKind.project.name)
  | componentDefinition {t : Ticket} {head : DefinitionHead} {body : NumberedBody}
      {closing : Lexeme} : .componentDefinition t head body closing ∈ project.numbered →
      Drafted project (definitionDraft t head (.componentDefinition (unquote head.name.text))
        closing NodeKind.project.name)
  | layoutDefinition {t : Ticket} {head : DefinitionHead} {l : NumberedLayout} {closing : Lexeme} :
      .layoutDefinition t head l closing ∈ project.numbered →
      Drafted project (definitionDraft t head (.layoutDefinition (unquote head.name.text))
        closing NodeKind.project.name)
  | screen {t : Ticket} {head : ScreenHead} {l : NumberedLayout} {closing : Lexeme} :
      .screen t head l closing ∈ project.numbered →
      Drafted project (screenDraft t head closing NodeKind.project.name)
  | block {m : NumberedBlock} {parent : NodeId} : m ∈ project.blocks →
      Drafted project (NumberedBlock.draft project.names m parent)

theorem drafted_of_mem (inside : d ∈ project.drafts) : project.Drafted d := by
  rcases List.mem_cons.mp inside with rfl | inside
  · exact .project
  rcases mem_itemDrafts inside with ⟨first, held, rfl⟩ | ⟨item, held, own⟩
  · exact .settings held
  -- Of an item with a body the first draft is its own, and the others are those of blocks.
  have below : ∀ {body : NumberedBlock} {parent : NodeId}, item.body? = some body →
      d ∈ NumberedBlock.drafts project.names body parent → project.Drafted d := by
    intro body parent holds found
    obtain ⟨m, reached, around, rfl⟩ := exists_of_mem_blockDrafts found
    exact .block (mem_blocks.mpr ⟨item, held, body, holds, reached⟩)
  cases item with
  | settings => contradiction
  | componentDefinition =>
    rcases List.mem_cons.mp own with rfl | found
    · exact .componentDefinition held
    · exact below rfl found
  | layoutDefinition =>
    rcases List.mem_cons.mp own with rfl | found
    · exact .layoutDefinition held
    · exact below rfl found
  | screen =>
    rcases List.mem_cons.mp own with rfl | found
    · exact .screen held
    · exact below rfl found

/-- A block of a project stands in the body of an item. -/
theorem exists_item_of_mem_blocks {m : NumberedBlock} (inside : m ∈ project.blocks) :
    ∃ item ∈ project.items, ∃ body, item.body? = some body ∧ NumberedBlock.erase m ∈ body.walk := by
  obtain ⟨item, listed, body, held, reached⟩ := mem_blocks.mp inside
  refine ⟨item.erase, erase_mem_items listed, NumberedBlock.erase body, ?_, ?_⟩
  · rw [item.body?_erase, held, Option.map_some]
  · rw [NumberedBlock.erase, Tree.walk_map]
    exact List.mem_map_of_mem reached

/-- The blocks of a sound project are sound. -/
theorem nodeSound_of_mem_blocks (sound : project.Sound) {m : NumberedBlock}
    (inside : m ∈ project.blocks) : Block.NodeSound (NumberedBlock.erase m) := by
  obtain ⟨item, listed, body, held, reached⟩ := exists_item_of_mem_blocks inside
  have itemSound := sound.items item listed
  match item with
  | .settings _ => contradiction
  | .definition (.component _ _ _) | .definition (.layout _ _ _) | .screen _ =>
    obtain rfl := Option.some.inj held
    exact itemSound.2 _ reached

end ProjectBlock

/-! ### Keywords and names -/

/-- The words that open a part of a kind. -/
def NodeKind.keywords : NodeKind → List Keyword
  | .project => [.project]
  | .theme => [.style]
  | .mocks => [.mocks]
  | .colors => [.colors]
  | .screen => [.screen]
  | .layout => [.layout]
  | .cell => [.cell]
  | .component => [.component]
  | .componentDefinition => [.define, .componentKind]
  | .layoutDefinition => [.define, .layoutKind]

/-- The name of a project, screen or definition, or the type of a layout or component. -/
def Subject.title? (s : Subject) : Option String :=
  s.name?.or s.subtype?

/-- A draft with the keyword and the name of its part. The part reaches from its keyword to its
closing brace. Only components have no braces. -/
structure Draft.Spelt (d : Draft) : Prop where
  first : d.keyword.first = d.whole.first
  keyword : d.keyword.lexemes.map Lexeme.token = d.subject.kind.keywords.map Token.keyword
  name : ∀ l ∈ d.name, d.subject.title? = some (unquote l.text) ∨
    l.token.isName = true ∧ d.subject.title? = some l.text
  body : ∀ b ∈ d.body, d.whole.last = b.2
  bodiless : d.body = none → d.subject.kind = .component

section Spelt

variable {names : DefinedNames}

theorem spelt_componentDraft {c : Ticket × ComponentBlock} (sound : c.2.Sound) (parent : NodeId) :
    (componentDraft names c parent).Spelt where
  first := rfl
  keyword := by
    simp [componentDraft, Hull.lexemes, sound.keyword, Subject.kind, NodeKind.keywords]
  name := by
    rintro l ⟨⟩
    exact .inr ⟨sound.kind, rfl⟩
  body := fun b found => absurd found (Option.not_mem_none b)
  bodiless := fun _ => rfl

theorem spelt_layoutDraft {l : Ticket × Closed LayoutHead} (sound : l.2.head.Sound)
    (parent : NodeId) : (layoutDraft names l parent).Spelt where
  first := rfl
  keyword := by
    simp [layoutDraft, Hull.lexemes, sound.keyword, Subject.kind, NodeKind.keywords]
  name := by
    rintro l ⟨⟩
    exact .inr ⟨sound.kind, rfl⟩
  body := by
    rintro b ⟨⟩
    exact last_blockHull _ _ _
  bodiless := nofun

theorem spelt_cellDraft {k : Ticket × Closed CellHead} (sound : k.2.head.Sound)
    (parent : NodeId) : (cellDraft k parent).Spelt where
  first := rfl
  keyword := by
    simp [cellDraft, Hull.lexemes, sound.keyword, Subject.kind, NodeKind.keywords]
  name := fun l found => absurd found (Option.not_mem_none l)
  body := by
    rintro b ⟨⟩
    rfl
  bodiless := nofun

theorem spelt_draft {m : NumberedBlock} (sound : Block.NodeSound (NumberedBlock.erase m))
    (parent : NodeId) : (NumberedBlock.draft names m parent).Spelt := by
  cases m with
  | component c =>
    rw [NumberedBlock.erase, Tree.map_component] at sound
    exact spelt_componentDraft sound parent
  | layout l children =>
    rw [NumberedBlock.erase, Tree.map_layout] at sound
    exact spelt_layoutDraft sound.1 parent
  | cell k children =>
    rw [NumberedBlock.erase, Tree.map_cell] at sound
    exact spelt_cellDraft sound.1.1 parent

theorem spelt_definitionDraft {word : Keyword} {head : DefinitionHead} (sound : head.Sound word)
    {subject : Subject} (opens : subject.kind.keywords = [.define, word])
    (titled : subject.title? = some (unquote head.name.text)) (t : Ticket) (closing : Lexeme)
    (parent : NodeId) : (definitionDraft t head subject closing parent).Spelt where
  first := rfl
  keyword := by simp [definitionDraft, opens, Hull.lexemes, sound.define, sound.kind]
  name := by
    rintro l ⟨⟩
    exact .inl titled
  body := by
    rintro b ⟨⟩
    rfl
  bodiless := nofun

theorem spelt_screenDraft {head : ScreenHead} (sound : head.Sound) (t : Ticket) (closing : Lexeme)
    (parent : NodeId) : (screenDraft t head closing parent).Spelt where
  first := rfl
  keyword := by
    simp [screenDraft, Hull.lexemes, sound.keyword, Subject.kind, NodeKind.keywords]
  name := by
    rintro l ⟨⟩
    exact .inr ⟨sound.name, rfl⟩
  body := by
    rintro b ⟨⟩
    exact last_blockHull _ _ _
  bodiless := nofun

theorem keywords_settings (kind : SettingsKind) : kind.subject.kind.keywords = [kind.keyword] := by
  cases kind <;> rfl

theorem spelt_settingsDraft {first : SettingsBlock} (sound : first.Sound)
    (written : List WrittenProperty) (parent : NodeId) :
    (settingsDraft first written parent).Spelt where
  first := rfl
  keyword := by
    simp [settingsDraft, keywords_settings, Hull.lexemes, sound.head.keyword]
  name := fun l found => absurd found (Option.not_mem_none l)
  body := by
    rintro b ⟨⟩
    rfl
  bodiless := nofun

end Spelt

namespace ProjectBlock

variable {project : ProjectBlock} {d : Draft}

theorem spelt_project (sound : project.Sound) : project.draft.Spelt where
  first := rfl
  keyword := by
    simp [draft, Hull.lexemes, sound.head.keyword, Subject.kind, NodeKind.keywords]
  name := by
    rintro l ⟨⟩
    exact .inl rfl
  body := by
    rintro b ⟨⟩
    rfl
  bodiless := nofun

/-- Every draft of a sound project has the keyword and the name of its part. -/
theorem Drafted.spelt (drafted : project.Drafted d) (sound : project.Sound) : d.Spelt := by
  cases drafted with
  | project => exact spelt_project sound
  | settings held =>
    have own : SettingsBlock.Sound _ := sound.items _ (erase_mem_items held)
    exact spelt_settingsDraft own _ _
  | componentDefinition held | layoutDefinition held =>
    exact spelt_definitionDraft (sound.items _ (erase_mem_items held)).1.1 rfl rfl _ _ _
  | screen held => exact spelt_screenDraft (sound.items _ (erase_mem_items held)).1.1 _ _ _
  | block inside => exact spelt_draft (nodeSound_of_mem_blocks sound inside) _

end ProjectBlock

/-! ### Properties -/

/-- Whether parts of a kind bear properties. -/
def NodeKind.bearsProperties : NodeKind → Bool
  | .theme | .mocks | .colors | .screen | .layout | .cell | .component => true
  | .project | .componentDefinition | .layoutDefinition => false

/-- The value that a token gives to a property of a part. Settings are always texts. -/
def NodeKind.value (kind : NodeKind) (t : Token) : PropertyValue :=
  if kind.isSettings then .text t.setting else t.value

/-- A part that bears properties, as it is written. -/
structure Bearer where
  kind : NodeKind
  keyword : Lexeme
  /-- The name of a screen or the type of a layout or component. -/
  name : Option Lexeme
  written : List WrittenProperty

/-- The properties of a part: the last value that is written for each name, in the order in which
the names first come. -/
def Bearer.values (b : Bearer) : Properties :=
  .ofList (b.written.map fun p => (p.name.text, b.kind.value p.value.token))

/-- A component, layout or cell with its properties. -/
def Block.bearer : Block → Bearer
  | .component c => ⟨.component, c.keyword, some c.kind, c.properties⟩
  | .layout l _ => ⟨.layout, l.head.keyword, some l.head.kind, paramProperties l.head.params⟩
  | .cell k _ => ⟨.cell, k.head.keyword, none, k.head.properties⟩

/-- The parts of a project that bear properties. Settings bear those of all blocks of their kind. -/
inductive ProjectBlock.Bears (project : ProjectBlock) : Bearer → Prop
  | settings {s : SettingsBlock} : .settings s ∈ project.items →
      Bears project
        ⟨s.head.kind.subject.kind, s.head.keyword, none, project.written s.head.kind⟩
  | screen {s : ScreenBlock} : .screen s ∈ project.items →
      Bears project ⟨.screen, s.head.keyword, some s.head.name, paramProperties s.head.params⟩
  | block {item : Item} {body b : Block} : item ∈ project.items → item.body? = some body →
      b ∈ body.walk → Bears project (Block.bearer b)

/-- A draft with the properties of its part. A part without braces ends with its last value, or with
its type if it has no value. -/
structure Draft.Lists (d : Draft) (b : Bearer) : Prop where
  kind : d.subject.kind = b.kind
  keyword : d.keyword = ⟨b.keyword, []⟩
  name : d.name = b.name
  properties : d.properties = some (b.written.map fun p => ⟨p, b.kind.value p.value.token⟩)
  last : d.body = none → (b.written.getLast?.map (·.value)).or b.name = some d.whole.last

/-- The properties of a part of a project. -/
def Node.properties? : Node → Option Properties
  | .screen s => some s.params
  | .element (.component c) => some c.properties
  | .element (.layout l _) => some l.params
  | .element (.cell k _) => some k.properties
  | .project _ | .definition _ => none

/-- The settings of a kind in a project. -/
def Project.settings (project : Project) : SettingsKind → OrderedMap String
  | .style => project.style
  | .mocks => project.mocks
  | .colors => project.colors

/-- The properties that a project has under an id: its settings of a kind, or those of the only part
that bears the id. -/
inductive Project.Gives (project : Project) (id : NodeId) : Properties → Prop
  | settings {kind : SettingsKind} : id = kind.subject.kind.name →
      Gives project id ((project.settings kind).mapValues .text)
  | node {node : Node} {properties : Properties} : node ∈ project.walk →
      (project.walk.map Node.id).count (some id) = 1 → node.id = some id →
      node.properties? = some properties → Gives project id properties

theorem value_settings (kind : SettingsKind) (t : Token) :
    kind.subject.kind.value t = .text t.setting := by
  rw [NodeKind.value, if_pos kind.isSettings_kind]

theorem properties?_element (m : NumberedBlock) :
    (Node.element (NumberedBlock.element m)).properties? =
      some (Block.bearer (NumberedBlock.erase m)).values := by
  cases m with
  | component c =>
    rw [NumberedBlock.element, NumberedBlock.erase, Tree.map_component, Tree.map_component]
    rfl
  | layout l children =>
    rw [NumberedBlock.element, NumberedBlock.erase, Tree.map_layout, Tree.map_layout]
    rfl
  | cell k children =>
    rw [NumberedBlock.element, NumberedBlock.erase, Tree.map_cell, Tree.map_cell]
    rfl

theorem lists_draft (names : DefinedNames) (m : NumberedBlock) (parent : NodeId) :
    (NumberedBlock.draft names m parent).Lists (Block.bearer (NumberedBlock.erase m)) := by
  cases m with
  | component c =>
    rw [NumberedBlock.erase, Tree.map_component]
    refine ⟨rfl, rfl, rfl, rfl, fun _ => ?_⟩
    change (c.2.properties.getLast?.map (·.value)).or (some c.2.kind) = some c.2.last
    rw [ComponentBlock.last]
    cases c.2.properties.getLast? <;> rfl
  | layout l children =>
    rw [NumberedBlock.erase, Tree.map_layout]
    exact ⟨rfl, rfl, rfl, rfl, fun none => absurd none (Option.some_ne_none _)⟩
  | cell k children =>
    rw [NumberedBlock.erase, Tree.map_cell]
    exact ⟨rfl, rfl, rfl, rfl, fun none => absurd none (Option.some_ne_none _)⟩

namespace ProjectBlock

variable {project : ProjectBlock} {d : Draft}

theorem lowered_settings (project : ProjectBlock) (kind : SettingsKind) :
    project.lowered.settings kind = settingValues (project.written kind) := by
  cases kind <;> rfl

theorem exists_bearer_settings {first : SettingsBlock} (held : .settings first ∈ project.numbered) :
    ∃ b, project.Bears b ∧
      (settingsDraft first (project.written first.head.kind) NodeKind.project.name).Lists b ∧
      project.lowered.Gives first.head.kind.subject.kind.name b.values := by
  have gives : project.lowered.Gives first.head.kind.subject.kind.name
      ((project.lowered.settings first.head.kind).mapValues .text) := .settings rfl
  rw [lowered_settings, settingValues, OrderedMap.mapValues_ofList, List.map_map] at gives
  refine ⟨_, .settings (erase_mem_items held),
    ⟨rfl, rfl, rfl, ?_, fun none => absurd none (Option.some_ne_none _)⟩, ?_⟩
  · simp only [value_settings]
    rfl
  · simp only [Bearer.values, value_settings]
    exact gives

theorem exists_bearer_screen {t : Ticket} {head : ScreenHead} {l : NumberedLayout}
    {closing : Lexeme} (held : .screen t head l closing ∈ project.numbered) :
    ∃ b, project.Bears b ∧ (screenDraft t head closing NodeKind.project.name).Lists b ∧
      project.lowered.Gives t.id b.values := by
  let shown : Screen := ⟨head.name.text, propertyValues (paramProperties head.params),
    NumberedLayout.lowered l, some t.id⟩
  have listed : shown ∈ project.lowered.screens := List.mem_filterMap.mpr ⟨_, held, rfl⟩
  have walked : .screen shown ∈ project.lowered.walk :=
    List.mem_cons_of_mem _ (List.mem_append_right _
      (List.mem_flatMap.mpr ⟨shown, listed, List.mem_cons_self⟩))
  have once : (project.lowered.walk.map Node.id).count (some t.id) = 1 :=
    count_ticket (List.mem_flatMap.mpr ⟨_, held, List.mem_cons_self⟩)
      (plain_screen held rfl t List.mem_cons_self)
  exact ⟨_, .screen (erase_mem_items held), ⟨rfl, rfl, rfl, rfl, nofun⟩,
    .node walked once rfl rfl⟩

/-- A draft with properties has those of its part, and so has the project. -/
theorem Drafted.exists_bearer (drafted : project.Drafted d)
    (bears : d.subject.kind.bearsProperties = true) :
    ∃ b, project.Bears b ∧ d.Lists b ∧ project.lowered.Gives d.id b.values := by
  cases drafted with
  | project | componentDefinition | layoutDefinition => contradiction
  | settings held => exact exists_bearer_settings held
  | screen held => exact exists_bearer_screen held
  | @block m parent inside =>
    obtain ⟨item, listed, body, held, reached⟩ := exists_item_of_mem_blocks inside
    refine ⟨_, .block listed held reached, lists_draft _ m parent, ?_⟩
    rw [id_draft]
    exact .node (element_mem_walk inside) (count_id inside) (id_element m) (properties?_element m)

/-- Drafts of other kinds have no properties. -/
theorem Drafted.properties_eq_none (drafted : project.Drafted d)
    (bears : d.subject.kind.bearsProperties = false) : d.properties = none := by
  cases drafted with
  | project | componentDefinition | layoutDefinition => rfl
  | screen => contradiction
  | @settings first =>
    change first.head.kind.subject.kind.bearsProperties = false at bears
    cases kind : first.head.kind <;> rw [kind] at bears <;> contradiction
  | @block m => cases m <;> contradiction

end ProjectBlock

end Wireframe
