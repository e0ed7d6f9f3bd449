import Wireframe.Proofs.Grammar
import Wireframe.Proofs.ReadBack

/-!
# Blocks as the grammar has them

A block is sound if every token it holds is of the kind that stands there. The tokens that a sound
block gives back are derived by the rule for its kind, so there is one such lemma for each rule.

## Main definitions

* `Spells` — tokens given back that a phrase stands for.
* `ComponentBlock.Sound`, `LayoutHead.Sound`, `CellHead.Sound` — blocks as the grammar has them.

## Main results

* `spells_layout`, `spells_cell` — layouts and cells are derived if the blocks inside them are.
* `spells_screen`, `spells_settings`, `spells_layoutDefinition`, `spells_componentDefinition` — the
  same for the items of a project.
-/

namespace Wireframe

/-- A phrase stands for tokens that are given back. -/
def Spells (phrase : Phrase) (ws : List Written) : Prop :=
  Derivable phrase (ws.map Written.token)

/-! ### Complete blocks -/

theorem derivable_id {t : Token} (named : t.isName = true) : Derivable (.rule .id) [t] := by
  refine .rule ?_
  unfold Token.isName at named
  split at named
  · exact .either_first (.terminal ⟨_, rfl⟩)
  · exact .either_second (.either_first (.terminal rfl))
  · exact .either_second (.either_second (.terminal rfl))
  · contradiction

theorem derivable_value {t : Token} (valued : t.isValue = true) : Derivable (.rule .value) [t] := by
  refine .rule ?_
  unfold Token.isValue at valued
  split at valued
  · exact .either_second (.either_first (.terminal ⟨_, rfl⟩))
  · exact .either_second (.either_second (.either_first (.terminal ⟨_, rfl⟩)))
  · exact .either_second (.either_second (.either_second (.terminal ⟨_, rfl⟩)))
  · exact .either_first (derivable_id valued)

theorem exists_of_isString {t : Token} (quoted : t.isString = true) : ∃ raw, t = .string raw := by
  cases t with
  | string raw => exact ⟨raw, rfl⟩
  | _ => contradiction

theorem Spells.many {α : Type} {a : Phrase} {items : List α} {written : α → List Written}
    (all : ∀ item ∈ items, Spells a (written item)) : Spells (.many a) (items.flatMap written) := by
  rw [Spells, List.map_flatMap]
  exact .many all

/-- A property is a name and a value. -/
structure WrittenProperty.Sound (p : WrittenProperty) : Prop where
  name : p.name.token.isName = true
  value : p.value.token.isValue = true

theorem WrittenProperty.Sound.spells {p : WrittenProperty} (sound : p.Sound) :
    Spells (.rule .property) p.written :=
  .rule (.seq (derivable_id sound.name) (.cons rfl (derivable_value sound.value)))

theorem spells_properties {properties : List WrittenProperty} (all : ∀ p ∈ properties, p.Sound) :
    Spells (.many (.rule .property)) (properties.flatMap WrittenProperty.written) :=
  .many fun p inside => (all p inside).spells

/-- Parameters stand between parentheses. -/
structure ParamList.Sound (params : ParamList) : Prop where
  opening : params.opening.token = .mark .leftParen
  properties : ∀ p ∈ params.properties, p.Sound
  closing : params.closing.token = .mark .rightParen

theorem ParamList.Sound.spells {params : ParamList} (sound : params.Sound) :
    Spells (.rule .params) params.written := by
  have inside : Derivable
      (.optional <| .seq (.rule .property) <| .many <|
        .seq (.terminal .comma) (.rule .property))
      ((separated params.properties).map Written.token) := by
    cases split : params.properties with
    | nil => exact .absent
    | cons p others =>
      -- The first property stands without a comma, every other one behind its own.
      have all := sound.properties
      rw [split] at all
      obtain ⟨head, tail⟩ := List.forall_mem_cons.mp all
      rw [separated, List.map_append]
      refine .present (.seq head.spells ?_)
      exact Spells.many fun q found => Derivable.cons rfl (tail q found).spells
  have shape : params.written.map Written.token =
      .mark .leftParen :: ((separated params.properties).map Written.token ++
        [.mark .rightParen]) := by
    simp [ParamList.written, Written.token, sound.opening, sound.closing]
  rw [Spells, shape]
  exact .rule (.cons rfl (.seq inside (.terminal rfl)))

theorem spells_writtenParams {params : Option ParamList} (sound : ∀ l ∈ params, l.Sound) :
    Spells (.optional (.rule .params)) (writtenParams params) := by
  cases params with
  | none => exact .absent
  | some l => exact .present (sound l rfl).spells

/-- A component is a keyword, a type and properties. -/
structure ComponentBlock.Sound (c : ComponentBlock) : Prop where
  keyword : c.keyword.token = .keyword .component
  kind : c.kind.token.isName = true
  properties : ∀ p ∈ c.properties, p.Sound

theorem ComponentBlock.Sound.spells {c : ComponentBlock} (sound : c.Sound) :
    Spells (.rule .component) c.written :=
  .rule (.cons sound.keyword (.seq (derivable_id sound.kind) (spells_properties sound.properties)))

/-- What opens a layout. -/
structure LayoutHead.Sound (head : LayoutHead) : Prop where
  keyword : head.keyword.token = .keyword .layout
  kind : head.kind.token.isName = true
  params : ∀ l ∈ head.params, l.Sound
  opening : head.opening.token = .mark .leftBrace

/-- What opens a cell. -/
structure CellHead.Sound (head : CellHead) : Prop where
  keyword : head.keyword.token = .keyword .cell
  properties : ∀ p ∈ head.properties, p.Sound
  opening : head.opening.token = .mark .leftBrace

/-- What may stand inside a layout. -/
def layoutChild : Phrase :=
  .either (.rule .component) (.either (.rule .layout) (.rule .cell))

/-- What may stand inside a cell. -/
def cellChild : Phrase :=
  .either (.rule .component) (.rule .layout)

theorem spells_layout {head : LayoutHead} {closing : Lexeme} {blocks : List Block}
    (sound : head.Sound) (inside : ∀ b ∈ blocks, Spells layoutChild (Block.written b))
    (closed : closing.token = .mark .rightBrace) :
    Spells (.rule .layout) (Block.written (.layout ⟨head, closing⟩ blocks)) := by
  have shape : (Block.written (.layout ⟨head, closing⟩ blocks)).map Written.token =
      .keyword .layout :: ([head.kind.token] ++ ((writtenParams head.params).map Written.token ++
        (.mark .leftBrace :: ((blocks.flatMap Block.written).map Written.token ++
          [.mark .rightBrace])))) := by
    simp [LayoutHead.written, Written.token, sound.keyword, sound.opening, closed]
  rw [Spells, shape]
  exact .rule (.cons rfl (.seq (derivable_id sound.kind)
    (.seq (spells_writtenParams sound.params) (.block (Spells.many inside)))))

theorem spells_cell {head : CellHead} {closing : Lexeme} {blocks : List Block}
    (sound : head.Sound) (inside : ∀ b ∈ blocks, Spells cellChild (Block.written b))
    (closed : closing.token = .mark .rightBrace) :
    Spells (.rule .cell) (Block.written (.cell ⟨head, closing⟩ blocks)) := by
  have shape : (Block.written (.cell ⟨head, closing⟩ blocks)).map Written.token =
      .keyword .cell :: ((head.properties.flatMap WrittenProperty.written).map Written.token ++
        (.mark .leftBrace :: ((blocks.flatMap Block.written).map Written.token ++
          [.mark .rightBrace]))) := by
    simp [CellHead.written, Written.token, sound.keyword, sound.opening, closed]
  rw [Spells, shape]
  exact .rule (.cons rfl (.seq (spells_properties sound.properties)
    (.block (Spells.many inside))))

/-- What opens a screen. -/
structure ScreenHead.Sound (head : ScreenHead) : Prop where
  keyword : head.keyword.token = .keyword .screen
  name : head.name.token.isName = true
  params : ∀ l ∈ head.params, l.Sound
  opening : head.opening.token = .mark .leftBrace

/-- What opens a definition, with the word for its kind. -/
structure DefinitionHead.Sound (word : Keyword) (head : DefinitionHead) : Prop where
  define : head.define.token = .keyword .define
  kind : head.kind.token = .keyword word
  name : head.name.token.isString = true
  opening : head.opening.token = .mark .leftBrace

/-- The word that opens a block of settings. -/
def SettingsKind.keyword : SettingsKind → Keyword
  | .style => .style
  | .mocks => .mocks
  | .colors => .colors

/-- What opens a block of settings. -/
structure SettingsHead.Sound (head : SettingsHead) : Prop where
  keyword : head.keyword.token = .keyword head.kind.keyword
  opening : head.opening.token = .mark .leftBrace

/-- What may stand inside a project. -/
def projectItem : Phrase :=
  .either (.rule .settings) (.either (.rule .definition) (.rule .screen))

theorem spells_screen {head : ScreenHead} {layout : LayoutBlock} {closing : Lexeme}
    (sound : head.Sound) (body : Spells (.rule .layout) (Block.written layout.toTree))
    (closed : closing.token = .mark .rightBrace) :
    Spells projectItem (Item.written (.screen ⟨head, layout, closing⟩)) := by
  have shape : (Item.written (.screen ⟨head, layout, closing⟩)).map Written.token =
      .keyword .screen :: ([head.name.token] ++ ((writtenParams head.params).map Written.token ++
        (.mark .leftBrace :: ((Block.written layout.toTree).map Written.token ++
          [.mark .rightBrace])))) := by
    simp [Item.written, Item.writtenWith, ScreenHead.written, Written.token, sound.keyword,
      sound.opening, closed]
  rw [Spells, shape]
  exact .either_second (.either_second (.rule (.cons rfl (.seq (derivable_id sound.name)
    (.seq (spells_writtenParams sound.params) (.block body))))))

/-- A keyword and a string in front of a block. -/
def titled (word : Keyword) (inside : Phrase) : Phrase :=
  .seq (.keyword word) (.seq (.terminal .string) (.block inside))

theorem derivable_titled (word : Keyword) (raw : String) {a : Phrase} {ts : List Token}
    (inner : Derivable a ts) :
    Derivable (titled word a)
      (.keyword word :: .string raw :: .mark .leftBrace :: (ts ++ [.mark .rightBrace])) :=
  .cons rfl (.cons ⟨raw, rfl⟩ (.block inner))

/-- What may follow the word that opens a definition. -/
def definitionKinds : Phrase :=
  .either (titled .componentKind (.either (.rule .layout) (.rule .component)))
    (titled .layoutKind (.rule .layout))

/-- A definition is derived if its body is one that its kind may have. -/
theorem spells_definition {head : DefinitionHead} {word : Keyword} {a : Phrase}
    {body : List Written} {closing : Lexeme} (sound : head.Sound word)
    (kind : ∀ {ts : List Token}, Derivable (titled word a) ts → Derivable definitionKinds ts)
    (held : Spells a body) (closed : closing.token = .mark .rightBrace) :
    Spells projectItem (head.written ++ (body ++ [.own closing])) := by
  obtain ⟨raw, name⟩ := exists_of_isString sound.name
  have shape : (head.written ++ (body ++ [Written.own closing])).map Written.token =
      .keyword .define :: .keyword word :: .string raw :: .mark .leftBrace ::
        (body.map Written.token ++ [.mark .rightBrace]) := by
    simp [DefinitionHead.written, Written.token, sound.define, sound.kind, name, sound.opening,
      closed]
  rw [Spells, shape]
  exact .either_second (.either_first (.rule (.cons rfl (kind (derivable_titled word raw held)))))

theorem spells_layoutDefinition {head : DefinitionHead} {layout : LayoutBlock} {closing : Lexeme}
    (sound : head.Sound .layoutKind)
    (body : Spells (.rule .layout) (Block.written layout.toTree))
    (closed : closing.token = .mark .rightBrace) :
    Spells projectItem (Item.written (.definition (.layout head layout closing))) :=
  spells_definition sound .either_second body closed

theorem spells_componentDefinition {head : DefinitionHead} {body : DefinitionBody}
    {closing : Lexeme} (sound : head.Sound .componentKind)
    (held : Spells (.either (.rule .layout) (.rule .component)) (Block.written body.block))
    (closed : closing.token = .mark .rightBrace) :
    Spells projectItem (Item.written (.definition (.component head body closing))) :=
  spells_definition sound .either_first held closed

theorem spells_settings {head : SettingsHead} {properties : List WrittenProperty}
    {closing : Lexeme} (sound : head.Sound) (all : ∀ p ∈ properties, p.Sound)
    (closed : closing.token = .mark .rightBrace) :
    Spells projectItem (Item.written (.settings ⟨head, properties, closing⟩)) := by
  have shape : (Item.written (.settings ⟨head, properties, closing⟩)).map Written.token =
      .keyword head.kind.keyword :: .mark .leftBrace ::
        ((properties.flatMap WrittenProperty.written).map Written.token ++
          [.mark .rightBrace]) := by
    simp [Item.written, Item.writtenWith, SettingsBlock.written, SettingsHead.written,
      Written.token, sound.keyword, sound.opening, closed]
  have keyword : Derivable
      (.either (.keyword .style) (.either (.keyword .mocks) (.keyword .colors)))
      [.keyword head.kind.keyword] := by
    cases head.kind with
    | style => exact .either_first (.terminal rfl)
    | mocks => exact .either_second (.either_first (.terminal rfl))
    | colors => exact .either_second (.either_second (.terminal rfl))
  rw [Spells, shape]
  exact .either_first (.rule (.seq keyword (.block (spells_properties all))))

end Wireframe
