import Wireframe.Text.Position

/-!
# Diagnostics

What the stages of reading a project have to say about it: a code that tools can rely on, a
severity, a message, and the place in the text.

## Main definitions

* `Code` — what is wrong, with its fixed name and its stage.
* `Diagnostic` — a code with a severity, a message and a place.
* `ParseError` — the diagnostics that kept a project from being read.
-/

namespace Wireframe

/-- Errors keep a project from being read; warnings never do. -/
inductive Severity where
  | error
  | warning
  deriving DecidableEq, Repr

/-- The name of a severity. -/
def Severity.name : Severity → String
  | .error => "error"
  | .warning => "warning"

/-- The stage that finds something wrong. -/
inductive Phase where
  | lexer
  | parser
  | semantic
  deriving DecidableEq, Repr

/-- The name of a stage. -/
def Phase.name : Phase → String
  | .lexer => "lexer"
  | .parser => "parser"
  | .semantic => "semantic"

/-- What is wrong. -/
inductive Code where
  | unexpectedCharacter
  | unterminatedString
  | unterminatedComment
  | unexpectedToken
  | unexpectedEnd
  | missingScreen
  | nestingTooDeep
  | componentUnknownType
  | layoutUnknownType
  | componentMissingProperty
  | componentUnknownProperty
  | layoutUnknownParameter
  | cellUnknownProperty
  | componentInvalidChoice
  | layoutInvalidChoice
  | cellInvalidChoice
  | componentInvalidBoolean
  | layoutInvalidBoolean
  | gridMissingColumns
  | gridColumnsOutOfRange
  | layoutInvalidSize
  | layoutEmpty
  | splitMissingSide
  | splitSideConflict
  | splitSidebar
  | splitChildren
  | definedLayoutChildren
  | slotOutsideLayoutDefinition
  | missingSlot
  | multipleSlots
  | invalidLayoutName
  | uncapitalizedComponentName
  | duplicateDefinition
  | definitionCycle
  deriving DecidableEq, Repr

namespace Code

/-- Every code, by stage. -/
def all : List Code := [
  .unexpectedCharacter, .unterminatedString, .unterminatedComment,
  .unexpectedToken, .unexpectedEnd, .missingScreen, .nestingTooDeep,
  .componentUnknownType, .layoutUnknownType, .componentMissingProperty,
  .componentUnknownProperty, .layoutUnknownParameter, .cellUnknownProperty,
  .componentInvalidChoice, .layoutInvalidChoice, .cellInvalidChoice,
  .componentInvalidBoolean, .layoutInvalidBoolean,
  .gridMissingColumns, .gridColumnsOutOfRange, .layoutInvalidSize, .layoutEmpty,
  .splitMissingSide, .splitSideConflict, .splitSidebar, .splitChildren,
  .definedLayoutChildren, .slotOutsideLayoutDefinition, .missingSlot, .multipleSlots,
  .invalidLayoutName, .uncapitalizedComponentName, .duplicateDefinition, .definitionCycle]

/-- The fixed name of a code. -/
def name : Code → String
  | .unexpectedCharacter => "LEXER_UNEXPECTED_CHARACTER"
  | .unterminatedString => "LEXER_UNTERMINATED_STRING"
  | .unterminatedComment => "LEXER_UNTERMINATED_COMMENT"
  | .unexpectedToken => "PARSER_UNEXPECTED_TOKEN"
  | .unexpectedEnd => "PARSER_UNEXPECTED_EOF"
  | .missingScreen => "PARSER_MISSING_SCREEN"
  | .nestingTooDeep => "PARSER_NESTING_TOO_DEEP"
  | .componentUnknownType => "COMPONENT_UNKNOWN_TYPE"
  | .layoutUnknownType => "LAYOUT_UNKNOWN_TYPE"
  | .componentMissingProperty => "COMPONENT_MISSING_REQUIRED_PROPERTY"
  | .componentUnknownProperty => "COMPONENT_UNKNOWN_PROPERTY"
  | .layoutUnknownParameter => "LAYOUT_UNKNOWN_PARAMETER"
  | .cellUnknownProperty => "CELL_UNKNOWN_PROPERTY"
  | .componentInvalidChoice => "COMPONENT_INVALID_ENUM_VALUE"
  | .layoutInvalidChoice => "LAYOUT_INVALID_ENUM_VALUE"
  | .cellInvalidChoice => "CELL_INVALID_ENUM_VALUE"
  | .componentInvalidBoolean => "COMPONENT_INVALID_BOOLEAN_VALUE"
  | .layoutInvalidBoolean => "LAYOUT_INVALID_BOOLEAN_VALUE"
  | .gridMissingColumns => "LAYOUT_GRID_MISSING_COLUMNS"
  | .gridColumnsOutOfRange => "LAYOUT_GRID_COLUMNS_OUT_OF_RANGE"
  | .layoutInvalidSize => "LAYOUT_INVALID_SIZE"
  | .layoutEmpty => "LAYOUT_EMPTY"
  | .splitMissingSide => "LAYOUT_SPLIT_MISSING_SIDE"
  | .splitSideConflict => "LAYOUT_SPLIT_SIDE_CONFLICT"
  | .splitSidebar => "LAYOUT_SPLIT_DEPRECATED_SIDEBAR"
  | .splitChildren => "LAYOUT_SPLIT_CHILDREN_COUNT"
  | .definedLayoutChildren => "DEFINED_LAYOUT_CHILDREN_COUNT"
  | .slotOutsideLayoutDefinition => "CHILDREN_SLOT_OUTSIDE_LAYOUT_DEFINITION"
  | .missingSlot => "LAYOUT_DEFINITION_MISSING_CHILDREN_SLOT"
  | .multipleSlots => "LAYOUT_DEFINITION_MULTIPLE_CHILDREN_SLOTS"
  | .invalidLayoutName => "LAYOUT_DEFINITION_INVALID_NAME"
  | .uncapitalizedComponentName => "COMPONENT_DEFINITION_NAME_NOT_PASCAL_CASE"
  | .duplicateDefinition => "DEFINITION_DUPLICATE_NAME"
  | .definitionCycle => "DEFINITION_CYCLE"

/-- A few words on what a code means. -/
def description : Code → String
  | .unexpectedCharacter => "unexpected character"
  | .unterminatedString => "unterminated string literal"
  | .unterminatedComment => "unterminated block comment"
  | .unexpectedToken => "unexpected token"
  | .unexpectedEnd => "unexpected end of input"
  | .missingScreen => "project has no screen"
  | .nestingTooDeep => "nesting too deep"
  | .componentUnknownType => "unknown component type"
  | .layoutUnknownType => "unknown layout type"
  | .componentMissingProperty => "missing required property"
  | .componentUnknownProperty => "unknown property"
  | .layoutUnknownParameter => "unknown parameter"
  | .cellUnknownProperty => "unknown cell property"
  | .componentInvalidChoice | .layoutInvalidChoice | .cellInvalidChoice =>
    "value not in the accepted set"
  | .componentInvalidBoolean | .layoutInvalidBoolean => "expected a boolean"
  | .gridMissingColumns => "grid without columns"
  | .gridColumnsOutOfRange => "grid columns out of range"
  | .layoutInvalidSize => "non-positive size"
  | .layoutEmpty => "empty layout"
  | .splitMissingSide => "split without a side"
  | .splitSideConflict => "split with both sides"
  | .splitSidebar => "deprecated sidebar parameter"
  | .splitChildren => "split needs two children"
  | .definedLayoutChildren => "defined layout needs one child"
  | .slotOutsideLayoutDefinition => "children slot outside definition"
  | .missingSlot => "missing children slot"
  | .multipleSlots => "multiple children slots"
  | .invalidLayoutName => "invalid layout name"
  | .uncapitalizedComponentName => "component name not capitalised"
  | .duplicateDefinition => "duplicate definition"
  | .definitionCycle => "circular definition"

/-- The stage that reports a code. -/
def phase : Code → Phase
  | .unexpectedCharacter | .unterminatedString | .unterminatedComment => .lexer
  | .unexpectedToken | .unexpectedEnd | .missingScreen | .nestingTooDeep => .parser
  | _ => .semantic

/-- The code with a given name. -/
def ofName? (name : String) : Option Code :=
  all.find? (·.name == name)

end Code

/-- The name by which diagnostics and syntax trees refer to a node of the source map. -/
abbrev NodeId :=
  String

/-- One error or warning, and where it points. -/
@[ext]
structure Diagnostic where
  code : Code
  severity : Severity
  message : String
  range : CodeRange := .origin
  nodeId : Option NodeId := none
  suggestion : Option String := none
  file : Option String := none
  deriving DecidableEq, Repr

namespace Diagnostic

/-- An error that does not point anywhere yet. -/
def error (code : Code) (message : String) : Diagnostic :=
  { code, severity := .error, message }

/-- A warning that does not point anywhere yet. -/
def warning (code : Code) (message : String) : Diagnostic :=
  { code, severity := .warning, message }

/-- The stage that found it. -/
def phase (d : Diagnostic) : Phase :=
  d.code.phase

/-- Whether it keeps the project from being read. -/
def isError (d : Diagnostic) : Bool :=
  d.severity == .error

/-- Whether it is only a warning. -/
def isWarning (d : Diagnostic) : Bool :=
  d.severity == .warning

/-- The bytes it points at. -/
def span (d : Diagnostic) : Span :=
  d.range.span

/-- Severity, code and message on one line. -/
def render (d : Diagnostic) : String :=
  s!"{d.severity.name}[{d.code.name}]: {d.message}"

end Diagnostic

/-- The diagnostics that kept a project from being read. -/
structure ParseError where
  diagnostics : List Diagnostic
  deriving DecidableEq, Repr

/-- The first diagnostic, and how many there are besides. -/
def ParseError.message (e : ParseError) : String :=
  match e.diagnostics with
  | [] => ""
  | [d] => d.render
  | d :: others => s!"{d.render} (+{others.length} more)"

end Wireframe
