import Wireframe.Diagnostic
import Wireframe.Token

/-!
# Syntax errors

## Main definitions

* `Expectation` — what could have come next, in words.
* `SyntaxFault` — the token at which a text stops being a project.
* `SyntaxFault.diagnostic` — how it is reported.
-/

namespace Wireframe

/-- What could have come next. -/
inductive Expectation where
  | project
  | projectName
  | opening
  | item
  | nothing
  | colon
  | value
  | paramEnd
  | componentType
  | layoutType
  | layoutChild
  | cellOpening
  | cellChild
  | screenName
  | layout
  | screenEnd
  | settingsEnd
  | definitionKind
  | definitionName
  | layoutDefinitionEnd
  | definitionBody
  | componentDefinitionEnd
  deriving DecidableEq, Repr

/-- The expectation in words. -/
def Expectation.text : Expectation → String
  | .project => "`project`"
  | .projectName => "project name string"
  | .opening => "`\x7b`"
  | .item => "`screen`, `define`, `style`, `mocks`, `colors` or `\x7d`"
  | .nothing => "end of input after the project block"
  | .colon => "`:` after property name"
  | .value => "a string, number, color or identifier value"
  | .paramEnd => "`,` or `)`"
  | .componentType => "component type"
  | .layoutType => "layout type"
  | .layoutChild => "`component`, `layout`, `cell` or `\x7d`"
  | .cellOpening => "cell property or `\x7b`"
  | .cellChild => "`component`, `layout` or `\x7d`"
  | .screenName => "screen name"
  | .layout => "`layout`"
  | .screenEnd => "`\x7d` (a screen holds exactly one layout)"
  | .settingsEnd => "property or `\x7d`"
  | .definitionKind => "`Component` or `Layout`"
  | .definitionName => "definition name string"
  | .layoutDefinitionEnd => "`\x7d` (a layout definition holds exactly one layout)"
  | .definitionBody => "`layout` or `component`"
  | .componentDefinitionEnd =>
    "`\x7d` (a component definition holds exactly one layout or component)"

/-- The most blocks that may be open at once. -/
def nestingLimit : Nat :=
  64

/-- Where and why a row of tokens is not a project. -/
inductive SyntaxFault where
  /-- A token that cannot come here, and the one before it. -/
  | unexpected (found : Lexeme) (previous : Option Lexeme) (expected : Expectation)
  /-- The tokens end too early. -/
  | ended (last : Option Lexeme) (expected : Expectation)
  /-- An opening brace inside too many others. -/
  | tooDeep (brace : Lexeme)
  deriving DecidableEq, Repr

namespace SyntaxFault

/-- Where a fault is shown. The mistake behind an unexpected closing brace usually sits in front of
it, so the token before the brace is shown. -/
def range : SyntaxFault → CodeRange
  | .unexpected found previous _ =>
    match found.token, previous with
    | .mark .rightBrace, some before => before.range
    | _, _ => found.range
  | .ended last _ => last.elim .origin (·.range)
  | .tooDeep brace => brace.range

/-- How a fault is reported. -/
def diagnostic (fault : SyntaxFault) : Diagnostic :=
  let report (code : Code) (message suggestion : String) : Diagnostic :=
    { Diagnostic.error code message with
      range := fault.range
      suggestion := some suggestion }
  match fault with
  | .unexpected found _ expected =>
    report .unexpectedToken s!"unexpected `{found.text}`, expected {expected.text}"
      "check the syntax near this token"
  | .ended _ expected =>
    report .unexpectedEnd s!"unexpected end of input, expected {expected.text}"
      "check for a missing closing `\x7d`"
  | .tooDeep _ =>
    report .nestingTooDeep s!"blocks are nested more than {nestingLimit} levels deep"
      "flatten the layout or move part of it into a `define Layout`"

end SyntaxFault

end Wireframe
