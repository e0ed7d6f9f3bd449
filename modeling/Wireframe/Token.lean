import Wireframe.Text.Position

/-!
# Tokens

## Main definitions

* `Keyword`, `Mark` — the reserved words and the punctuation.
* `Token` — a keyword, a mark, or a literal or name with its text as written.
* `Lexeme` — a token with its place in the text.
-/

namespace Wireframe

/-- A reserved word. The two capitalised ones also serve as names. -/
inductive Keyword where
  | project
  | screen
  | layout
  | cell
  | component
  | define
  | componentKind
  | layoutKind
  | style
  | mocks
  | colors
  deriving DecidableEq, Repr

namespace Keyword

/-- Every reserved word. -/
def all : List Keyword :=
  [.project, .screen, .layout, .cell, .component, .define, .componentKind, .layoutKind, .style,
    .mocks, .colors]

/-- The word itself. -/
def text : Keyword → String
  | .project => "project"
  | .screen => "screen"
  | .layout => "layout"
  | .cell => "cell"
  | .component => "component"
  | .define => "define"
  | .componentKind => "Component"
  | .layoutKind => "Layout"
  | .style => "style"
  | .mocks => "mocks"
  | .colors => "colors"

/-- The keyword that a word is. -/
def ofText? (word : String) : Option Keyword :=
  all.find? (·.text == word)

end Keyword

/-- A punctuation mark. -/
inductive Mark where
  | leftBrace
  | rightBrace
  | leftParen
  | rightParen
  | colon
  | comma
  deriving DecidableEq, Repr

namespace Mark

/-- Every mark. -/
def all : List Mark :=
  [.leftBrace, .rightBrace, .leftParen, .rightParen, .colon, .comma]

/-- The character of a mark. -/
def char : Mark → Char
  | .leftBrace => '\x7b'
  | .rightBrace => '\x7d'
  | .leftParen => '('
  | .rightParen => ')'
  | .colon => ':'
  | .comma => ','

/-- The mark that a character is. -/
def ofChar? (c : Char) : Option Mark :=
  all.find? (·.char == c)

end Mark

/-- The smallest unit of a project's text. Literals and names keep their text as written. -/
inductive Token where
  | keyword (keyword : Keyword)
  | string (raw : String)
  | number (raw : String)
  | color (raw : String)
  | name (raw : String)
  | mark (mark : Mark)
  deriving DecidableEq, Repr

namespace Token

/-- The token as written. -/
def text : Token → String
  | .keyword word => word.text
  | .string raw | .number raw | .color raw | .name raw => raw
  | .mark sign => sign.char.toString

/-- Whether the token can stand where a name is expected. -/
def isName : Token → Bool
  | .name _ | .keyword .componentKind | .keyword .layoutKind => true
  | _ => false

/-- Whether the token can stand as the value of a property. -/
def isValue : Token → Bool
  | .string _ | .number _ | .color _ => true
  | token => token.isName

/-- Whether the token is a quoted text. -/
def isString : Token → Bool
  | .string _ => true
  | _ => false

end Token

/-- A token and where it stands. -/
structure Lexeme where
  token : Token
  span : Span
  range : CodeRange
  deriving DecidableEq, Repr

/-- The token as written. -/
def Lexeme.text (lexeme : Lexeme) : String :=
  lexeme.token.text

end Wireframe
