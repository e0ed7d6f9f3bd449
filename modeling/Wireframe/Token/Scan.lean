import Wireframe.Diagnostic
import Wireframe.Text.LineIndex
import Wireframe.Token.Piece

/-!
# Reading the tokens of a text

## Main definitions

* `place` — pieces with the bytes that they take up.
* `Scan` — the tokens of a text and what is wrong with the rest of it.
* `scan` — the scan of a text. It always succeeds.
* `lexemes?` — the tokens of a text in which nothing is wrong.
-/

namespace Wireframe

/-- The pieces of a text from a byte offset on, each with the bytes that it takes up. -/
def place (start : Nat) : List Piece → List (Piece × Span)
  | [] => []
  | piece :: others =>
    let stop := start + byteLength piece.text
    (piece, ⟨start, stop⟩) :: place stop others

/-- The token that a piece is, with its place. -/
def Piece.lexeme? (index : LineIndex) (placed : Piece × Span) : Option Lexeme :=
  match placed.1 with
  | .token t => some ⟨t, placed.2, index.range placed.2⟩
  | _ => none

/-- What is wrong with a piece that is neither a token nor trivia. -/
def Piece.diagnostic? (index : LineIndex) (placed : Piece × Span) : Option Diagnostic :=
  let report (code : Code) (message suggestion : String) : Diagnostic :=
    { Diagnostic.error code message with
      range := index.range placed.2
      suggestion := some suggestion }
  match placed.1 with
  | .trivia _ | .token _ => none
  | .stray s =>
    let noun := if s.length ≤ 1 then "character" else "characters"
    some (report .unexpectedCharacter s!"unexpected {noun} `{String.ofList s}`"
      "remove it, or quote it inside a string literal")
  | .openString _ =>
    some (report .unterminatedString "unterminated string literal"
      "add a closing `\"` on the same line")
  | .openComment _ =>
    some (report .unterminatedComment "unterminated block comment"
      "close the comment with `*/`")

/-- The tokens of a text and what is wrong with the rest of it, both in order. -/
structure Scan where
  lexemes : List Lexeme
  diagnostics : List Diagnostic
  deriving DecidableEq, Repr

/-- Read the tokens of a text, passing over what is none. -/
def scan (text : List Char) : Scan :=
  let index := LineIndex.ofText text
  let placed := place 0 (pieces text)
  ⟨placed.filterMap (Piece.lexeme? index), placed.filterMap (Piece.diagnostic? index)⟩

/-- The tokens of a text, unless something is wrong with it. -/
def lexemes? (text : List Char) : Except ParseError (List Lexeme) :=
  let result := scan text
  if result.diagnostics.isEmpty then .ok result.lexemes else .error ⟨result.diagnostics⟩

end Wireframe
