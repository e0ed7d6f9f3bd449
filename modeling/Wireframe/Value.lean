import Wireframe.Number.Decimal
import Wireframe.Number.Shortest
import Wireframe.OrderedMap

/-!
# Property values

A property holds a text or a number. A quoted text is always a text; any other word is a number
when it reads as a finite one.

## Main definitions

* `PropertyValue` — a text or a number.
* `PropertyValue.ofWord` — the value of a word written without quotes.
* `unquote` — the text that a quoted literal stands for.
-/

namespace Wireframe

/-- The value of a property. -/
inductive PropertyValue where
  | text (text : String)
  | number (number : Float)
  deriving Repr, Inhabited

/-- Properties in the order in which their names were first written. -/
abbrev Properties :=
  OrderedMap PropertyValue

namespace PropertyValue

/-- The text, if the value is one. -/
def text? : PropertyValue → Option String
  | .text s => some s
  | .number _ => none

/-- The number, if the value is one. -/
def number? : PropertyValue → Option Float
  | .text _ => none
  | .number x => some x

/-- The value as it appears in a message. -/
def render : PropertyValue → String
  | .text s => s
  | .number x => NumberStyle.plain.render x

/-- The value of a word written without quotes. -/
def ofWord (word : String) : PropertyValue :=
  match readNumber? word with
  | some x => .number x
  | none => .text word

/-- Truth values are written as a word or as a number. -/
def isBoolean : PropertyValue → Bool
  | .text s => s == "true" || s == "false"
  | .number x => x == 0.0 || x == 1.0

end PropertyValue

/-- Resolve the escapes inside a literal. An escape with no meaning stands for itself. -/
def unescape : List Char → List Char
  | [] => []
  | ['\\'] => ['\\']
  | '\\' :: c :: rest =>
    let meaning := match c with
      | 'n' => ['\n']
      | 't' => ['\t']
      | '"' => ['"']
      | '\\' => ['\\']
      | other => ['\\', other]
    meaning ++ unescape rest
  | c :: rest => c :: unescape rest

/-- What stands between the quotes of a literal; the whole text when it is not quoted. -/
def stripQuotes (raw : List Char) : List Char :=
  match raw with
  | '"' :: rest => if rest.getLast? = some '"' then rest.dropLast else raw
  | _ => raw

/-- The text that a literal stands for. -/
def unquote (raw : String) : String :=
  String.ofList (unescape (stripQuotes raw.toList))

end Wireframe
