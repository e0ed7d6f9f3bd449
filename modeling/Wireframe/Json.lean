import Wireframe.Number.Shortest
import Wireframe.OrderedMap

/-!
# JSON documents

## Main definitions

* `Json` — a document. The members of an object have an order.
* `Json.escape` — the text of a string between its quotes.
* `JsonStyle` — where a document has line breaks and blanks.
* `Json.render` — the text of a document.
-/

namespace Wireframe

/-- A JSON document. The members of an object keep their order. -/
inductive Json where
  | null
  | bool (value : Bool)
  | nat (value : Nat)
  | number (value : Float)
  | string (value : String)
  | array (items : List Json)
  | object (members : List (String × Json))
  deriving Repr, Inhabited

/-- Where a document has line breaks and blanks. -/
structure JsonStyle where
  /-- What stands in front of an item or a closing bracket at a given depth. -/
  lineBreak : Nat → String
  /-- What stands between a key and its value. -/
  colon : String

namespace JsonStyle

/-- One item a line, two blanks for each level. -/
def pretty : JsonStyle where
  lineBreak depth := "\n" ++ String.ofList (List.replicate (2 * depth) ' ')
  colon := ": "

/-- No blanks and no line breaks. -/
def compact : JsonStyle where
  lineBreak _ := ""
  colon := ":"

end JsonStyle

namespace Json

/-- A hexadecimal digit, in lower case. -/
def hexDigit (n : Nat) : Char :=
  (Nat.toDigits 16 (n % 16)).headD '0'

/-- A character inside a string. Only quotes, backslashes and control characters are escaped. -/
def escapeChar (c : Char) : List Char :=
  match c with
  | '"' => ['\\', '"']
  | '\\' => ['\\', '\\']
  | '\n' => ['\\', 'n']
  | '\r' => ['\\', 'r']
  | '\t' => ['\\', 't']
  | '\x08' => ['\\', 'b']
  | '\x0c' => ['\\', 'f']
  | c =>
    if c.toNat < 0x20 then ['\\', 'u', '0', '0', hexDigit (c.toNat / 16), hexDigit c.toNat] else [c]

/-- The text of a string between its quotes. -/
def escape (s : String) : String :=
  String.ofList (s.toList.flatMap escapeChar)

/-- The text of a string with its quotes. -/
def quote (s : String) : String :=
  "\"" ++ escape s ++ "\""

mutual

/-- The text of a document that stands at a given depth. -/
def renderAt (style : JsonStyle) (depth : Nat) : Json → String
  | .null => "null"
  | .bool b => if b then "true" else "false"
  | .nat n => toString n
  | .number x => NumberStyle.data.render x
  | .string s => quote s
  | .array [] => "[]"
  | .array (item :: items) =>
    "[" ++ style.lineBreak (depth + 1) ++ renderAt style (depth + 1) item ++
      renderItems style (depth + 1) items ++ style.lineBreak depth ++ "]"
  | .object [] => "\x7b\x7d"
  | .object ((key, value) :: members) =>
    "\x7b" ++ style.lineBreak (depth + 1) ++ quote key ++ style.colon ++
      renderAt style (depth + 1) value ++ renderMembers style (depth + 1) members ++
      style.lineBreak depth ++ "\x7d"

/-- The text of the items of an array after its first one. -/
def renderItems (style : JsonStyle) (depth : Nat) : List Json → String
  | [] => ""
  | item :: items =>
    "," ++ style.lineBreak depth ++ renderAt style depth item ++ renderItems style depth items

/-- The text of the members of an object after its first one. -/
def renderMembers (style : JsonStyle) (depth : Nat) : List (String × Json) → String
  | [] => ""
  | (key, value) :: members =>
    "," ++ style.lineBreak depth ++ quote key ++ style.colon ++ renderAt style depth value ++
      renderMembers style depth members

end

/-- The text of a document. -/
def render (style : JsonStyle) (document : Json) : String :=
  document.renderAt style 0

/-! ### Building documents -/

/-- A member that is always there. -/
def member (key : String) (value : Json) : List (String × Json) :=
  [(key, value)]

/-- A member that is there only if its value is. -/
def optional {α : Type} (key : String) (encode : α → Json) (value : Option α) :
    List (String × Json) :=
  value.elim [] fun x => [(key, encode x)]

/-- A value, or null in its absence. -/
def nullable {α : Type} (encode : α → Json) (value : Option α) : Json :=
  value.elim .null encode

/-- A map as an object. -/
def ofMap {α : Type} (encode : α → Json) (map : OrderedMap α) : Json :=
  .object (map.mapValues encode).entries

end Json

end Wireframe
