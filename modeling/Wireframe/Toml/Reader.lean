import Wireframe.Toml.Scalar

/-!
# Reading a settings file

A file is a row of headers and of keys with values, one a line. Lists and tables in braces may run
over several lines.

## Main definitions

* `Toml.key?` — a key with its parts.
* `Toml.value?` — a value of any kind.
* `Toml.ofText?` — the outermost table of a whole file; none if it breaks a rule of the format.
-/

namespace Wireframe

namespace Toml

/-- Skip blanks, line ends and comments; none if a comment holds a control character. -/
def skipFiller (inComment : Bool) : List Char → Option (List Char)
  | [] => some []
  | '\n' :: rest => skipFiller false rest
  | '\r' :: '\n' :: rest => skipFiller false rest
  | c :: rest =>
    if inComment then if isControl c then none else skipFiller true rest
    else if isBlank c then skipFiller false rest
    else if c = '#' then skipFiller true rest
    else some (c :: rest)

/-- What follows a line of which only blanks and perhaps a comment are left. -/
def lineEnd? (text : List Char) : Option (List Char) :=
  let left := match skipBlanks text with
    | '#' :: comment => comment.dropWhile (!isControl ·)
    | rest => rest
  if left.isEmpty then some [] else newline? left

/-! ### Keys -/

/-- The most lists and tables in braces that may be open at once, and the most parts of a key. -/
def nestingLimit : Nat :=
  80

/-- The characters of keys without quotes. -/
def isKeyChar (c : Char) : Bool :=
  c.isAlphanum || c == '_' || c == '-'

/-- One part of a key, and what follows it. -/
def keyPart? (text : List Char) : Option (String × List Char) :=
  match shortString? text, text.takeWhile isKeyChar with
  | some (part, rest), _ => some (String.ofList part, rest)
  | none, [] => none
  | none, part => some (String.ofList part, text.dropWhile isKeyChar)

/-- A key of at most `parts` parts with points between them, and what follows it and the blanks
behind it. -/
def key? : Nat → List Char → Option (List String × List Char)
  | 0, _ => none
  | parts + 1, text => do
    let (first, rest) ← keyPart? (skipBlanks text)
    match skipBlanks rest with
    | '.' :: rest =>
      let (others, rest) ← key? parts rest
      return (first :: others, rest)
    | rest => return ([first], rest)

/-! ### Values -/

mutual

/-- A value inside `depth` open lists and tables, and what follows it. Every step of the reading
takes one of `steps`. -/
def valueAt? : Nat → Nat → List Char → Option (TomlValue × List Char)
  | 0, _, _ => none
  | steps + 1, depth, text =>
    match text with
    | '[' :: rest =>
      if depth < nestingLimit then
        (itemsAt? steps (depth + 1) rest).map fun found => (.array found.1, found.2)
      else none
    | '\x7b' :: rest =>
      if depth < nestingLimit then
        (membersAt? steps (depth + 1) [] rest).map fun found => (.table .inline found.1, found.2)
      else none
    | _ =>
      match string? text with
      | some (inside, rest) => some (.string (String.ofList inside), rest)
      | none =>
        let (word, rest) := takeWord text
        (word? word).map (·, rest)

/-- The rest of a list, where an item or the end can come. -/
def itemsAt? : Nat → Nat → List Char → Option (List TomlValue × List Char)
  | 0, _, _ => none
  | steps + 1, depth, text => do
    match ← skipFiller false text with
    | ']' :: rest => return ([], rest)
    | text =>
      let (item, rest) ← valueAt? steps depth text
      match ← skipFiller false rest with
      | ']' :: rest => return ([item], rest)
      | ',' :: rest =>
        let (items, rest) ← itemsAt? steps depth rest
        return (item :: items, rest)
      | _ => none

/-- The rest of a table in braces that holds `entries` so far, where a key or the end can come.
Lines may end anywhere but inside a key. -/
def membersAt? : Nat → Nat → TomlEntries → List Char → Option (TomlEntries × List Char)
  | 0, _, _, _ => none
  | steps + 1, depth, entries, text => do
    match ← skipFiller false text with
    | '\x7d' :: rest => return (entries, rest)
    | text =>
      let (key, rest) ← key? nestingLimit text
      match ← skipFiller false rest with
      | '=' :: rest =>
        let (value, rest) ← valueAt? steps depth (← skipFiller false rest)
        let entries ← TomlEntries.put? key value .inline entries
        match ← skipFiller false rest with
        | '\x7d' :: rest => return (entries, rest)
        | ',' :: rest => membersAt? steps depth entries rest
        | _ => none
      | _ => none

end

/-- A value, and what follows it. A character takes at most two steps. -/
def value? (text : List Char) : Option (TomlValue × List Char) :=
  valueAt? (2 * text.length + 2) 0 text

/-! ### Files -/

/-- What has been read of a file: its outermost table, and the path of the table that keys go
into. -/
structure ReaderState where
  entries : TomlEntries := []
  table : List String := []

/-- Read the rest of a header. -/
def header? (s : ReaderState) (text : List Char) : Option (ReaderState × List Char) := do
  let (path, rest) ← key? nestingLimit text
  match rest with
  | ']' :: rest => return (⟨← s.entries.openTable? path, path⟩, rest)
  | _ => none

/-- Read the rest of a header of a list of tables. -/
def rowHeader? (s : ReaderState) (text : List Char) : Option (ReaderState × List Char) := do
  let (path, rest) ← key? nestingLimit text
  match rest with
  | ']' :: ']' :: rest => return (⟨← s.entries.addRow? path, path⟩, rest)
  | _ => none

/-- Read a key with its value. -/
def assignment? (s : ReaderState) (text : List Char) : Option (ReaderState × List Char) := do
  let (key, rest) ← key? nestingLimit text
  match rest with
  | '=' :: rest =>
    let (value, rest) ← value? (skipBlanks rest)
    return (⟨← s.entries.putAt? s.table key value, s.table⟩, rest)
  | _ => none

/-- Read at most `lines` headers and keys, up to the end of the text. -/
def read? : Nat → ReaderState → List Char → Option ReaderState
  | 0, _, _ => none
  | lines + 1, s, text => do
    match ← skipFiller false text with
    | [] => return s
    | text =>
      -- whatever stands on the line, nothing more may follow on it
      let (s, rest) ← match text with
        | '[' :: '[' :: rest => rowHeader? s rest
        | '[' :: rest => header? s rest
        | _ => assignment? s text
      read? lines s (← lineEnd? rest)

/-- The outermost table of a text. A mark for the order of bytes may stand in front of it. -/
def ofText? (text : String) : Option TomlEntries :=
  let characters := match text.toList with
    | '\ufeff' :: rest => rest
    | characters => characters
  (read? (characters.length + 1) {} characters).map (·.entries)

end Toml

end Wireframe
