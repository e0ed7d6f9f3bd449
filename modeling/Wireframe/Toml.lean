/-!
# Tables of settings

The contents of a TOML file: values under names, in tables that can hold other tables. A file can
write a table in several ways. Only some of them go together, so every table remembers its own.

## Main definitions

* `TomlValue` — a value of any kind.
* `TomlValue.isHeld` — whether no number in a value is too large.
* `TableOrigin` — the way in which a table came to be.
* `TomlEntries.edit?` — change the table at a path.
* `TomlEntries.put?` — put a value under a dotted key of a table.
* `TomlEntries.openTable?`, `TomlEntries.addRow?` — begin a table, or one more row of a list of
  tables.
-/

namespace Wireframe

/-- The way in which a table came to be. -/
inductive TableOrigin where
  /-- A header names a table inside it. -/
  | implied
  /-- A dotted key runs through it. -/
  | dotted
  /-- A header names it. -/
  | header
  /-- It is written in braces. -/
  | inline
  deriving DecidableEq, Repr

/-- Whether dotted keys stay out of a table: a header or braces give it as a whole. -/
def TableOrigin.isClosed : TableOrigin → Bool
  | .header | .inline => true
  | .implied | .dotted => false

/-- A value of a file. -/
inductive TomlValue where
  | boolean (value : Bool)
  | integer (value : Int)
  | float (value : Float)
  /-- A number too large to hold, as written. A file may have it where nobody asks for it. -/
  | outOfRange (text : String)
  /-- A date, a time or both, as written. -/
  | moment (text : String)
  | string (value : String)
  | array (items : List TomlValue)
  | table (origin : TableOrigin) (entries : List (String × TomlValue))
  /-- A list of tables that headers add to, row by row. -/
  | rows (rows : List (List (String × TomlValue)))
  deriving Repr, Inhabited

/-- The values of a table by name. -/
abbrev TomlEntries :=
  List (String × TomlValue)

namespace TomlValue

mutual

/-- Whether all numbers in a value could be held. -/
def isHeld : TomlValue → Bool
  | .outOfRange _ => false
  | .array items => areHeld items
  | .table _ entries => entriesAreHeld entries
  | .rows held => rowsAreHeld held
  | .boolean _ | .integer _ | .float _ | .moment _ | .string _ => true

/-- Whether all numbers in several values could be held. -/
def areHeld : List TomlValue → Bool
  | [] => true
  | value :: values => value.isHeld && areHeld values

/-- Whether all numbers in a table could be held. -/
def entriesAreHeld : List (String × TomlValue) → Bool
  | [] => true
  | (_, value) :: entries => value.isHeld && entriesAreHeld entries

/-- Whether all numbers in several tables could be held. -/
def rowsAreHeld : List (List (String × TomlValue)) → Bool
  | [] => true
  | row :: others => entriesAreHeld row && rowsAreHeld others

end

end TomlValue

namespace TomlEntries

/-- The entries with the value under a name replaced. -/
def replace (entries : TomlEntries) (name : String) (value : TomlValue) : TomlEntries :=
  entries.map fun entry => if entry.1 = name then (name, value) else entry

/-- Change the table at the end of a path, making the tables that are not there yet. The way to it
may not run through a table in braces, nor that of a dotted key through any closed table. In a list
of tables the way goes through the last row. -/
def edit? (dotted : Bool) (change : TableOrigin → TomlEntries → Option TomlEntries) :
    TableOrigin → TomlEntries → List String → Option TomlEntries
  | origin, entries, [] => change origin entries
  | _, entries, name :: path =>
    match entries.lookup name with
    | none =>
      let origin := if dotted then TableOrigin.dotted else TableOrigin.implied
      (edit? dotted change origin [] path).map fun inner =>
        entries ++ [(name, .table origin inner)]
    | some (.table origin inner) =>
      if origin = .inline ∨ (dotted ∧ origin.isClosed) then none
      else
        (edit? dotted change origin inner path).map fun inner =>
          replace entries name (.table origin inner)
    | some (.rows rows) =>
      match rows.getLast? with
      | none => none
      | some row =>
        (edit? dotted change .header row path).map fun row =>
          replace entries name (.rows (rows.dropLast ++ [row]))
    | some _ => none

/-- Put a value under a new name. A dotted key adds to no closed table. -/
def add? (dotted : Bool) (name : String) (value : TomlValue) (origin : TableOrigin)
    (entries : TomlEntries) : Option TomlEntries :=
  if (dotted ∧ origin.isClosed) ∨ (entries.lookup name).isSome then none
  else some (entries ++ [(name, value)])

/-- Put a value under a key with points between its parts. -/
def put? (key : List String) (value : TomlValue) (origin : TableOrigin) (entries : TomlEntries) :
    Option TomlEntries := do
  let name ← key.getLast?
  let through := key.dropLast
  let dotted := !through.isEmpty
  edit? dotted (add? dotted name value) origin entries through

/-- Put a value under a key of the table at a path from the outermost one. -/
def putAt? (entries : TomlEntries) (table key : List String) (value : TomlValue) :
    Option TomlEntries :=
  edit? false (put? key value) .header entries table

/-- Begin a table by a header. It may be there already only because it was implied. -/
def openTable? (entries : TomlEntries) (path : List String) : Option TomlEntries := do
  let name ← path.getLast?
  edit? false (fun _ outer =>
    match outer.lookup name with
    | none => some (outer ++ [(name, .table .header [])])
    | some (.table .implied inner) => some (replace outer name (.table .header inner))
    | some _ => none) .header entries path.dropLast

/-- Begin one more row of a list of tables by a header. -/
def addRow? (entries : TomlEntries) (path : List String) : Option TomlEntries := do
  let name ← path.getLast?
  edit? false (fun _ outer =>
    match outer.lookup name with
    | none => some (outer ++ [(name, .rows [[]])])
    | some (.rows rows) => some (replace outer name (.rows (rows ++ [[]])))
    | some _ => none) .header entries path.dropLast

end TomlEntries

end Wireframe
