import Wireframe.SourceMap
import Wireframe.Text.LineIndex

/-!
# Insertion points

A new child of a container is written after the last child it has, or just before its closing brace
when it has none.

## Main definitions

* `lastChild?` — the child of a container that ends last.
* `Entry.insertionPoint?` — where one more child of an entry can be written.
* `SourceMap.ofEntries` — the source map of entries, with their insertion points.
-/

namespace Wireframe

/-- The child of a container that ends last; the later one of two that end together. -/
def lastChild? (entries : List Entry) (id : NodeId) : Option Entry :=
  (entries.filter (·.parent == some id)).foldl
    (fun best e =>
      match best with
      | none => some e
      | some last => if e.range.stop.Before last.range.stop then some last else some e)
    none

/-- Right after a child, in line with it. -/
def Entry.afterChild (index : LineIndex) (child : Entry) : InsertionPoint where
  line := child.range.stop.line
  column := child.range.stop.column
  indentation := String.ofList (index.indentation child.range.start.line)
  after := some child.id

/-- One level deeper than the container: by a tab where tabs are used, else by two spaces. -/
def deeper (indentation : List Char) : List Char :=
  match indentation with
  | '\t' :: _ => indentation ++ ['\t']
  | _ => indentation ++ [' ', ' ']

/-- Just before the closing brace of a container. -/
def Entry.beforeClose (index : LineIndex) (container : Entry) : InsertionPoint where
  -- a body stops right behind its closing brace
  line := (container.bodyRange.getD container.range).stop.line
  column := (container.bodyRange.getD container.range).stop.column - 1
  indentation := String.ofList (deeper (index.indentation container.range.start.line))
  after := none

/-- Where one more child of an entry can be written; nowhere if it holds none. -/
def Entry.insertionPoint? (index : LineIndex) (entries : List Entry) (e : Entry) :
    Option InsertionPoint :=
  if e.kind.isContainer then
    match lastChild? entries e.id with
    | some child => some (child.afterChild index)
    | none => some (e.beforeClose index)
  else none

/-- The source map of entries, with their insertion points. -/
def SourceMap.ofEntries (index : LineIndex) (entries : List Entry) : SourceMap :=
  ⟨entries.map fun e => { e with insertion := e.insertionPoint? index entries }⟩

end Wireframe
