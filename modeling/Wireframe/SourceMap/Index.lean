import Std.Data.HashMap
import Wireframe.SourceMap.Query

/-!
# An index of a source map

Questions to a source map need not search it each time. One pass over the entries settles the first
entry with each id, the entries inside each entry, and how deep every entry lies: whatever is around
an entry comes before it, so its depth is known by then.

## Main definitions

* `SourceMap.Index` — the entries, and what is looked up about them.
* `SourceMap.Index.add` — the index with one more entry.
* `SourceMap.index` — the index of a source map.
* `SourceMap.Index.find?`, `SourceMap.Index.path`, `SourceMap.Index.at?` and others — the questions
  to a source map, answered by its index.
-/

namespace Wireframe

namespace SourceMap

/-- The entries of a source map, and what is looked up about them. -/
structure Index where
  entries : Array Entry := #[]
  /-- The place of the first entry with each id. -/
  first : Std.HashMap NodeId Nat := ∅
  /-- By the id of an entry, the places of the entries directly inside it, in order. -/
  inside : Std.HashMap NodeId (Array Nat) := ∅
  /-- How deep each entry lies. -/
  depths : Array Nat := #[]

namespace Index

/-! ### One pass over the entries -/

/-- How deep an entry lies that is added next: below the one with its parent's id, if that is there
already. -/
def depthBelow (index : Index) (parent : Option NodeId) : Nat :=
  match parent.bind (index.first[·]?) with
  | none => 0
  | some i => index.depths.getD i 0 + 1

/-- The places inside each entry, with one more inside the entry of a given id. -/
def addInside (index : Index) (i : Nat) : Option NodeId → Std.HashMap NodeId (Array Nat)
  | none => index.inside
  | some parent => index.inside.insert parent ((index.inside.getD parent #[]).push i)

/-- The index with one more entry. -/
def add (index : Index) (e : Entry) : Index where
  entries := index.entries.push e
  first := index.first.insertIfNew e.id index.entries.size
  inside := index.addInside index.entries.size e.parent
  depths := index.depths.push (index.depthBelow e.parent)

/-! ### Questions -/

/-- The first entry with a given id. -/
def find? (index : Index) (id : NodeId) : Option Entry :=
  (index.first[id]?).bind (index.entries[·]?)

/-- How many entries lie around an entry. -/
def depth? (index : Index) (id : NodeId) : Option Nat :=
  (index.first[id]?).map (index.depths.getD · 0)

/-- The entries directly inside an entry, in order. -/
def children (index : Index) (id : NodeId) : List Entry :=
  (index.inside.getD id #[]).toList.filterMap (index.entries[·]?)

/-- The entry around an entry. -/
def parent? (index : Index) (id : NodeId) : Option Entry :=
  (index.find? id).bind fun e => e.parent.bind index.find?

/-- The other entries inside the same entry. -/
def siblings (index : Index) (id : NodeId) : List Entry :=
  match (index.find? id).bind (·.parent) with
  | none => []
  | some parent => (index.children parent).filter (·.id != id)

/-- The place of the entry around the one at place `i`, if it comes earlier. -/
def parentIndex? (index : Index) (i : Nat) : Option { j : Nat // j < i } :=
  (index.entries[i]?).bind fun e => e.parent.bind fun id => (index.first[id]?).bind fun j =>
    if earlier : j < i then some ⟨j, earlier⟩ else none

/-- The entries from the outermost one down to the one at place `i`, before those below it. -/
def pathOnto (index : Index) (i : Nat) (below : List Entry) : List Entry :=
  let path := (index.entries[i]?).toList ++ below
  match index.parentIndex? i with
  | none => path
  | some ⟨j, _⟩ => index.pathOnto j path
termination_by i

/-- The entries from the project down to an entry; none for an unknown id. -/
def path (index : Index) (id : NodeId) : List Entry :=
  match index.first[id]? with
  | none => []
  | some i => index.pathOnto i []

/-- The best place for a line and column after one more entry: only what is strictly deeper takes
over. -/
def keepDeeper (index : Index) (line column : Nat) (best : Option Nat) (next : Entry × Nat) :
    Option Nat :=
  if next.1.range.Contains line column then
    match best with
    | none => some next.2
    | some i => if index.depths.getD i 0 < index.depths.getD next.2 0 then some next.2 else best
  else best

/-- The deepest entry that contains a line and column; the first of several equally deep ones. -/
def at? (index : Index) (line column : Nat) : Option Entry :=
  (index.entries.zipIdx.foldl (index.keepDeeper line column) none).bind (index.entries[·]?)

/-- Count one more entry of a kind. A kind that is new comes last. -/
def tally (counts : List (NodeKind × Nat)) (kind : NodeKind) : List (NodeKind × Nat) :=
  match counts with
  | [] => [(kind, 1)]
  | (other, n) :: counts =>
    if other = kind then (other, n + 1) :: counts else (other, n) :: tally counts kind

/-- Counts over all entries. -/
def stats (index : Index) : Stats where
  totalNodes := index.entries.size
  nodesByKind := index.entries.foldl (fun counts e => tally counts e.kind) []
  maxDepth := index.depths.foldl max 0

end Index

/-- The index of a source map. -/
def index (map : SourceMap) : Index :=
  map.entries.foldl Index.add {}

end SourceMap

end Wireframe
