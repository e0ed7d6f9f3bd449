import Wireframe.SourceMap

/-!
# Questions to a source map

Ids can clash when definitions clash. An id then stands for the first entry that bears it. Every
question here is a search through the entries; an index answers the same ones by looking up.

## Main definitions

* `SourceMap.depth?`, `SourceMap.path` — how deep an entry lies, and the entries down to it.
* `SourceMap.children`, `SourceMap.parent?`, `SourceMap.siblings`.
* `SourceMap.at?` — the deepest entry at a line and column.
* `SourceMap.ofKind` — the entries of a kind.
* `SourceMap.stats` — counts over all entries.
-/

namespace Wireframe

namespace SourceMap

/-- The index of the first entry with a given id. -/
def indexOf? (map : SourceMap) (id : NodeId) : Option Nat :=
  map.entries.findIdx? (·.id == id)

/-- The index of the entry around the one at index `i`. It always comes earlier. -/
def parentIndex? (map : SourceMap) (i : Nat) : Option { j : Nat // j < i } :=
  (map.entries[i]?).bind fun e => e.parent.bind fun id => (map.indexOf? id).bind fun j =>
    if earlier : j < i then some ⟨j, earlier⟩ else none

/-- How many entries lie around the one at index `i`. -/
def depthAt (map : SourceMap) (i : Nat) : Nat :=
  match map.parentIndex? i with
  | none => 0
  | some ⟨j, _⟩ => map.depthAt j + 1
termination_by i

/-- The indices from the outermost entry down to the one at index `i`. -/
def pathTo (map : SourceMap) (i : Nat) : List Nat :=
  match map.parentIndex? i with
  | none => [i]
  | some ⟨j, _⟩ => map.pathTo j ++ [i]
termination_by i

/-- How many entries lie around an entry. -/
def depth? (map : SourceMap) (id : NodeId) : Option Nat :=
  (map.indexOf? id).map map.depthAt

/-- The entries from the project down to an entry; none for an unknown id. -/
def path (map : SourceMap) (id : NodeId) : List Entry :=
  match map.indexOf? id with
  | none => []
  | some i => (map.pathTo i).filterMap (map.entries[·]?)

/-- The entries directly inside an entry, in order. -/
def children (map : SourceMap) (id : NodeId) : List Entry :=
  map.entries.filter (·.parent == some id)

/-- The entry around an entry. -/
def parent? (map : SourceMap) (id : NodeId) : Option Entry :=
  (map.find? id).bind fun e => e.parent.bind map.find?

/-- The other entries inside the same entry. -/
def siblings (map : SourceMap) (id : NodeId) : List Entry :=
  match (map.find? id).bind (·.parent) with
  | none => []
  | some parent => (map.children parent).filter (·.id != id)

/-- The deepest entry that contains a line and column; the first of several equally deep ones. -/
def at? (map : SourceMap) (line column : Nat) : Option Entry :=
  let containing := map.entries.zipIdx.filter fun (e, _) => decide (e.range.Contains line column)
  let best := containing.foldl (fun best (e, i) =>
    -- only what is strictly deeper takes over
    match best with
    | none => some (e, map.depthAt i)
    | some (_, depth) => if depth < map.depthAt i then some (e, map.depthAt i) else best)
    (none : Option (Entry × Nat))
  best.map Prod.fst

/-- The entries of a kind, of a given type if one is given. -/
def ofKind (map : SourceMap) (kind : NodeKind) (subtype : Option String) : List Entry :=
  map.entries.filter fun e =>
    e.kind == kind && subtype.all fun wanted => e.subject.subtype? == some wanted

/-- Counts over all entries. -/
structure Stats where
  totalNodes : Nat
  /-- The kinds that occur, in the order in which they first do. -/
  nodesByKind : List (NodeKind × Nat)
  maxDepth : Nat
  deriving DecidableEq, Repr

/-- The kinds that occur, in the order in which they first do. -/
def kinds (map : SourceMap) : List NodeKind :=
  map.entries.foldl (fun seen e => if e.kind ∈ seen then seen else seen ++ [e.kind]) []

/-- Count the entries of a map. -/
def stats (map : SourceMap) : Stats where
  totalNodes := map.entries.length
  nodesByKind := map.kinds.map fun kind => (kind, map.entries.countP (·.kind == kind))
  maxDepth := ((List.range map.entries.length).map map.depthAt).foldl max 0

end SourceMap

end Wireframe
