import Wireframe.Project

/-!
# References between definitions

The body of a definition mentions components and layouts. Those that the project defines are the
neighbours of the definition in the reference graph. Definitions of one kind and name are one node.

## Main definitions

* `Reference` — a defined component or layout, by kind and name.
* `ReferenceGraph` — the nodes with their neighbours.
* `Project.references` — the reference graph of a project.
* `ReferenceGraph.chains` — chains of references that return to where they start.
-/

namespace Wireframe

/-- A defined component or layout. -/
inductive Reference where
  | component (name : String)
  | layout (name : String)
  deriving DecidableEq, Repr

/-- The name that is referred to. -/
def Reference.name : Reference → String
  | .component s | .layout s => s

/-- How elements refer to a definition. -/
def Definition.reference : Definition → Reference
  | .component d => .component d.name
  | .layout d => .layout d.name

/-- What a node of an element refers to. -/
def reference? : Element → Option Reference
  | .component c => some (.component c.kind)
  | .layout l _ => some (.layout l.kind)
  | .cell _ _ => none

/-- What the body of a definition refers to, built-in types included. -/
def Definition.mentions (d : Definition) : List Reference :=
  d.body.walk.filterMap reference?

/-- Nodes in order, and the neighbours of each in order. -/
structure ReferenceGraph where
  nodes : List Reference
  neighbours : Reference → List Reference

/-- The references between the definitions of a project. Nodes and neighbours come in the order in
which the text first defines and mentions them. -/
def Project.references (project : Project) : ReferenceGraph :=
  let nodes := (project.definitions.map Definition.reference).eraseDups
  { nodes
    neighbours := fun r =>
      let bodies := project.definitions.filter (·.reference == r)
      ((bodies.flatMap Definition.mentions).filter nodes.contains).eraseDups }

namespace ReferenceGraph

/-- What a search has found out: the nodes that lead nowhere new, and the chains so far. -/
structure Search where
  resolved : List Reference := []
  chains : List (List Reference) := []
  deriving Repr

/-- The chain that a step back to `node` closes. The path is listed from its end to its start. -/
def closedChain (path : List Reference) (node : Reference) : List Reference :=
  node :: (path.takeWhile (· != node)).reverse ++ [node]

/-- Search on from the end of a path. A step back onto the path closes a chain; a step to a resolved
node adds nothing; any other step makes the path longer, at most `steps` times. -/
def explore (g : ReferenceGraph) : Nat → Reference → List Reference → Search → Search
  | 0, _, _, s => s
  | steps + 1, node, before, s =>
    let path := node :: before
    let s := (g.neighbours node).foldl (fun s next =>
      if next ∈ path then { s with chains := s.chains ++ [closedChain path next] }
      else if next ∈ s.resolved then s
      else g.explore steps next path s) s
    -- Every neighbour has been tried, so the node leads nowhere new.
    { s with resolved := node :: s.resolved }

/-- Search from every node in turn. A path never repeats a node, so it has room for all of them. -/
def search (g : ReferenceGraph) : Search :=
  g.nodes.foldl (fun s node =>
    if node ∈ s.resolved then s else g.explore g.nodes.length node [] s) {}

/-- Chains of references that start and end at the same definition. -/
def chains (g : ReferenceGraph) : List (List Reference) :=
  g.search.chains

end ReferenceGraph

end Wireframe
