/-!
# Trees of components, layouts and cells

A screen is a tree: components are its leaves, layouts and cells hold children in order. The same
shape serves for blocks as they are written and for the elements they stand for, so the data
carried by each of the three kinds of node is left open.

## Main definitions

* `Tree` — a node of the tree.
* `Rooted` — a tree whose root is a layout.
* `Tree.fold` — the value of a tree from the values of its children.
* `Tree.walk` — all nodes of a tree, each before its children.
* `Tree.gather` — what is gathered from a tree node by node, each node deciding about its children.

## Main results

* `Tree.fold_layout`, `Tree.fold_cell` — a fold is determined by the folds of the children.
* `Tree.induction` — a property of all trees, from the children to the node.
* `Tree.gather_eq_flatMap_walk` — what is gathered where every node only adds to it.
-/

namespace Wireframe

/-- A component, or a layout or cell with its children in order. -/
inductive Tree (C L K : Type) where
  | component (component : C)
  | layout (layout : L) (children : List (Tree C L K))
  | cell (cell : K) (children : List (Tree C L K))
  deriving Repr, Inhabited

/-- A tree whose root is a layout. -/
structure Rooted (C L K : Type) where
  layout : L
  children : List (Tree C L K)
  deriving Repr, Inhabited

namespace Rooted

variable {C L K : Type}

/-- The layout at the root, seen as a node. -/
def toTree (r : Rooted C L K) : Tree C L K :=
  .layout r.layout r.children

end Rooted

namespace Tree

variable {C L K β : Type}

/-- The children of a node, in order. -/
def children : Tree C L K → List (Tree C L K)
  | .component _ => []
  | .layout _ children => children
  | .cell _ children => children

mutual

/-- The value of a tree, from the data of its root and the values of its children. -/
def fold (component : C → β) (layout : L → List β → β) (cell : K → List β → β) :
    Tree C L K → β
  | .component c => component c
  | .layout l children => layout l (foldAll component layout cell children)
  | .cell k children => cell k (foldAll component layout cell children)

/-- The values of several trees, in order. -/
def foldAll (component : C → β) (layout : L → List β → β) (cell : K → List β → β) :
    List (Tree C L K) → List β
  | [] => []
  | tree :: trees =>
    fold component layout cell tree :: foldAll component layout cell trees

end

section Fold

variable (component : C → β) (layout : L → List β → β) (cell : K → List β → β)

theorem foldAll_eq_map (trees : List (Tree C L K)) :
    foldAll component layout cell trees = trees.map (fold component layout cell) := by
  induction trees with
  | nil => simp [foldAll]
  | cons tree trees ih => simp [foldAll, ih]

@[simp]
theorem fold_component (c : C) : fold component layout cell (.component c) = component c := by
  simp [fold]

@[simp]
theorem fold_layout (l : L) (trees : List (Tree C L K)) :
    fold component layout cell (.layout l trees) =
      layout l (trees.map (fold component layout cell)) := by
  simp [fold, foldAll_eq_map]

@[simp]
theorem fold_cell (k : K) (trees : List (Tree C L K)) :
    fold component layout cell (.cell k trees) =
      cell k (trees.map (fold component layout cell)) := by
  simp [fold, foldAll_eq_map]

end Fold

/-- What holds of a node whenever it holds of the children holds of every tree. -/
@[elab_as_elim]
theorem induction {motive : Tree C L K → Prop}
    (component : ∀ c, motive (.component c))
    (layout : ∀ l trees, (∀ t ∈ trees, motive t) → motive (.layout l trees))
    (cell : ∀ k trees, (∀ t ∈ trees, motive t) → motive (.cell k trees)) :
    ∀ tree, motive tree
  | .component c => component c
  | .layout l trees => layout l trees fun t _ => induction component layout cell t
  | .cell k trees => cell k trees fun t _ => induction component layout cell t

mutual

/-- All nodes of a tree, each before its children. -/
def walk : Tree C L K → List (Tree C L K)
  | .component c => [.component c]
  | .layout l children => .layout l children :: walkAll children
  | .cell k children => .cell k children :: walkAll children

/-- The nodes of several trees, one tree after the other. -/
def walkAll : List (Tree C L K) → List (Tree C L K)
  | [] => []
  | tree :: trees => walk tree ++ walkAll trees

end

theorem walkAll_eq_flatMap (trees : List (Tree C L K)) : walkAll trees = trees.flatMap walk := by
  induction trees with
  | nil => simp [walkAll]
  | cons tree trees ih => simp [walkAll, ih]

/-- The tree with the data of every node changed. -/
def map {C' L' K' : Type} (component : C → C') (layout : L → L') (cell : K → K') :
    Tree C L K → Tree C' L' K' :=
  fold (fun c => .component (component c)) (fun l => .layout (layout l))
    (fun k => .cell (cell k))

theorem walk_eq_cons (tree : Tree C L K) : tree.walk = tree :: tree.children.flatMap walk := by
  cases tree <;> simp [walk, children, walkAll_eq_flatMap]

/-- What to gather at each kind of node. A layout or cell is given its children and what was
gathered below it, and may put something around that, drop it, or keep it as it is. -/
structure Gather (C L K α : Type) where
  component : C → List α := fun _ => []
  layout : L → List (Tree C L K) → List α → List α := fun _ _ below => below
  cell : K → List (Tree C L K) → List α → List α := fun _ _ below => below

section Gather

variable {α : Type}

mutual

/-- What is gathered from a tree. -/
def gather (g : Gather C L K α) : Tree C L K → List α
  | .component c => g.component c
  | .layout l trees => g.layout l trees (gatherAll g trees)
  | .cell k trees => g.cell k trees (gatherAll g trees)

/-- What is gathered from several trees, one after the other. -/
def gatherAll (g : Gather C L K α) : List (Tree C L K) → List α
  | [] => []
  | tree :: trees => gather g tree ++ gatherAll g trees

end

theorem gatherAll_eq_flatMap (g : Gather C L K α) (trees : List (Tree C L K)) :
    gatherAll g trees = trees.flatMap (gather g) := by
  induction trees with
  | nil => simp [gatherAll]
  | cons tree trees ih => simp [gatherAll, ih]

section Walk

variable {g : Gather C L K α} {own : Tree C L K → List α}

private theorem gatherAll_eq_flatMap_walkAll {trees : List (Tree C L K)}
    (each : ∀ t ∈ trees, gather g t = (walk t).flatMap own) :
    gatherAll g trees = (walkAll trees).flatMap own := by
  rw [gatherAll_eq_flatMap, walkAll_eq_flatMap, List.flatMap_assoc, List.flatMap_def,
    List.flatMap_def, List.map_congr_left each]

/-- Where layouts and cells only put something before what was gathered below them, all is gathered
in the order of the nodes. -/
theorem gather_eq_flatMap_walk (component : ∀ c, g.component c = own (.component c))
    (layout : ∀ l trees below, g.layout l trees below = own (.layout l trees) ++ below)
    (cell : ∀ k trees below, g.cell k trees below = own (.cell k trees) ++ below)
    (tree : Tree C L K) :
    tree.gather g = tree.walk.flatMap own := by
  induction tree using Tree.induction with
  | component c => simp [gather, walk, component]
  | layout l trees ih =>
    rw [gather, layout, gatherAll_eq_flatMap_walkAll ih, walk, List.flatMap_cons]
  | cell k trees ih =>
    rw [gather, cell, gatherAll_eq_flatMap_walkAll ih, walk, List.flatMap_cons]

end Walk

end Gather

end Tree

end Wireframe
