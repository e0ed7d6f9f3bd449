import Mathlib.Data.List.Basic
import Wireframe.Project

/-!
# Parts with the parts around them

A walk lists the parts of a tree or of a project, each before the parts inside it. Here every part
is listed together with the part directly around it, in the same order.

## Main definitions

* `Tree.links` — the nodes below the root of a tree, each behind the node that it is a child of.
* `Project.links` — the parts of a project, each behind the part around it, if there is one.

## Main results

* `Tree.mem_walk_iff` — a walk comes to the root and to what lies below its children.
* `Tree.walk_eq_cons_links`, `Project.map_snd_links` — links list the parts in the order of a walk.
* `Tree.mem_links_iff`, `Project.mem_links` — links lead from a part to one of its children.
-/

namespace Wireframe

namespace Tree

variable {C L K C' L' K' : Type}

/-- What holds of a node whenever it holds of its children holds of every tree. -/
theorem induction_children {motive : Tree C L K → Prop}
    (node : ∀ t : Tree C L K, (∀ c ∈ t.children, motive c) → motive t) (t : Tree C L K) :
    motive t := by
  induction t using Tree.induction with
  | component c => exact node _ fun _ inside => absurd inside List.not_mem_nil
  | layout l trees ih => exact node _ ih
  | cell k trees ih => exact node _ ih

mutual

/-- The nodes below the root, each behind the node that it is a child of. -/
def links : Tree C L K → List (Tree C L K × Tree C L K)
  | .component _ => []
  | .layout l trees => linksUnder (.layout l trees) trees
  | .cell k trees => linksUnder (.cell k trees) trees

/-- The links below a node with these children. -/
def linksUnder (around : Tree C L K) : List (Tree C L K) → List (Tree C L K × Tree C L K)
  | [] => []
  | tree :: trees => (around, tree) :: (links tree ++ linksUnder around trees)

end

theorem linksUnder_eq_flatMap (around : Tree C L K) (trees : List (Tree C L K)) :
    linksUnder around trees = trees.flatMap fun c => (around, c) :: c.links := by
  induction trees with
  | nil => simp [linksUnder]
  | cons tree trees ih => simp [linksUnder, ih]

theorem links_eq_flatMap (t : Tree C L K) :
    t.links = t.children.flatMap fun c => (t, c) :: c.links := by
  cases t <;> simp [links, children, linksUnder_eq_flatMap]

/-- A walk comes to the root and to what the walks from its children come to. -/
theorem mem_walk_iff {t p : Tree C L K} :
    p ∈ t.walk ↔ p = t ∨ ∃ c ∈ t.children, p ∈ c.walk := by
  rw [walk_eq_cons, List.mem_cons, List.mem_flatMap]

theorem mem_walk_self (t : Tree C L K) : t ∈ t.walk :=
  mem_walk_iff.mpr (.inl rfl)

/-- Links list the nodes below the root in the order of the walk. -/
theorem walk_eq_cons_links (t : Tree C L K) : t.walk = t :: t.links.map Prod.snd := by
  induction t using induction_children with
  | node t ih =>
    have each : t.children.flatMap walk =
        t.children.flatMap fun c => c :: c.links.map Prod.snd :=
      List.flatMap_congr ih
    rw [walk_eq_cons, each, links_eq_flatMap, List.map_flatMap]
    rfl

/-- The links of a tree are the pairs of a node and one of its children. -/
theorem mem_links_iff {t p c : Tree C L K} :
    (p, c) ∈ t.links ↔ p ∈ t.walk ∧ c ∈ p.children := by
  induction t using induction_children with
  | node t ih =>
    rw [links_eq_flatMap, mem_walk_iff, List.mem_flatMap]
    constructor
    · rintro ⟨child, inside, found⟩
      rcases List.mem_cons.mp found with same | below
      · obtain ⟨rfl, rfl⟩ := Prod.mk.inj same
        exact ⟨.inl rfl, inside⟩
      · obtain ⟨reached, held⟩ := (ih child inside).mp below
        exact ⟨.inr ⟨child, inside, reached⟩, held⟩
    · rintro ⟨rfl | ⟨child, inside, reached⟩, held⟩
      · exact ⟨c, held, List.mem_cons_self⟩
      · exact ⟨child, inside, List.mem_cons_of_mem _ ((ih child inside).mpr ⟨reached, held⟩)⟩

theorem mem_walk_of_mem_children {t p c : Tree C L K} (reached : p ∈ t.walk)
    (held : c ∈ p.children) : c ∈ t.walk := by
  rw [walk_eq_cons_links t]
  exact List.mem_cons_of_mem _
    (List.mem_map.mpr ⟨(p, c), mem_links_iff.mpr ⟨reached, held⟩, rfl⟩)

section Map

variable (component : C → C') (layout : L → L') (cell : K → K')

@[simp]
theorem map_component (c : C) :
    (Tree.component c : Tree C L K).map component layout cell = .component (component c) :=
  fold_component _ _ _ c

@[simp]
theorem map_layout (l : L) (trees : List (Tree C L K)) :
    (Tree.layout l trees).map component layout cell =
      .layout (layout l) (trees.map (map component layout cell)) :=
  fold_layout _ _ _ l trees

@[simp]
theorem map_cell (k : K) (trees : List (Tree C L K)) :
    (Tree.cell k trees).map component layout cell =
      .cell (cell k) (trees.map (map component layout cell)) :=
  fold_cell _ _ _ k trees

/-- Changing the data of all nodes twice is changing it once. -/
theorem map_map {C'' L'' K'' : Type} (component' : C' → C'') (layout' : L' → L'')
    (cell' : K' → K'') (t : Tree C L K) :
    (t.map component layout cell).map component' layout' cell' =
      t.map (component' ∘ component) (layout' ∘ layout) (cell' ∘ cell) := by
  induction t using Tree.induction with
  | component c => simp only [map_component, Function.comp_apply]
  | layout l trees ih =>
    simp only [map_layout, List.map_map, Function.comp_apply]
    exact congrArg _ (List.map_congr_left ih)
  | cell k trees ih =>
    simp only [map_cell, List.map_map, Function.comp_apply]
    exact congrArg _ (List.map_congr_left ih)

theorem children_map (t : Tree C L K) :
    (t.map component layout cell).children = t.children.map (map component layout cell) := by
  cases t <;> simp [map, children]

/-- Changing the data of all nodes keeps the links. -/
theorem links_map (t : Tree C L K) : (t.map component layout cell).links =
    t.links.map (Prod.map (map component layout cell) (map component layout cell)) := by
  induction t using induction_children with
  | node t ih =>
    rw [links_eq_flatMap, links_eq_flatMap t, children_map, List.flatMap_map, List.map_flatMap]
    refine List.flatMap_congr fun c inside => ?_
    rw [List.map_cons, ih c inside]
    rfl

/-- Changing the data of all nodes keeps the walk. -/
theorem walk_map (t : Tree C L K) : (t.map component layout cell).walk =
    t.walk.map (map component layout cell) := by
  rw [walk_eq_cons_links, walk_eq_cons_links t, links_map, List.map_map, List.map_cons,
    List.map_map]
  rfl

end Map

end Tree

/-! ### Projects -/

/-- The links between elements as links between parts. -/
def elementLinks (e : Element) : List (Node × Node) :=
  e.links.map (Prod.map .element .element)

/-- The parts inside a definition, each behind the part around it. -/
def Definition.links (d : Definition) : List (Node × Node) :=
  (.definition d, .element d.body) :: elementLinks d.body

/-- The parts inside a screen, each behind the part around it. -/
def Screen.links (s : Screen) : List (Node × Node) :=
  (.screen s, .element s.layout.toTree) :: elementLinks s.layout.toTree

/-- The parts inside a project, each behind the part around it. -/
def Project.inside (project : Project) : List (Node × Node) :=
  (project.definitions.flatMap fun d => (.project project, .definition d) :: d.links) ++
    project.screens.flatMap fun s => (.project project, .screen s) :: s.links

/-- All parts of a project, each behind the part around it. There is none around the project. -/
def Project.links (project : Project) : List (Option Node × Node) :=
  (none, .project project) :: project.inside.map fun link => (some link.1, link.2)

theorem map_snd_elementLinks (e : Element) :
    .element e :: (elementLinks e).map Prod.snd = e.walk.map Node.element := by
  rw [Tree.walk_eq_cons_links, elementLinks, List.map_map, List.map_cons, List.map_map]
  rfl

/-- Links list the parts of a project in the order of its walk. -/
theorem Project.map_snd_links (project : Project) :
    project.links.map Prod.snd = project.walk := by
  have definitions : Definition.walk = fun d => .definition d :: d.links.map Prod.snd := by
    funext d
    rw [Definition.walk, Definition.links, List.map_cons, map_snd_elementLinks]
  have screens : Screen.walk = fun s => .screen s :: s.links.map Prod.snd := by
    funext s
    rw [Screen.walk, Screen.links, List.map_cons, map_snd_elementLinks]
  simp only [Project.links, Project.inside, Project.walk, List.map_cons, List.map_map,
    List.map_append, List.map_flatMap, definitions, screens]
  rfl

theorem mem_elementLinks {e : Element} {p n : Node} (found : (p, n) ∈ elementLinks e) :
    p ∈ e.walk.map Node.element ∧ n ∈ p.children := by
  obtain ⟨⟨q, c⟩, inside, same⟩ := List.mem_map.mp found
  obtain ⟨rfl, rfl⟩ := Prod.mk.inj same
  obtain ⟨reached, held⟩ := Tree.mem_links_iff.mp inside
  exact ⟨List.mem_map_of_mem reached, List.mem_map_of_mem held⟩

theorem Definition.mem_links {d : Definition} {p n : Node} (found : (p, n) ∈ d.links) :
    p ∈ d.walk ∧ n ∈ p.children := by
  rcases List.mem_cons.mp found with same | inside
  · obtain ⟨rfl, rfl⟩ := Prod.mk.inj same
    exact ⟨List.mem_cons_self, List.mem_cons_self⟩
  · obtain ⟨reached, held⟩ := mem_elementLinks inside
    exact ⟨List.mem_cons_of_mem _ reached, held⟩

theorem Screen.mem_links {s : Screen} {p n : Node} (found : (p, n) ∈ s.links) :
    p ∈ s.walk ∧ n ∈ p.children := by
  rcases List.mem_cons.mp found with same | inside
  · obtain ⟨rfl, rfl⟩ := Prod.mk.inj same
    exact ⟨List.mem_cons_self, List.mem_cons_self⟩
  · obtain ⟨reached, held⟩ := mem_elementLinks inside
    exact ⟨List.mem_cons_of_mem _ reached, held⟩

theorem Project.mem_inside {project : Project} {p n : Node}
    (found : (p, n) ∈ project.inside) : p ∈ project.walk ∧ n ∈ p.children := by
  rcases List.mem_append.mp found with found | found
  · obtain ⟨d, held, found⟩ := List.mem_flatMap.mp found
    rcases List.mem_cons.mp found with same | below
    · obtain ⟨rfl, rfl⟩ := Prod.mk.inj same
      exact ⟨List.mem_cons_self, List.mem_append_left _ (List.mem_map_of_mem held)⟩
    · obtain ⟨reached, child⟩ := d.mem_links below
      have walked := List.mem_flatMap.mpr ⟨d, held, reached⟩
      exact ⟨List.mem_cons_of_mem _ (List.mem_append_left _ walked), child⟩
  · obtain ⟨s, held, found⟩ := List.mem_flatMap.mp found
    rcases List.mem_cons.mp found with same | below
    · obtain ⟨rfl, rfl⟩ := Prod.mk.inj same
      exact ⟨List.mem_cons_self, List.mem_append_right _ (List.mem_map_of_mem held)⟩
    · obtain ⟨reached, child⟩ := s.mem_links below
      have walked := List.mem_flatMap.mpr ⟨s, held, reached⟩
      exact ⟨List.mem_cons_of_mem _ (List.mem_append_right _ walked), child⟩

/-- Links lead from a part of a project to one of its children. Only the link of the project itself
leads from nowhere. -/
theorem Project.mem_links {project : Project} {link : Option Node × Node}
    (found : link ∈ project.links) : link = (none, .project project) ∨
      ∃ around ∈ project.walk, link.1 = some around ∧ link.2 ∈ around.children := by
  rcases List.mem_cons.mp found with root | below
  · exact .inl root
  · obtain ⟨⟨p, n⟩, inside, rfl⟩ := List.mem_map.mp below
    obtain ⟨reached, child⟩ := Project.mem_inside inside
    exact .inr ⟨p, reached, rfl, child⟩

end Wireframe
