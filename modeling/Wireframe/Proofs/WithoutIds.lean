import Mathlib.Tactic.MkIffOfInductiveProp
import Wireframe.Proofs.Placement
import Wireframe.Proofs.TreeDepth

/-!
# Projects without ids

Clearing takes away every id of a project: none is left at any part that a walk comes to. It takes
away nothing else. To say so, projects are compared part by part, each part with the part in the
same place and by all of its data but the id. Two projects that agree in this way, and no others,
become the same project when they are cleared.

## Main definitions

* `AgreeExceptIds`, `Project.AgreesExceptIds` — the same parts in the same places, up to ids.
* `Node.clearIds` — any part of a project, without ids.

## Main results

* `Node.walk_clearIds` — clearing a part clears every part that its walk comes to.
* `Project.clearIds_eq_clearIds_iff` — which projects become equal by clearing.
* `clearing_removes_only_ids` — clearing removes all ids and nothing else.
-/

namespace Wireframe

/-! ### Agreement up to ids -/

/-- Two components have the same data, whatever their ids are. -/
@[mk_iff]
structure Component.AgreesExceptId (c d : Component) : Prop where
  kind : c.kind = d.kind
  properties : c.properties = d.properties

/-- Two layouts have the same data, whatever their ids are. -/
@[mk_iff]
structure LayoutNode.AgreesExceptId (l m : LayoutNode) : Prop where
  kind : l.kind = m.kind
  params : l.params = m.params

/-- Two cells have the same data, whatever their ids are. -/
@[mk_iff]
structure CellNode.AgreesExceptId (k m : CellNode) : Prop where
  properties : k.properties = m.properties

/-- Two elements are the same up to ids: two components, two layouts or two cells that have the
same data, with as many children that are the same up to ids, one by one. -/
inductive AgreeExceptIds : Element → Element → Prop where
  | component {c d : Component} (own : c.AgreesExceptId d) :
    AgreeExceptIds (.component c) (.component d)
  | layout {l m : LayoutNode} (own : l.AgreesExceptId m) {trees others : List Element}
    (inside : List.Forall₂ AgreeExceptIds trees others) :
    AgreeExceptIds (.layout l trees) (.layout m others)
  | cell {k m : CellNode} (own : k.AgreesExceptId m) {trees others : List Element}
    (inside : List.Forall₂ AgreeExceptIds trees others) :
    AgreeExceptIds (.cell k trees) (.cell m others)

/-- Two bodies are the same up to ids. -/
inductive Body.AgreesExceptIds : Body → Body → Prop where
  | layout {l m : Layout} (same : AgreeExceptIds l.toTree m.toTree) :
    AgreesExceptIds (.layout l) (.layout m)
  | component {c d : Component} (same : c.AgreesExceptId d) :
    AgreesExceptIds (.component c) (.component d)

/-- Two definitions are of one kind and the same up to ids. -/
inductive Definition.AgreesExceptIds : Definition → Definition → Prop where
  | component {d e : ComponentDefinition} (name : d.name = e.name)
    (body : d.body.AgreesExceptIds e.body) : AgreesExceptIds (.component d) (.component e)
  | layout {d e : LayoutDefinition} (name : d.name = e.name)
    (body : AgreeExceptIds d.layout.toTree e.layout.toTree) :
    AgreesExceptIds (.layout d) (.layout e)

/-- Two screens are the same up to ids. -/
@[mk_iff]
structure Screen.AgreesExceptIds (s t : Screen) : Prop where
  name : s.name = t.name
  params : s.params = t.params
  layout : AgreeExceptIds s.layout.toTree t.layout.toTree

/-- Two projects differ at most in ids: their settings are equal, and their definitions and screens
are the same up to ids, one by one. -/
@[mk_iff]
structure Project.AgreesExceptIds (p q : Project) : Prop where
  name : p.name = q.name
  style : p.style = q.style
  mocks : p.mocks = q.mocks
  colors : p.colors = q.colors
  definitions : List.Forall₂ Definition.AgreesExceptIds p.definitions q.definitions
  screens : List.Forall₂ Screen.AgreesExceptIds p.screens q.screens

/-! ### No id is left -/

namespace Node

/-- The part without its id and those inside it. -/
def clearIds : Node → Node
  | .project p => .project p.clearIds
  | .definition d => .definition d.clearIds
  | .screen s => .screen s.clearIds
  | .element e => .element (clearTree e)

variable (a : Node)

@[simp]
theorem id_clearIds : a.clearIds.id = none := by
  cases a with
  | project | screen => rfl
  | definition d => exact d.id_clearIds
  | element e => exact id_clearTree e

theorem children_clearIds : a.clearIds.children = a.children.map clearIds := by
  cases a with
  | project p => simp [clearIds, children, Project.clearIds, Function.comp_def]
  | definition d => simp [clearIds, children, Definition.body_clearIds]
  | screen s => simp [clearIds, children, Screen.clearIds, toTree_clearLayout]
  | element e => simp [clearIds, children, clearTree, Tree.children_map, Function.comp_def]

/-- A walk through a cleared part comes to the same parts in the same order, all of them cleared. -/
theorem walk_clearIds : a.clearIds.walk = a.walk.map clearIds := by
  induction a using induction_children with
  | node a ih =>
    have below : (a.children.map clearIds).flatMap walk =
        (a.children.flatMap walk).map clearIds := by
      rw [List.flatMap_map, List.map_flatMap]
      exact List.flatMap_congr ih
    rw [walk_eq_cons, children_clearIds, below, a.walk_eq_cons, List.map_cons]

/-- No part that a walk through a cleared part comes to bears an id. -/
theorem id_of_mem_walk_clearIds {b : Node} (reached : b ∈ a.clearIds.walk) : b.id = none := by
  rw [walk_clearIds] at reached
  obtain ⟨n, -, rfl⟩ := List.mem_map.mp reached
  exact n.id_clearIds

end Node

/-! ### What becomes equal by clearing -/

/-- Lists are mapped to the same list where their items are mapped to the same items. -/
theorem map_eq_map_iff_forall₂ {α β : Type} {f : α → β} {R : α → α → Prop} {xs ys : List α}
    (each : ∀ x ∈ xs, ∀ y, f x = f y ↔ R x y) : xs.map f = ys.map f ↔ List.Forall₂ R xs ys := by
  induction xs generalizing ys with
  | nil => rw [List.map_nil, List.nil_eq, List.map_eq_nil_iff, List.forall₂_nil_left_iff]
  | cons x xs ih =>
    cases ys with
    | nil => exact iff_of_false (List.cons_ne_nil _ _) (by rintro ⟨⟩)
    | cons y ys =>
      have first := each x List.mem_cons_self y
      have others : xs.map f = ys.map f ↔ List.Forall₂ R xs ys :=
        ih fun z inside => each z (List.mem_cons_of_mem _ inside)
      rw [List.map_cons, List.map_cons, List.cons.injEq, List.forall₂_cons, first, others]

theorem Component.clearId_eq_clearId_iff {c d : Component} :
    c.clearId = d.clearId ↔ c.AgreesExceptId d := by
  simp only [clearId, mk.injEq, and_true, agreesExceptId_iff]

theorem LayoutNode.clearId_eq_clearId_iff {l m : LayoutNode} :
    l.clearId = m.clearId ↔ l.AgreesExceptId m := by
  simp only [clearId, mk.injEq, and_true, agreesExceptId_iff]

theorem CellNode.clearId_eq_clearId_iff {k m : CellNode} :
    k.clearId = m.clearId ↔ k.AgreesExceptId m := by
  simp only [clearId, mk.injEq, and_true, agreesExceptId_iff]

/-- Clearing makes two elements equal just when they are the same up to ids. -/
theorem clearTree_eq_clearTree_iff {e f : Element} :
    clearTree e = clearTree f ↔ AgreeExceptIds e f := by
  -- By induction on one element with the other in step. Where one is a layout, say, and the other
  -- is not, neither side holds.
  induction e using Tree.induction generalizing f with
  | component c =>
    cases f with
    | component d =>
      rw [clearTree, Tree.map_component, Tree.map_component, Tree.component.injEq,
        Component.clearId_eq_clearId_iff]
      constructor
      · exact .component
      · intro agree
        cases agree with
        | component own => exact own
    | layout | cell => exact iff_of_false (by simp [clearTree]) (by rintro ⟨⟩)
  | layout l trees ih =>
    cases f with
    | layout m others =>
      rw [clearTree, Tree.map_layout, Tree.map_layout, Tree.layout.injEq,
        LayoutNode.clearId_eq_clearId_iff, ← clearTree,
        map_eq_map_iff_forall₂ fun t held _ => ih t held]
      constructor
      · rintro ⟨own, below⟩
        exact .layout own below
      · intro agree
        cases agree with
        | layout own below => exact ⟨own, below⟩
    | component | cell => exact iff_of_false (by simp [clearTree]) (by rintro ⟨⟩)
  | cell k trees ih =>
    cases f with
    | cell m others =>
      rw [clearTree, Tree.map_cell, Tree.map_cell, Tree.cell.injEq,
        CellNode.clearId_eq_clearId_iff, ← clearTree,
        map_eq_map_iff_forall₂ fun t held _ => ih t held]
      constructor
      · rintro ⟨own, below⟩
        exact .cell own below
      · intro agree
        cases agree with
        | cell own below => exact ⟨own, below⟩
    | component | layout => exact iff_of_false (by simp [clearTree]) (by rintro ⟨⟩)

theorem Rooted.toTree_inj {C L K : Type} {r s : Rooted C L K} : r.toTree = s.toTree ↔ r = s := by
  cases r
  cases s
  simp only [toTree, Tree.layout.injEq, mk.injEq]

theorem clearLayout_eq_clearLayout_iff {l m : Layout} :
    clearLayout l = clearLayout m ↔ AgreeExceptIds l.toTree m.toTree := by
  rw [← Rooted.toTree_inj, toTree_clearLayout, toTree_clearLayout, clearTree_eq_clearTree_iff]

theorem Body.clearIds_eq_clearIds_iff {b other : Body} :
    b.clearIds = other.clearIds ↔ b.AgreesExceptIds other := by
  cases b with
  | layout l =>
    cases other with
    | layout m =>
      rw [clearIds, clearIds, layout.injEq, clearLayout_eq_clearLayout_iff]
      constructor
      · exact .layout
      · intro agree
        cases agree with
        | layout same => exact same
    | component => exact iff_of_false (by rintro ⟨⟩) (by rintro ⟨⟩)
  | component c =>
    cases other with
    | component d =>
      rw [clearIds, clearIds, component.injEq, Component.clearId_eq_clearId_iff]
      constructor
      · exact .component
      · intro agree
        cases agree with
        | component same => exact same
    | layout => exact iff_of_false (by rintro ⟨⟩) (by rintro ⟨⟩)

theorem Definition.clearIds_eq_clearIds_iff {d e : Definition} :
    d.clearIds = e.clearIds ↔ d.AgreesExceptIds e := by
  cases d with
  | component d =>
    cases e with
    | component e =>
      simp only [clearIds, component.injEq, ComponentDefinition.mk.injEq, and_true,
        Body.clearIds_eq_clearIds_iff]
      constructor
      · rintro ⟨name, body⟩
        exact .component name body
      · intro agree
        cases agree with
        | component name body => exact ⟨name, body⟩
    | layout => exact iff_of_false (by rintro ⟨⟩) (by rintro ⟨⟩)
  | layout d =>
    cases e with
    | layout e =>
      simp only [clearIds, layout.injEq, LayoutDefinition.mk.injEq, and_true,
        clearLayout_eq_clearLayout_iff]
      constructor
      · rintro ⟨name, body⟩
        exact .layout name body
      · intro agree
        cases agree with
        | layout name body => exact ⟨name, body⟩
    | component => exact iff_of_false (by rintro ⟨⟩) (by rintro ⟨⟩)

theorem Screen.clearIds_eq_clearIds_iff {s t : Screen} :
    s.clearIds = t.clearIds ↔ s.AgreesExceptIds t := by
  simp only [clearIds, mk.injEq, and_true, clearLayout_eq_clearLayout_iff, agreesExceptIds_iff]

/-- Clearing makes two projects equal just when they differ at most in ids. -/
theorem Project.clearIds_eq_clearIds_iff {p q : Project} :
    p.clearIds = q.clearIds ↔ p.AgreesExceptIds q := by
  have definitions : p.definitions.map Definition.clearIds = q.definitions.map Definition.clearIds ↔
      List.Forall₂ Definition.AgreesExceptIds p.definitions q.definitions :=
    map_eq_map_iff_forall₂ fun _ _ _ => Definition.clearIds_eq_clearIds_iff
  have screens : p.screens.map Screen.clearIds = q.screens.map Screen.clearIds ↔
      List.Forall₂ Screen.AgreesExceptIds p.screens q.screens :=
    map_eq_map_iff_forall₂ fun _ _ _ => Screen.clearIds_eq_clearIds_iff
  simp only [clearIds, mk.injEq, and_true, definitions, screens, agreesExceptIds_iff]

/-! ### Clearing twice -/

theorem clearTree_clearTree (e : Element) : clearTree (clearTree e) = clearTree e := by
  rw [clearTree, Tree.map_map]
  rfl

theorem clearLayout_clearLayout (l : Layout) : clearLayout (clearLayout l) = clearLayout l := by
  rw [← Rooted.toTree_inj, toTree_clearLayout, toTree_clearLayout, clearTree_clearTree]

theorem Body.clearIds_clearIds (b : Body) : b.clearIds.clearIds = b.clearIds := by
  cases b with
  | layout l => rw [clearIds, clearIds, clearLayout_clearLayout]
  | component c => rfl

theorem Definition.clearIds_clearIds (d : Definition) : d.clearIds.clearIds = d.clearIds := by
  cases d with
  | component d => simp only [clearIds, Body.clearIds_clearIds]
  | layout d => simp only [clearIds, clearLayout_clearLayout]

theorem Screen.clearIds_clearIds (s : Screen) : s.clearIds.clearIds = s.clearIds := by
  simp only [clearIds, clearLayout_clearLayout]

theorem Project.clearIds_clearIds (p : Project) : p.clearIds.clearIds = p.clearIds := by
  simp only [clearIds, List.map_map, Function.comp_def, Definition.clearIds_clearIds,
    Screen.clearIds_clearIds]

/-- Clearing removes all ids and nothing else: a walk through the cleared project comes to no id,
the project differs from what it was at most in ids, and projects become equal by clearing just when
they differ at most in ids. Clearing again changes nothing. -/
theorem clearing_removes_only_ids (p : Project) :
    (∀ n ∈ (Node.project p.clearIds).walk, n.id = none) ∧
      p.AgreesExceptIds p.clearIds ∧
      (∀ q : Project, p.clearIds = q.clearIds ↔ p.AgreesExceptIds q) ∧
      p.clearIds.clearIds = p.clearIds := by
  refine ⟨fun n reached => ?_, ?_, fun q => Project.clearIds_eq_clearIds_iff, p.clearIds_clearIds⟩
  · exact (Node.project p).id_of_mem_walk_clearIds reached
  · -- A project agrees with what it is cleared to, as both are cleared to the same.
    rw [← Project.clearIds_eq_clearIds_iff, p.clearIds_clearIds]

end Wireframe
