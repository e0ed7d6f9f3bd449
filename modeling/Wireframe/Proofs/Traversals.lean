import Wireframe.Proofs.TreeDepth
import Wireframe.Proofs.Verdicts

/-!
# Visiting and walking

There are two ways to go through a project. A walk lists every part in front of the parts inside it;
a visitor is shown the parts and says what to record. A visitor that at no part does more than put
something in front of what is recorded inside it records all of that in the order of the walk, and
leaves no part out.

## Main definitions

* `Visitor.RecordsFirst` — a visitor that only puts something in front.
* `Visitor.elements`, `Visitor.components` — the visitors that record all elements, and components.

## Main results

* `visit_eq_flatMap_walk` — what such a visitor records, part by part.
* `visit_agrees_with_walk` — the elements and the components that are visited are those of the walk.
-/

namespace Wireframe

variable {α : Type}

/-- A visitor that at every part puts something of its own in front of what is recorded inside. -/
structure Visitor.RecordsFirst (v : Visitor α) (own : Node → List α) : Prop where
  definition : ∀ d inside, v.definition d inside = own (.definition d) ++ inside
  screen : ∀ s inside, v.screen s inside = own (.screen s) ++ inside
  layout : ∀ l trees below, v.layout l trees below = own (.element (.layout l trees)) ++ below
  cell : ∀ k trees below, v.cell k trees below = own (.element (.cell k trees)) ++ below
  component : ∀ c, v.component c = own (.element (.component c))

section RecordsFirst

variable {v : Visitor α} {own : Node → List α} (first : v.RecordsFirst own)

include first

/-- Inside an element it records in the order of the element's own walk. -/
theorem Visitor.RecordsFirst.gather_eq (e : Element) :
    e.gather v.toGather = (e.walk.map Node.element).flatMap own := by
  rw [List.flatMap_map]
  exact Tree.gather_eq_flatMap_walk first.component first.layout first.cell e

theorem Visitor.RecordsFirst.definition_eq (d : Definition) :
    d.visit v = d.walk.flatMap own := by
  rw [Definition.visit, first.definition, first.gather_eq, Definition.walk, List.flatMap_cons]

theorem Visitor.RecordsFirst.screen_eq (s : Screen) : s.visit v = s.walk.flatMap own := by
  rw [Screen.visit, first.screen, first.gather_eq, Screen.walk, List.flatMap_cons]

/-- A visitor that only puts something in front records it in the order of the walk. Nothing is
recorded at the project itself. -/
theorem visit_eq_flatMap_walk (project : Project) :
    own (.project project) ++ project.visit v = project.walk.flatMap own := by
  rw [Project.visit, Project.walk, List.flatMap_cons, List.flatMap_append, List.flatMap_assoc,
    List.flatMap_assoc, funext first.definition_eq, funext first.screen_eq]

end RecordsFirst

/-- The visitor that records every layout, cell and component, before those inside it. -/
def Visitor.elements : Visitor Element where
  component c := [.component c]
  layout l trees below := .layout l trees :: below
  cell k trees below := .cell k trees :: below

/-- The visitor that records components and has nothing of its own at any other part. -/
def Visitor.components : Visitor Component where
  component c := [c]

/-- The component that a part of a project is, if it is one. -/
def Node.component? : Node → Option Component
  | .element (.component c) => some c
  | _ => none

theorem Visitor.recordsFirst_elements :
    Visitor.elements.RecordsFirst fun n => n.element?.toList where
  definition := fun _ _ => rfl
  screen := fun _ _ => rfl
  layout := fun _ _ _ => rfl
  cell := fun _ _ _ => rfl
  component := fun _ => rfl

theorem Visitor.recordsFirst_components :
    Visitor.components.RecordsFirst fun n => n.component?.toList where
  definition := fun _ _ => rfl
  screen := fun _ _ => rfl
  layout := fun _ _ _ => rfl
  cell := fun _ _ _ => rfl
  component := fun _ => rfl

/-- Visits and walks agree: the layouts, cells and components that are visited are those of the
walk, and so are the components that a visitor of components alone is shown. None is left out, shown
twice or moved. -/
theorem visit_agrees_with_walk (project : Project) :
    project.visit .elements = (Node.project project).walk.filterMap Node.element? ∧
      project.visit .components = (Node.project project).walk.filterMap Node.component? := by
  rw [List.filterMap_eq_flatMap_toList, List.filterMap_eq_flatMap_toList]
  exact ⟨visit_eq_flatMap_walk Visitor.recordsFirst_elements project,
    visit_eq_flatMap_walk Visitor.recordsFirst_components project⟩

end Wireframe
