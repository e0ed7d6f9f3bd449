import Wireframe.Project

/-!
# Visitors

A visitor says what to record at each part of a project. At a part that holds others it is given
what the visits inside have recorded, so it can record before or after them, or leave them out.

## Main definitions

* `Visitor` — what to record at each part; by default only what is recorded inside.
* `Project.visit` — what a visitor records in a project, definitions first.
-/

namespace Wireframe

/-- What to record at each part of a project. -/
structure Visitor (α : Type) extends Tree.Gather Component LayoutNode CellNode α where
  screen : Screen → List α → List α := fun _ inside => inside
  definition : Definition → List α → List α := fun _ inside => inside

variable {α : Type}

/-- What is recorded in a screen. -/
def Screen.visit (v : Visitor α) (s : Screen) : List α :=
  v.screen s (s.layout.toTree.gather v.toGather)

/-- What is recorded in a definition. -/
def Definition.visit (v : Visitor α) (d : Definition) : List α :=
  v.definition d (d.body.gather v.toGather)

/-- What is recorded in a project. -/
def Project.visit (v : Visitor α) (project : Project) : List α :=
  project.definitions.flatMap (Definition.visit v) ++ project.screens.flatMap (Screen.visit v)

end Wireframe
