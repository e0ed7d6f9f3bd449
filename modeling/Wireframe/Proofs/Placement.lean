import Wireframe.Proofs.Links
import Wireframe.Proofs.Validation

/-!
# Placing what is found

The rules look at a project alone. A source map is asked afterwards, by the id that the node of a
finding bears, and only for where the diagnostic points. So two runs over different maps say the
same about the same nodes, and a project without ids is found to have the same problems at nodes
that no map knows.

## Main definitions

* `Finding.anonymous` — a finding that names no node.
* `Diagnostic.SaysTheSame` — two diagnostics say the same, wherever they point.

## Main results

* `Project.findings_clearIds` — ids are not looked at by any rule.
* `validate_reads_only_places` — what two runs of validation have in common.
-/

namespace Wireframe

/-- A finding that names no node. -/
def Finding.anonymous (f : Finding) : Finding :=
  { f with node := none }

/-- Two diagnostics say the same. They may name different nodes and point to different places. -/
structure Diagnostic.SaysTheSame (d e : Diagnostic) : Prop where
  severity : d.severity = e.severity
  code : d.code = e.code
  message : d.message = e.message
  suggestion : d.suggestion = e.suggestion

/-! ### Elements without ids -/

@[simp]
theorem id_clearTree (e : Element) : (Node.element (clearTree e)).id = none := by
  cases e <;> simp [clearTree, Node.id, Component.clearId, LayoutNode.clearId, CellNode.clearId]

theorem toTree_clearLayout (l : Layout) : (clearLayout l).toTree = clearTree l.toTree := by
  rw [clearTree, Rooted.toTree, Rooted.toTree, Tree.map_layout]
  rfl

/-- A node is judged by its data and by how many children it has. -/
theorem Scope.problemsAt_clearTree (scope : Scope) (e : Element) :
    scope.problemsAt (clearTree e) = scope.problemsAt e := by
  cases e with
  | component c =>
    rw [clearTree, Tree.map_component]
    rfl
  | layout l children =>
    rw [clearTree, Tree.map_layout, problemsAt, List.length_map]
    rfl
  | cell k children =>
    rw [clearTree, Tree.map_cell]
    rfl

theorem Scope.findingsAt_clearTree (scope : Scope) (e : Element) :
    scope.findingsAt (clearTree e) = (scope.findingsAt e).map Finding.anonymous := by
  rw [findingsAt, findingsAt, problemsAt_clearTree, id_clearTree, List.map_map]
  rfl

theorem gather_judge_clearTree (scope : Scope) (e : Element) :
    (clearTree e).gather scope.judge = (e.gather scope.judge).map Finding.anonymous := by
  rw [gather_judge, gather_judge, List.map_flatMap, clearTree, Tree.walk_map, List.flatMap_map]
  exact List.flatMap_congr fun node _ => scope.findingsAt_clearTree node

theorem isSlot_clearTree (e : Element) : isSlot (clearTree e) = isSlot e := by
  cases e <;> simp [clearTree, isSlot, Component.clearId]

theorem slotCount_clearTree (e : Element) : slotCount (clearTree e) = slotCount e := by
  rw [slotCount, clearTree, Tree.walk_map, List.countP_map]
  exact List.countP_congr fun node _ => by rw [Function.comp_apply, ← clearTree, isSlot_clearTree]

theorem reference?_clearTree (e : Element) : reference? (clearTree e) = reference? e := by
  cases e <;> simp [clearTree, reference?, Component.clearId, LayoutNode.clearId]

/-! ### Definitions without ids -/

namespace Definition

variable (d : Definition)

@[simp]
theorem name_clearIds : d.clearIds.name = d.name := by
  cases d <;> rfl

@[simp]
theorem id_clearIds : d.clearIds.id = none := by
  cases d <;> rfl

@[simp]
theorem isLayout_clearIds : d.clearIds.isLayout = d.isLayout := by
  cases d <;> rfl

@[simp]
theorem reference_clearIds : d.clearIds.reference = d.reference := by
  cases d <;> rfl

theorem body_clearIds : d.clearIds.body = clearTree d.body := by
  cases d with
  | component d =>
    cases body : d.body with
    | layout l =>
      simp only [clearIds, Definition.body, body, Body.clearIds, Body.toTree]
      exact toTree_clearLayout l
    | component c =>
      simp only [clearIds, Definition.body, body, Body.clearIds, Body.toTree]
      rw [clearTree, Tree.map_component]
  | layout d => exact toTree_clearLayout d.layout

theorem problems_clearIds : d.clearIds.problems = d.problems := by
  have slots : slotCount d.clearIds.body = slotCount d.body := by
    rw [body_clearIds, slotCount_clearTree]
  cases d with
  | component d => rfl
  | layout d =>
    rw [clearIds] at slots
    rw [clearIds, problems, slots]
    rfl

theorem mentions_clearIds : d.clearIds.mentions = d.mentions := by
  rw [mentions, mentions, body_clearIds, clearTree, Tree.walk_map, List.filterMap_map]
  exact List.filterMap_congr fun node _ => reference?_clearTree node

end Definition

theorem definitionFindings_clearIds (taken : List String) (definitions : List Definition) :
    definitionFindings taken (definitions.map Definition.clearIds) =
      (definitionFindings taken definitions).map Finding.anonymous := by
  induction definitions generalizing taken with
  | nil => rfl
  | cons d others ih =>
    simp only [List.map_cons, definitionFindings, d.name_clearIds, d.id_clearIds,
      d.problems_clearIds, ih, List.map_append, List.map_map]
    rfl

/-! ### Projects without ids -/

namespace Project

variable (project : Project)

theorem scope_clearIds (slotAllowed : Bool) :
    project.clearIds.scope slotAllowed = project.scope slotAllowed := by
  simp only [scope, componentNames, layoutNames, clearIds, List.filter_map, List.map_map,
    Function.comp_def, Definition.name_clearIds, Definition.isLayout_clearIds]

theorem elementFindings_clearIds :
    project.clearIds.elementFindings = project.elementFindings.map Finding.anonymous := by
  have screens : ∀ s : Screen, s.clearIds.layout.toTree = clearTree s.layout.toTree :=
    fun s => toTree_clearLayout s.layout
  simp only [elementFindings, scope_clearIds, List.map_append, List.map_flatMap]
  simp only [clearIds, List.flatMap_map, Definition.body_clearIds, Definition.isLayout_clearIds,
    screens, gather_judge_clearTree]

/-- Definitions refer to each other by name. -/
theorem references_clearIds : project.clearIds.references = project.references := by
  simp only [references, clearIds, List.map_map, Function.comp_def, List.filter_map,
    List.flatMap_map, Definition.reference_clearIds, Definition.mentions_clearIds]

theorem cycleFindings_clearIds :
    project.clearIds.cycleFindings = project.cycleFindings.map Finding.anonymous := by
  rw [cycleFindings, cycleFindings, references_clearIds]
  cases project.references.chains <;> rfl

/-- No rule looks at an id: without ids the same problems are found, at nodes without a name. -/
theorem findings_clearIds :
    project.clearIds.findings = project.findings.map Finding.anonymous := by
  rw [findings, findings, elementFindings_clearIds, cycleFindings_clearIds, List.map_append,
    List.map_append, ← definitionFindings_clearIds]
  rfl

end Project

/-! ### Diagnostics over different maps -/

theorem Finding.saysTheSame (f : Finding) (map other : SourceMap) :
    (f.diagnostic map).SaysTheSame (f.diagnostic other) :=
  ⟨rfl, rfl, rfl, rfl⟩

theorem Finding.saysTheSame_anonymous (f : Finding) (map : SourceMap) :
    (f.anonymous.diagnostic map).SaysTheSame (f.diagnostic map) :=
  ⟨rfl, rfl, rfl, rfl⟩

/-- Two maps only differ in where they make the diagnostics of a project point. Over any map the
project without ids is told the same, about no node and pointing to the start. -/
theorem validate_reads_only_places (project : Project) (map other : SourceMap) :
    List.Forall₂ (fun d e => d.SaysTheSame e ∧ d.nodeId = e.nodeId)
        (validate project map) (validate project other) ∧
      List.Forall₂ Diagnostic.SaysTheSame
        (validate project.clearIds map) (validate project map) ∧
      ∀ d ∈ validate project.clearIds map, d.nodeId = none ∧ d.range = .origin := by
  refine ⟨?_, ?_, ?_⟩
  · rw [validate, validate, List.forall₂_map_left_iff, List.forall₂_map_right_iff,
      List.forall₂_same]
    exact fun f _ => ⟨f.saysTheSame map other, rfl⟩
  · rw [validate, validate, Project.findings_clearIds, List.map_map, List.forall₂_map_left_iff,
      List.forall₂_map_right_iff, List.forall₂_same]
    exact fun f _ => f.saysTheSame_anonymous map
  · rw [validate, Project.findings_clearIds, List.map_map, List.forall_mem_map]
    -- A node without an id is not found in any map.
    exact fun f _ => ⟨rfl, rfl⟩

end Wireframe
