import Mathlib.Algebra.GroupWithZero.Nat
import Wireframe.Proofs.PieceForm
import Wireframe.Proofs.Reference
import Wireframe.Validation

/-!
# What the rules find

Of all that can be wrong with a project, only some problems are errors. Every rule for a node has
either no error at all or an error that says exactly what the node lacks, so the errors of a project
come down to seven conditions on its definitions, its slots, its layouts and its references.
Circular references are reported once, by the chains that the search for them closes.

## Main definitions

* `Scope.problemsAt` — what is wrong with one node of an element.
* `Scope.Accepts` — a node without an error.
* `Project.WellFormed` — a project without an error.

## Main results

* `gather_judge` — the findings of an element are those of its nodes, one after the other.
* `cycle_report` — the report on circular references.
* `validate_noError_iff` — there is no error exactly if the project is well-formed.
-/

namespace Wireframe

/-! ### Warnings -/

section Warnings

variable {c : Prop} [Decidable c] {p q : Problem}

/-- A rule that reports one problem under a condition. -/
private theorem eq_of_mem_when (found : p ∈ if c then [q] else []) : p = q := by
  split at found
  · exact List.mem_singleton.mp found
  · contradiction

/-- A rule that reports one problem unless a condition holds. -/
private theorem eq_of_mem_unless (found : p ∈ if c then [] else [q]) : p = q := by
  split at found
  · contradiction
  · exact List.mem_singleton.mp found

theorem PropertySpec.severity_problems {spec : PropertySpec} {owner : Owner} {value : PropertyValue}
    (found : p ∈ spec.problems owner value) : p.severity = .warning := by
  unfold PropertySpec.problems at found
  split at found
  case h_1 =>
    rw [eq_of_mem_unless found]
    rfl
  case h_2 =>
    split_ifs at found
    · contradiction
    · rw [List.mem_singleton.mp found]
      rfl
    · contradiction
  all_goals contradiction

/-- Whatever is wrong with properties is no error. -/
theorem severity_propertyProblems {owner : Owner} {specs : List PropertySpec}
    {properties : Properties} (found : p ∈ propertyProblems owner specs properties) :
    p.severity = .warning := by
  obtain ⟨⟨name, value⟩, -, here⟩ := List.mem_flatMap.mp found
  simp only [propertyProblem] at here
  split at here
  · obtain rfl := List.mem_singleton.mp here
    rfl
  · exact PropertySpec.severity_problems here

theorem TypeSpec.severity_componentProblems {spec : TypeSpec} {properties : Properties}
    (found : p ∈ spec.componentProblems properties) : p.severity = .warning := by
  rcases List.mem_append.mp found with missing | property
  · obtain rfl := eq_of_mem_unless missing
    rfl
  · exact severity_propertyProblems property

theorem PropertySpec.severity_widthProblems {spec : PropertySpec} {params : Properties}
    (found : p ∈ spec.widthProblems params) : p.severity = .warning := by
  unfold PropertySpec.widthProblems at found
  split at found
  · obtain rfl := eq_of_mem_unless found
    rfl
  · contradiction

theorem severity_gridProblems {params : Properties} (found : p ∈ gridProblems params) :
    p.severity = .warning := by
  unfold gridProblems at found
  split at found
  · obtain rfl := List.mem_singleton.mp found
    rfl
  · obtain rfl := eq_of_mem_unless found
    rfl

/-- What can be wrong with a split. -/
theorem mem_splitProblems {params : Properties} {count : Nat}
    (found : p ∈ splitProblems params count) :
    p = .splitSidebar ∨ p = .splitBothSides ∨ p = .splitNoSide ∨ p = .splitChildren count := by
  simp only [splitProblems, List.mem_append] at found
  rcases found with (sidebar | sides) | children
  · exact .inl (eq_of_mem_when sidebar)
  · split at sides
    · exact .inr (.inl (List.mem_singleton.mp sides))
    · exact .inr (.inr (.inl (List.mem_singleton.mp sides)))
    · contradiction
  · exact .inr (.inr (.inr (eq_of_mem_unless children)))

/-- Whatever is wrong with a split is an error. -/
theorem severity_splitProblems {params : Properties} {count : Nat}
    (found : p ∈ splitProblems params count) : p.severity = .error := by
  rcases mem_splitProblems found with rfl | rfl | rfl | rfl <;> rfl

theorem CellNode.severity_problems {k : CellNode} (found : p ∈ k.problems) :
    p.severity = .warning :=
  severity_propertyProblems found

end Warnings

/-! ### Errors of a node -/

section Node

variable {scope : Scope} {p : Problem}

/-- The one error of a component is to be a slot out of place. -/
theorem Component.mem_problems_iff_of_error (c : Component) (error : p.severity = .error) :
    p ∈ c.problems scope ↔
      p = .straySlot ∧ c.kind = Registry.childrenSlot ∧ scope.slotAllowed = false := by
  unfold Component.problems
  by_cases slot : c.kind = Registry.childrenSlot
  · cases allowed : scope.slotAllowed <;> simp [slot]
  · rw [if_neg slot]
    refine iff_of_false ?_ fun stray => slot stray.2.1
    intro found
    have warning : p.severity = .warning := by
      split at found
      · contradiction
      · split at found
        · rw [List.mem_singleton.mp found]
          rfl
        · exact TypeSpec.severity_componentProblems found
    rw [error] at warning
    contradiction

/-- The errors of a layout of a built-in type are those of a split. -/
theorem TypeSpec.mem_layoutProblems_iff_of_error {spec : TypeSpec} {params : Properties}
    {count : Nat} (error : p.severity = .error) :
    p ∈ spec.layoutProblems params count ↔
      spec.name = "split" ∧ p ∈ splitProblems params count := by
  have noWarning : ¬ p.severity = .warning := by
    rw [error]
    decide
  unfold TypeSpec.layoutProblems
  simp only [List.mem_append]
  constructor
  · rintro (((values | widths) | empty) | special)
    · exact absurd (severity_propertyProblems values) noWarning
    · obtain ⟨width, -, here⟩ := List.mem_flatMap.mp widths
      exact absurd (PropertySpec.severity_widthProblems here) noWarning
    · obtain rfl := eq_of_mem_when empty
      contradiction
    · split at special
      · exact absurd (severity_gridProblems special) noWarning
      case h_2 name => exact ⟨name, special⟩
      · contradiction
  · rintro ⟨name, found⟩
    right
    rw [name]
    exact found

/-- The only built-in type of layout by the name of a split is the split. -/
theorem Registry.layout?_split :
    ∃ spec, Registry.layout? "split" = some spec ∧ spec.name = "split" :=
  ⟨_, rfl, rfl⟩

theorem Registry.name_of_layout? {name : String} {spec : TypeSpec}
    (found : Registry.layout? name = some spec) : spec.name = name := by
  have same := List.find?_some found
  simpa using same

/-- A layout of a defined type is in error by its number of children, any other one as a split. -/
theorem LayoutNode.mem_problems_iff_of_error (l : LayoutNode) {count : Nat}
    (error : p.severity = .error) :
    p ∈ l.problems scope count ↔
      (l.kind ∈ scope.layouts ∧ count ≠ 1 ∧ p = .definedLayoutChildren l.kind count) ∨
        (l.kind ∉ scope.layouts ∧ l.kind = "split" ∧ p ∈ splitProblems l.params count) := by
  unfold LayoutNode.problems
  by_cases defined : l.kind ∈ scope.layouts
  · by_cases one : count = 1 <;> simp [defined, one]
  · rw [if_neg defined]
    simp only [defined, false_and, not_false_eq_true, true_and, false_or]
    cases found : Registry.layout? l.kind with
    | none =>
      -- An unknown type is no more than a warning, and the split is not unknown.
      have other : l.kind ≠ "split" := by
        intro split
        obtain ⟨spec, known, -⟩ := Registry.layout?_split
        rw [split, known] at found
        contradiction
      refine iff_of_false ?_ fun split => other split.1
      intro unknown
      rw [List.mem_singleton.mp unknown] at error
      contradiction
    | some spec =>
      rw [TypeSpec.mem_layoutProblems_iff_of_error error, Registry.name_of_layout? found]

/-- Nothing is wrong with a split that has one fixed side and two children. -/
theorem splitProblems_eq_nil_iff (params : Properties) (count : Nat) :
    splitProblems params count = [] ↔
      ("left" ∈ params.keys ↔ "right" ∉ params.keys) ∧ "sidebar" ∉ params.keys ∧ count = 2 := by
  have left : params.contains "left" = decide ("left" ∈ params.keys) := List.contains_eq_mem _ _
  have right : params.contains "right" = decide ("right" ∈ params.keys) := List.contains_eq_mem _ _
  have sidebar : params.contains "sidebar" = decide ("sidebar" ∈ params.keys) :=
    List.contains_eq_mem _ _
  unfold splitProblems
  rw [left, right, sidebar]
  by_cases hasLeft : "left" ∈ params.keys <;> by_cases hasRight : "right" ∈ params.keys <;>
    simp [hasLeft, hasRight]

end Node

/-! ### Errors of an element -/

/-- What is wrong with one node of an element, whatever is wrong inside it. -/
def Scope.problemsAt (scope : Scope) : Element → List Problem
  | .component c => c.problems scope
  | .layout l children => l.problems scope children.length
  | .cell k _ => k.problems

/-- The findings at one node of an element. -/
def Scope.findingsAt (scope : Scope) (node : Element) : List Finding :=
  (scope.problemsAt node).map (⟨·, (Node.element node).id⟩)

/-- The findings of an element are those of its nodes, one after the other. -/
theorem gather_judge (scope : Scope) (e : Element) :
    e.gather scope.judge = e.walk.flatMap scope.findingsAt :=
  Tree.gather_eq_flatMap_walk (fun _ => rfl) (fun _ _ _ => rfl) (fun _ _ _ => rfl) e

/-- A list of problems without an error. -/
def NoError (problems : List Problem) : Prop :=
  ∀ p ∈ problems, p.severity ≠ .error

@[simp]
theorem noError_nil : NoError [] :=
  fun _ found => absurd found List.not_mem_nil

@[simp]
theorem noError_append {first second : List Problem} :
    NoError (first ++ second) ↔ NoError first ∧ NoError second :=
  List.forall_mem_append

@[simp]
theorem noError_singleton {p : Problem} : NoError [p] ↔ p.severity ≠ .error :=
  List.forall_mem_singleton

@[simp]
theorem noError_flatMap {α : Type} {items : List α} {problems : α → List Problem} :
    NoError (items.flatMap problems) ↔ ∀ item ∈ items, NoError (problems item) := by
  simp only [NoError, List.mem_flatMap]
  constructor
  · exact fun clean item inside p found => clean p ⟨item, inside, found⟩
  · rintro clean p ⟨item, inside, found⟩
    exact clean item inside p found

/-- A split has one fixed side and two children. -/
structure SplitWellFormed (params : Properties) (children : List Element) : Prop where
  oneSide : "left" ∈ params.keys ↔ "right" ∉ params.keys
  noSidebar : "sidebar" ∉ params.keys
  twoChildren : children.length = 2

/-- A node without an error: slots stand where they may, defined layouts have one child, and splits
are well-formed. -/
def Scope.Accepts (scope : Scope) : Element → Prop
  | .component c => c.kind = "Children" → scope.slotAllowed = true
  | .layout l children =>
    (l.kind ∈ scope.layouts → children.length = 1) ∧
      (l.kind ∉ scope.layouts → l.kind = "split" → SplitWellFormed l.params children)
  | .cell _ _ => True

theorem Scope.noError_problemsAt_iff (scope : Scope) (node : Element) :
    NoError (scope.problemsAt node) ↔ scope.Accepts node := by
  -- A node that is not accepted has an error, which is named; one that is accepted has none of
  -- them.
  cases node with
  | component c =>
    constructor
    · intro clean slot
      by_contra forbidden
      refine clean .straySlot ((c.mem_problems_iff_of_error rfl).mpr ⟨rfl, slot, ?_⟩) rfl
      simpa using forbidden
    · intro accepted p found error
      obtain ⟨-, slot, forbidden⟩ := (c.mem_problems_iff_of_error error).mp found
      rw [accepted slot] at forbidden
      contradiction
  | layout l children =>
    constructor
    · refine fun clean => ⟨fun defined => ?_, fun undefined split => ?_⟩
      · by_contra other
        exact clean (.definedLayoutChildren l.kind children.length)
          ((l.mem_problems_iff_of_error rfl).mpr (.inl ⟨defined, other, rfl⟩)) rfl
      · have none : splitProblems l.params children.length = [] := by
          refine List.eq_nil_iff_forall_not_mem.mpr fun p found => ?_
          have error := severity_splitProblems found
          exact clean p ((l.mem_problems_iff_of_error error).mpr (.inr ⟨undefined, split, found⟩))
            error
        obtain ⟨oneSide, noSidebar, twoChildren⟩ := (splitProblems_eq_nil_iff _ _).mp none
        exact ⟨oneSide, noSidebar, twoChildren⟩
    · rintro ⟨ofDefined, ofSplit⟩ p found error
      rcases (l.mem_problems_iff_of_error error).mp found with
        ⟨defined, other, -⟩ | ⟨undefined, split, inSplit⟩
      · exact other (ofDefined defined)
      · have well := ofSplit undefined split
        rw [(splitProblems_eq_nil_iff _ _).mpr ⟨well.oneSide, well.noSidebar, well.twoChildren⟩]
          at inSplit
        contradiction
  | cell k children =>
    refine iff_of_true (fun p found => ?_) trivial
    rw [CellNode.severity_problems found]
    decide

/-- The errors at the nodes of an element. -/
theorem noError_gather_judge_iff (scope : Scope) (e : Element) :
    NoError ((e.gather scope.judge).map Finding.problem) ↔ ∀ node ∈ e.walk, scope.Accepts node := by
  have problems : (e.gather scope.judge).map Finding.problem = e.walk.flatMap scope.problemsAt := by
    rw [gather_judge, List.map_flatMap]
    refine List.flatMap_congr fun node _ => ?_
    rw [Scope.findingsAt, List.map_map]
    exact List.map_id _
  simp only [problems, noError_flatMap, Scope.noError_problemsAt_iff]

/-! ### Errors of definitions -/

/-- The name of a layout: a small letter, then letters, digits and underscores, all of them ASCII.
-/
def LayoutName (name : String) : Prop :=
  ∃ first others, name.toList = first :: others ∧ ('a' ≤ first ∧ first ≤ 'z') ∧
    ∀ c ∈ others, ('A' ≤ c ∧ c ≤ 'Z') ∨ ('a' ≤ c ∧ c ≤ 'z') ∨ ('0' ≤ c ∧ c ≤ '9') ∨ c = '_'

/-- How many slots for children there are in an element, all those inside it included. -/
def slotsIn : Element → Nat :=
  Tree.fold (fun c => if c.kind = "Children" then 1 else 0) (fun _ counts => counts.sum)
    (fun _ counts => counts.sum)

/-- The slots of a node that is none itself are those of its children. -/
theorem slotCount_eq_sum {e : Element} (other : isSlot e = false) :
    slotCount e = (e.children.map slotCount).sum := by
  have skip : ¬ isSlot e = true := by simp [other]
  rw [slotCount, Tree.walk_eq_cons, List.countP_cons_of_neg skip, List.countP_flatMap]
  rfl

theorem slotCount_eq_slotsIn (e : Element) : slotCount e = slotsIn e := by
  induction e using Tree.induction with
  | component c =>
    by_cases slot : c.kind = "Children" <;>
      simp [slotCount, slotsIn, Tree.walk, isSlot, Registry.childrenSlot, slot]
  | layout l trees ih =>
    rw [slotCount_eq_sum rfl, Tree.children, List.map_congr_left ih, slotsIn, Tree.fold_layout]
  | cell k trees ih =>
    rw [slotCount_eq_sum rfl, Tree.children, List.map_congr_left ih, slotsIn, Tree.fold_cell]

theorem isLayoutName_iff (name : String) : isLayoutName name = true ↔ LayoutName name := by
  unfold isLayoutName LayoutName
  cases name.toList with
  | nil => simp
  | cons first others =>
    simp only [Bool.and_eq_true, List.all_eq_true, Bool.or_eq_true, beq_iff_eq, isLower_iff,
      isAlphanum_iff, or_assoc]
    constructor
    · exact fun named => ⟨first, others, rfl, named⟩
    · rintro ⟨_, _, split, named⟩
      cases split
      exact named

theorem noError_slotProblems_iff (name : String) (count : Nat) :
    NoError (slotProblems name count) ↔ count = 1 := by
  match count with
  | 0 => simp [slotProblems, Problem.severity]
  | 1 => simp [slotProblems]
  | count + 2 => simp [slotProblems, Problem.severity]

/-- A definition without an error of its own: a layout is well named and takes one child. -/
def Definition.WellFormed : Definition → Prop
  | .component _ => True
  | .layout d => LayoutName d.name ∧ slotsIn d.layout.toTree = 1

theorem Definition.noError_problems_iff (d : Definition) : NoError d.problems ↔ d.WellFormed := by
  cases d with
  | component d =>
    refine iff_of_true (fun p found => ?_) trivial
    obtain rfl := eq_of_mem_unless found
    simp [Problem.severity]
  | layout d =>
    have named : NoError (if isLayoutName d.name then [] else [.invalidLayoutName d.name]) ↔
        LayoutName d.name := by
      rw [← isLayoutName_iff]
      cases isLayoutName d.name <;> simp [Problem.severity]
    rw [Definition.problems, noError_append, noError_slotProblems_iff, slotCount_eq_slotsIn]
    exact and_congr_left fun _ => named

/-- No name is defined twice or taken before, and every definition is well-formed. -/
theorem noError_definitionFindings_iff (taken : List String) (definitions : List Definition) :
    NoError ((definitionFindings taken definitions).map Finding.problem) ↔
      (definitions.map Definition.name).Nodup ∧ (∀ d ∈ definitions, d.name ∉ taken) ∧
        ∀ d ∈ definitions, d.WellFormed := by
  induction definitions generalizing taken with
  | nil => simp [definitionFindings]
  | cons d others ih =>
    -- A name is new if it was not taken before; from here on it is taken itself.
    have duplicate : NoError (if d.name ∈ taken then [.duplicateDefinition d.name] else []) ↔
        d.name ∉ taken := by
      by_cases present : d.name ∈ taken <;> simp [present, Problem.severity]
    have here : ∀ problems : List Problem,
        (problems.map fun p => (⟨p, d.id⟩ : Finding)).map Finding.problem = problems := by
      intro problems
      rw [List.map_map]
      exact List.map_id _
    rw [definitionFindings, List.map_append, here, noError_append, noError_append, duplicate,
      d.noError_problems_iff, ih, List.map_cons, List.nodup_cons, List.forall_mem_cons,
      List.forall_mem_cons]
    simp only [List.mem_cons, not_or, List.mem_map, not_exists, not_and]
    constructor
    · rintro ⟨⟨fresh, well⟩, nodup, outside, all⟩
      exact ⟨⟨fun e inside => (outside e inside).1, nodup⟩,
        ⟨fresh, fun e inside => (outside e inside).2⟩, well, all⟩
    · rintro ⟨⟨other, nodup⟩, ⟨fresh, outside⟩, well, all⟩
      exact ⟨⟨fresh, well⟩, nodup, fun e inside => ⟨other e inside, outside e inside⟩, all⟩

/-! ### Errors of a project -/

namespace Project

variable (project : Project)

/-- Some definition defines a layout by this name. -/
def DefinesLayout (name : String) : Prop :=
  ∃ d, .layout d ∈ project.definitions ∧ d.name = name

/-- A layout of a defined type has one child; any other split is well-formed. -/
structure LayoutFits (l : LayoutNode) (children : List Element) : Prop where
  defined : project.DefinesLayout l.kind → children.length = 1
  builtin : ¬ project.DefinesLayout l.kind → l.kind = "split" → SplitWellFormed l.params children

/-- A project without an error. -/
structure WellFormed : Prop where
  distinctNames : (project.definitions.map Definition.name).Nodup
  layoutNames : ∀ d, .layout d ∈ project.definitions → LayoutName d.name
  oneSlot : ∀ d, .layout d ∈ project.definitions → slotsIn d.layout.toTree = 1
  noSlotInComponents : ∀ d, .component d ∈ project.definitions → slotsIn d.body.toTree = 0
  noSlotInScreens : ∀ s ∈ project.screens, slotsIn s.layout.toTree = 0
  layouts : ∀ l children, .element (.layout l children) ∈ project.walk →
    project.LayoutFits l children
  acyclic : Acyclic project.Refers

variable {project}

theorem mem_layoutNames_iff (name : String) :
    name ∈ project.layoutNames ↔ project.DefinesLayout name := by
  unfold layoutNames DefinesLayout
  rw [List.mem_map]
  constructor
  · rintro ⟨d, inside, rfl⟩
    obtain ⟨inside, layout⟩ := List.mem_filter.mp inside
    cases d with
    | component d => contradiction
    | layout d => exact ⟨d, inside, rfl⟩
  · rintro ⟨d, inside, rfl⟩
    exact ⟨.layout d, List.mem_filter.mpr ⟨inside, rfl⟩, rfl⟩

/-- The elements of a project are those of its definitions and of its screens. -/
theorem mem_walk_iff (e : Element) :
    .element e ∈ project.walk ↔
      (∃ d ∈ project.definitions, e ∈ d.body.walk) ∨
        ∃ s ∈ project.screens, e ∈ s.layout.toTree.walk := by
  simp [walk, Definition.walk, Screen.walk]

theorem slotsIn_eq_zero_iff (e : Element) :
    slotsIn e = 0 ↔ ∀ c, .component c ∈ e.walk → c.kind ≠ "Children" := by
  -- Counted along the walk, where a slot is one of the nodes, rather than from the children.
  rw [← slotCount_eq_slotsIn, slotCount, List.countP_eq_zero]
  constructor
  · intro none c inside slot
    exact none _ inside (by simp [isSlot, Registry.childrenSlot, slot])
  · intro none node inside slot
    cases node with
    | component c => exact none c inside (by simpa [isSlot, Registry.childrenSlot] using slot)
    | layout l children => contradiction
    | cell k children => contradiction

/-- An element without an error: its slots are allowed or there are none, and its layouts fit. -/
theorem accepts_walk_iff (slotAllowed : Bool) (e : Element) :
    (∀ node ∈ e.walk, (project.scope slotAllowed).Accepts node) ↔
      (slotAllowed = false → slotsIn e = 0) ∧
        ∀ l children, .layout l children ∈ e.walk → project.LayoutFits l children := by
  have fits : ∀ l children, (project.scope slotAllowed).Accepts (.layout l children) ↔
      project.LayoutFits l children := by
    intro l children
    simp only [Scope.Accepts, scope, mem_layoutNames_iff]
    exact ⟨fun ⟨defined, builtin⟩ => ⟨defined, builtin⟩, fun h => ⟨h.defined, h.builtin⟩⟩
  constructor
  · intro all
    refine ⟨fun forbidden => ?_, fun l children inside => (fits l children).mp (all _ inside)⟩
    rw [slotsIn_eq_zero_iff]
    intro c inside slot
    have allowed : slotAllowed = true := all _ inside slot
    rw [forbidden] at allowed
    contradiction
  · rintro ⟨slots, layouts⟩ node inside
    cases node with
    | component c =>
      intro slot
      by_contra forbidden
      rw [Bool.not_eq_true] at forbidden
      exact (slotsIn_eq_zero_iff e).mp (slots forbidden) c inside slot
    | layout l children => exact (fits l children).mpr (layouts l children inside)
    | cell k children => trivial

theorem noError_elementFindings_iff :
    NoError (project.elementFindings.map Finding.problem) ↔
      (∀ d, .component d ∈ project.definitions → slotsIn d.body.toTree = 0) ∧
        (∀ s ∈ project.screens, slotsIn s.layout.toTree = 0) ∧
        ∀ l children, .element (.layout l children) ∈ project.walk →
          project.LayoutFits l children := by
  unfold elementFindings
  simp only [List.map_append, List.map_flatMap, noError_append, noError_flatMap,
    noError_gather_judge_iff, accepts_walk_iff, mem_walk_iff, forall_const]
  constructor
  · rintro ⟨definitions, screens⟩
    refine ⟨fun d inside => (definitions _ inside).1 rfl, fun s inside => (screens s inside).1, ?_⟩
    rintro l children (⟨d, inside, here⟩ | ⟨s, inside, here⟩)
    · exact (definitions d inside).2 l children here
    · exact (screens s inside).2 l children here
  · rintro ⟨components, screens, layouts⟩
    refine ⟨fun d inside => ⟨?_, fun l children here =>
        layouts l children (.inl ⟨d, inside, here⟩)⟩,
      fun s inside => ⟨screens s inside, fun l children here =>
        layouts l children (.inr ⟨s, inside, here⟩)⟩⟩
    cases d with
    | component d => exact fun _ => components d inside
    | layout d => exact fun forbidden => Bool.noConfusion forbidden

/-! ### Circular references -/

theorem acyclic_step_iff : Acyclic project.references.Step ↔ Acyclic project.Refers := by
  have same : project.references.Step = project.Refers := by
    ext a b
    exact project.step_iff_refers a b
  rw [same]

theorem noError_cycleFindings_iff :
    NoError (project.cycleFindings.map Finding.problem) ↔ Acyclic project.Refers := by
  rw [← acyclic_step_iff, ← ReferenceGraph.chains_eq_nil_iff project.references_proper]
  unfold cycleFindings
  cases project.references.chains with
  | nil => simp
  | cons chain others => simp [Problem.severity]

theorem noError_findings_iff :
    NoError (project.findings.map Finding.problem) ↔ project.WellFormed := by
  unfold findings
  rw [List.map_append, List.map_append, noError_append, noError_append,
    noError_definitionFindings_iff, noError_elementFindings_iff, noError_cycleFindings_iff]
  constructor
  · rintro ⟨⟨⟨distinct, -, definitions⟩, components, screens, layouts⟩, acyclic⟩
    exact ⟨distinct, fun d inside => (definitions _ inside).1,
      fun d inside => (definitions _ inside).2, components, screens, layouts, acyclic⟩
  · rintro ⟨distinct, names, slots, components, screens, layouts, acyclic⟩
    refine ⟨⟨⟨distinct, fun _ _ => List.not_mem_nil, fun d inside => ?_⟩, components, screens,
      layouts⟩, acyclic⟩
    cases d with
    | component d => trivial
    | layout d => exact ⟨names d inside, slots d inside⟩

end Project

/-- Validation has no error exactly for the well-formed projects, whatever the source map. -/
theorem validate_noError_iff (project : Project) (map : SourceMap) :
    (∀ d ∈ validate project map, d.isError = false) ↔ project.WellFormed := by
  rw [← Project.noError_findings_iff]
  simp [validate, NoError, Diagnostic.isError, Finding.diagnostic]

/-! ### The report on circular references -/

theorem Problem.exists_of_code_eq_definitionCycle {p : Problem} (code : p.code = .definitionCycle) :
    ∃ chains, p = .definitionCycle chains := by
  cases p with
  | definitionCycle chains => exact ⟨chains, rfl⟩
  | unknownProperty owner property allowed => cases owner <;> contradiction
  | invalidChoice owner property value choices => cases owner <;> contradiction
  | invalidBoolean owner property value reported => cases owner <;> contradiction
  | _ => contradiction

theorem Problem.message_definitionCycle (chains : List (List String)) :
    (Problem.definitionCycle chains).message =
      "circular definitions: " ++ "; ".intercalate (chains.map (" → ".intercalate ·)) :=
  rfl

/-- No rule for a node reports circular references. -/
theorem Scope.code_problemsAt {scope : Scope} {node : Element} {p : Problem}
    (found : p ∈ scope.problemsAt node) : p.code ≠ .definitionCycle := by
  intro code
  obtain ⟨chains, rfl⟩ := p.exists_of_code_eq_definitionCycle code
  cases node with
  | component c => cases ((c.mem_problems_iff_of_error rfl).mp found).1
  | layout l children =>
    rcases (l.mem_problems_iff_of_error rfl).mp found with ⟨-, -, other⟩ | ⟨-, -, split⟩
    · contradiction
    · rcases mem_splitProblems split with other | other | other | other <;> contradiction
  | cell k children => cases CellNode.severity_problems found

/-- No rule for a definition reports circular references. -/
theorem code_definitionFindings {taken : List String} {definitions : List Definition} {f : Finding}
    (found : f ∈ definitionFindings taken definitions) : f.problem.code ≠ .definitionCycle := by
  induction definitions generalizing taken with
  | nil => contradiction
  | cons d others ih =>
    rcases List.mem_append.mp found with here | later
    · obtain ⟨p, inside, rfl⟩ := List.mem_map.mp here
      rcases List.mem_append.mp inside with duplicate | own
      · obtain rfl := eq_of_mem_when duplicate
        simp [Problem.code]
      · cases d with
        | component d =>
          obtain rfl := eq_of_mem_unless own
          simp [Problem.code]
        | layout d =>
          rcases List.mem_append.mp own with named | slots
          · obtain rfl := eq_of_mem_unless named
            simp [Problem.code]
          · unfold slotProblems at slots
            split at slots
            · obtain rfl := List.mem_singleton.mp slots
              simp [Problem.code]
            · contradiction
            · obtain rfl := List.mem_singleton.mp slots
              simp [Problem.code]
    · exact ih later

theorem Project.problem_of_mem_cycleFindings {project : Project} {f : Finding}
    (found : f ∈ project.cycleFindings) :
    f.problem = .definitionCycle (project.references.chains.map (·.map Reference.name)) := by
  unfold Project.cycleFindings at found
  split at found
  · contradiction
  · obtain rfl := List.mem_singleton.mp found
    rfl

theorem Project.code_elementFindings {project : Project} {f : Finding}
    (found : f ∈ project.elementFindings) : f.problem.code ≠ .definitionCycle := by
  unfold Project.elementFindings at found
  simp only [gather_judge, List.mem_append, List.mem_flatMap] at found
  rcases found with ⟨d, -, node, -, here⟩ | ⟨s, -, node, -, here⟩
  · obtain ⟨p, inside, rfl⟩ := List.mem_map.mp here
    exact Scope.code_problemsAt inside
  · obtain ⟨p, inside, rfl⟩ := List.mem_map.mp here
    exact Scope.code_problemsAt inside

@[simp]
theorem Finding.code_diagnostic (map : SourceMap) (f : Finding) :
    (f.diagnostic map).code = f.problem.code :=
  rfl

/-- The diagnostics about circular references are those of the search for them. -/
theorem filter_definitionCycle_validate (project : Project) (map : SourceMap) :
    (validate project map).filter (·.code = .definitionCycle) =
      project.cycleFindings.map (Finding.diagnostic map) := by
  -- Of the three kinds of findings the last are all about circular references, the others never.
  have none : ∀ findings : List Finding, (∀ f ∈ findings, f.problem.code ≠ .definitionCycle) →
      findings.filter (fun f => (f.diagnostic map).code = .definitionCycle) = [] := by
    intro findings other
    refine List.filter_eq_nil_iff.mpr fun f inside => ?_
    rw [Finding.code_diagnostic, decide_eq_true_iff]
    exact other f inside
  have all : project.cycleFindings.filter
      (fun f => (f.diagnostic map).code = .definitionCycle) = project.cycleFindings := by
    refine List.filter_eq_self.mpr fun f inside => ?_
    rw [Finding.code_diagnostic, Project.problem_of_mem_cycleFindings inside]
    rfl
  rw [validate, List.filter_map, Project.findings, Function.comp_def, List.filter_append,
    List.filter_append, none _ fun f => code_definitionFindings,
    none _ fun f => Project.code_elementFindings, all]
  rfl

/-- Circular references are reported exactly if there are any, in one error. It lists closed walks
of the references, no two closed by the same step, and without those steps there is no cycle left.
-/
theorem cycle_report (project : Project) (map : SourceMap) :
    let walks := project.references.chains
    let reports := (validate project map).filter (·.code = .definitionCycle)
    (reports ≠ [] ↔ ∃ r, Relation.TransGen project.Refers r r) ∧
      reports.length ≤ 1 ∧
      (∀ d ∈ reports, d.severity = .error ∧
        d.message = "circular definitions: " ++
          "; ".intercalate (walks.map fun walk => " → ".intercalate (walk.map Reference.name))) ∧
      (∀ walk ∈ walks, ClosedWalk project.Refers walk) ∧
      (walks.map closingStep?).Nodup ∧
      Acyclic fun a b => project.Refers a b ∧ some (a, b) ∉ walks.map closingStep? := by
  intro walks reports
  have proper := project.references_proper
  have steps : ∀ a b, project.references.Step a b ↔ project.Refers a b := project.step_iff_refers
  have reported : reports = project.cycleFindings.map (Finding.diagnostic map) :=
    filter_definitionCycle_validate project map
  have invariant := (ReferenceGraph.search_invariant proper).1
  refine ⟨?_, ?_, ?_, ?_, invariant.distinct, ?_⟩
  · have none : reports = [] ↔ Acyclic project.Refers := by
      rw [← Project.acyclic_step_iff, ← ReferenceGraph.chains_eq_nil_iff proper, reported,
        List.map_eq_nil_iff, Project.cycleFindings]
      cases project.references.chains <;> simp
    rw [Ne, none, Acyclic, not_forall]
    simp only [not_not]
  · rw [reported, List.length_map, Project.cycleFindings]
    split <;> simp
  · intro d inside
    rw [reported] at inside
    obtain ⟨f, found, rfl⟩ := List.mem_map.mp inside
    rw [Finding.diagnostic, Project.problem_of_mem_cycleFindings found]
    refine ⟨rfl, ?_⟩
    rw [Problem.message_definitionCycle, List.map_map]
    rfl
  · intro walk inside
    have closed := invariant.walks walk inside
    exact ⟨closed.steps.imp fun a b => (steps a b).mp, closed.moves, closed.closed, closed.simple⟩
  · -- A cycle of the steps that are left is one of those that the search kept.
    intro a cycle
    refine ReferenceGraph.acyclic_kept proper a (Relation.TransGen.mono ?_ _ _ cycle)
    intro a b kept
    rw [ReferenceGraph.Kept, ReferenceGraph.closing_search]
    exact ⟨(steps a b).mpr kept.1, kept.2⟩

end Wireframe
