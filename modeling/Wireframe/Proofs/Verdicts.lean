import Mathlib.Data.List.Forall2
import Mathlib.Data.List.Nodup
import Mathlib.Data.Set.Basic
import Wireframe.Proofs.Validation

/-!
# Verdicts on the nodes of a project

The registry says what each built-in type accepts. A verdict reads it as a specification: it says
which problems a node has by what the registry and the node hold, not by how the rules search them.
Every node has exactly one verdict, which depends on the node, on the sets of names that its project
defines, and on whether it stands in the definition of a layout. Validation reports the verdicts of
all nodes, in the order of the walk.

## Main definitions

* `Chained` — a list put together from one list for each of some items.
* `PropertyVerdict`, `PropertiesVerdict` — the verdict on one property, and on all that are written.
* `Surroundings` — what the verdict on a node depends on besides the node.
* `ComponentVerdict`, `LayoutVerdict`, `NodeVerdict` — the verdict on a node.
* `Problem.ReportedAs` — how a problem of a node is reported.
* `Project.sites` — the elements of a project, and whether each is in the definition of a layout.

## Main results

* `propertiesVerdict_iff` — the verdict on properties is what the rules find.
* `nodeVerdict_iff` — so is the verdict on a node.
* `Project.sites_eq_walk` — the elements of a project stand in the order of its walk.
* `validate_verdicts` — between definitions and cycles, validation reports the verdicts.
-/

namespace Wireframe

/-! ### Lists -/

section Lists

variable {α β : Type}

/-- A list put together from one list for each item, in the order of the items. -/
def Chained (R : α → List β → Prop) (items : List α) (result : List β) : Prop :=
  ∃ lists, List.Forall₂ R items lists ∧ result = lists.flatten

theorem forall₂_iff_eq_map {R : α → β → Prop} {f : α → β} {items : List α} {results : List β}
    (each : ∀ a ∈ items, ∀ b, R a b ↔ b = f a) :
    List.Forall₂ R items results ↔ results = items.map f := by
  induction items generalizing results with
  | nil => simp
  | cons a items ih =>
    obtain ⟨here, others⟩ := List.forall_mem_cons.mp each
    simp [List.forall₂_cons_left_iff, here, ih others]

/-- Where every item determines its list, so do all of them together. -/
theorem chained_iff {R : α → List β → Prop} {f : α → List β} {items : List α} {result : List β}
    (each : ∀ a ∈ items, ∀ bs, R a bs ↔ bs = f a) :
    Chained R items result ↔ result = items.flatMap f := by
  simp only [Chained, forall₂_iff_eq_map each, exists_eq_left, List.flatMap_def]

/-- Among items with distinct names, a search by name finds the item of that name. -/
theorem find?_eq_some_iff_of_nodup {name : α → String} {items : List α} {item : α} {sought : String}
    (distinct : (items.map name).Nodup) :
    items.find? (name · == sought) = some item ↔ item ∈ items ∧ name item = sought := by
  constructor
  · exact fun found => ⟨List.mem_of_find?_eq_some found, by simpa using List.find?_some found⟩
  · rintro ⟨inside, rfl⟩
    cases found : items.find? (name · == name item) with
    | none => exact absurd BEq.rfl (List.find?_eq_none.mp found item inside)
    | some other =>
      have same : name other = name item := by simpa using List.find?_some found
      rw [List.inj_on_of_nodup_map distinct (List.mem_of_find?_eq_some found) inside same]

/-- A selection from distinct items in their order is determined by what it selects. -/
theorem eq_filter_of_sublist [DecidableEq α] {selected items : List α}
    (selection : selected.Sublist items) (distinct : items.Nodup) :
    selected = items.filter (· ∈ selected) := by
  induction selection with
  | slnil => rfl
  | cons first selection ih =>
    obtain ⟨new, distinct⟩ := List.nodup_cons.mp distinct
    have skipped : first ∉ _ := fun chosen => new (selection.subset chosen)
    rw [List.filter_cons_of_neg (by simpa using skipped), ← ih distinct]
  | @cons_cons selected items first selection ih =>
    obtain ⟨new, distinct⟩ := List.nodup_cons.mp distinct
    -- The first item occurs once, so among the others it makes no difference.
    have others : items.filter (· ∈ first :: selected) = items.filter (· ∈ selected) := by
      refine List.filter_congr fun item inside => ?_
      have other : item ≠ first := by
        rintro rfl
        exact new inside
      simp [other]
    rw [List.filter_cons_of_pos (by simp), others, ← ih distinct]

end Lists

namespace OrderedMap

variable {α : Type} {m : OrderedMap α} {key : String} {value : α}

theorem get?_eq_some_iff : m.get? key = some value ↔ (key, value) ∈ m.entries := by
  rw [get?, Option.map_eq_some_iff]
  constructor
  · rintro ⟨entry, found, rfl⟩
    obtain ⟨inside, rfl⟩ := (find?_eq_some_iff_of_nodup m.nodup).mp found
    exact inside
  · exact fun inside => ⟨_, (find?_eq_some_iff_of_nodup m.nodup).mpr ⟨inside, rfl⟩, rfl⟩

theorem get?_eq_none_iff : m.get? key = none ↔ key ∉ m.keys := by
  simp only [get?, keys, Option.map_eq_none_iff, List.find?_eq_none, beq_iff_eq, List.mem_map,
    not_exists, not_and]

theorem contains_iff : m.contains key = true ↔ key ∈ m.keys :=
  List.contains_iff_mem

end OrderedMap

/-! ### Properties -/

/-- The values that suit a kind: a word from the list, or a truth value, which may be written as a
number. Where the kind is another one, no value is refused for it. -/
def PropertyKind.Admits : PropertyKind → PropertyValue → Prop
  | .oneOf choices, value => ∃ choice ∈ choices, value = .text choice
  | .boolean, value =>
    value = .text "true" ∨ value = .text "false" ∨ ∃ x, value = .number x ∧ (x == 0.0 ∨ x == 1.0)
  | .string, _ | .number, _ | .size _, _ => True

/-- The verdict on one property whose owner accepts `specs`. An owner without a code for truth
values, which is the case of a cell, reports none of them. -/
inductive PropertyVerdict (owner : Owner) (specs : List PropertySpec) (name : String)
    (value : PropertyValue) : List Problem → Prop
  | unknown (unlisted : ∀ spec ∈ specs, spec.name ≠ name) :
    PropertyVerdict owner specs name value [.unknownProperty owner name (specs.map (·.name))]
  | invalidChoice {spec : PropertySpec} {choices : List String} (listed : spec ∈ specs)
    (named : spec.name = name) (kind : spec.kind = .oneOf choices)
    (refused : ¬ spec.kind.Admits value) :
    PropertyVerdict owner specs name value [.invalidChoice owner name value choices]
  | invalidBoolean {spec : PropertySpec} (listed : spec ∈ specs) (named : spec.name = name)
    (kind : spec.kind = .boolean) (refused : ¬ spec.kind.Admits value)
    (reported : owner.booleanCode.isSome) :
    PropertyVerdict owner specs name value [.invalidBoolean owner name value reported]
  | unreported {spec : PropertySpec} (listed : spec ∈ specs) (named : spec.name = name)
    (kind : spec.kind = .boolean) (silent : owner.booleanCode = none) :
    PropertyVerdict owner specs name value []
  | fine {spec : PropertySpec} (listed : spec ∈ specs) (named : spec.name = name)
    (admitted : spec.kind.Admits value) : PropertyVerdict owner specs name value []

/-- The verdict on properties: on one after the other, as they are written. -/
def PropertiesVerdict (owner : Owner) (specs : List PropertySpec) (properties : Properties) :
    List Problem → Prop :=
  Chained (fun property => PropertyVerdict owner specs property.1 property.2) properties.entries

section Properties

variable {owner : Owner} {specs : List PropertySpec} {spec : PropertySpec} {name : String}
  {value : PropertyValue} {ps : List Problem}

theorem PropertyValue.isBoolean_iff :
    value.isBoolean = true ↔ PropertyKind.boolean.Admits value := by
  cases value <;> simp [isBoolean, PropertyKind.Admits]

theorem PropertyValue.isChoice_iff {choices : List String} :
    value.text?.any choices.contains = true ↔ (PropertyKind.oneOf choices).Admits value := by
  cases value <;> simp [text?, PropertyKind.Admits]

namespace PropertySpec

/-- Nothing is wrong with the values of the kind. -/
theorem problems_eq_nil_of_admits (admitted : spec.kind.Admits value) :
    spec.problems owner value = [] := by
  unfold problems
  split
  case h_1 choices kind =>
    rw [kind, ← PropertyValue.isChoice_iff] at admitted
    exact if_pos admitted
  case h_2 kind =>
    rw [kind, ← PropertyValue.isBoolean_iff] at admitted
    exact if_pos admitted
  all_goals rfl

theorem problems_of_kind_eq_oneOf {choices : List String} (kind : spec.kind = .oneOf choices)
    (refused : ¬ spec.kind.Admits value) :
    spec.problems owner value = [.invalidChoice owner spec.name value choices] := by
  rw [kind, ← PropertyValue.isChoice_iff] at refused
  simp [problems, kind, refused]

theorem problems_of_kind_eq_boolean (kind : spec.kind = .boolean)
    (refused : ¬ spec.kind.Admits value) (reported : owner.booleanCode.isSome) :
    spec.problems owner value = [.invalidBoolean owner spec.name value reported] := by
  rw [kind, ← PropertyValue.isBoolean_iff] at refused
  simp only [problems, kind]
  rw [if_neg refused, dif_pos reported]

theorem problems_eq_nil_of_booleanCode_eq_none (kind : spec.kind = .boolean)
    (silent : owner.booleanCode = none) : spec.problems owner value = [] := by
  simp [problems, kind, silent]

end PropertySpec

/-- The verdict on a property that is accepted is what the rules find wrong with its value. -/
theorem propertyVerdict_iff_of_mem (distinct : (specs.map (·.name)).Nodup) (listed : spec ∈ specs) :
    PropertyVerdict owner specs spec.name value ps ↔ ps = spec.problems owner value := by
  -- Names are distinct, so a verdict on a property of this name speaks of no other one.
  have only : ∀ other ∈ specs, other.name = spec.name → spec = other := fun other inside same =>
    List.inj_on_of_nodup_map distinct listed inside same.symm
  constructor
  · intro verdict
    cases verdict with
    | unknown unlisted => exact absurd rfl (unlisted spec listed)
    | invalidChoice inside same kind refused =>
      obtain rfl := only _ inside same
      exact (PropertySpec.problems_of_kind_eq_oneOf kind refused).symm
    | invalidBoolean inside same kind refused reported =>
      obtain rfl := only _ inside same
      exact (PropertySpec.problems_of_kind_eq_boolean kind refused reported).symm
    | unreported inside same kind silent =>
      obtain rfl := only _ inside same
      exact (PropertySpec.problems_eq_nil_of_booleanCode_eq_none kind silent).symm
    | fine inside same admitted =>
      obtain rfl := only _ inside same
      exact (PropertySpec.problems_eq_nil_of_admits admitted).symm
  · rintro rfl
    by_cases admitted : spec.kind.Admits value
    · rw [PropertySpec.problems_eq_nil_of_admits admitted]
      exact .fine listed rfl admitted
    · cases kind : spec.kind with
      | oneOf choices =>
        rw [PropertySpec.problems_of_kind_eq_oneOf kind admitted]
        exact .invalidChoice listed rfl kind admitted
      | boolean =>
        by_cases reported : owner.booleanCode.isSome
        · rw [PropertySpec.problems_of_kind_eq_boolean kind admitted reported]
          exact .invalidBoolean listed rfl kind admitted reported
        · have silent : owner.booleanCode = none := Option.not_isSome_iff_eq_none.mp reported
          rw [PropertySpec.problems_eq_nil_of_booleanCode_eq_none kind silent]
          exact .unreported listed rfl kind silent
      | _ => exact absurd (by rw [kind]; trivial) admitted

/-- The verdict on a property is what the rules find. -/
theorem propertyVerdict_iff (distinct : (specs.map (·.name)).Nodup) :
    PropertyVerdict owner specs name value ps ↔ ps = propertyProblem owner specs name value := by
  unfold propertyProblem
  split
  case h_1 none =>
    have unlisted : ∀ spec ∈ specs, spec.name ≠ name := by simpa using none
    constructor
    · rintro (_ | ⟨listed, named, _⟩ | ⟨listed, named, _⟩ | ⟨listed, named, _⟩ |
        ⟨listed, named, _⟩)
      · rfl
      all_goals exact absurd named (unlisted _ listed)
    · rintro rfl
      exact .unknown unlisted
  case h_2 spec found =>
    obtain ⟨listed, rfl⟩ := (find?_eq_some_iff_of_nodup distinct).mp found
    exact propertyVerdict_iff_of_mem distinct listed

theorem propertiesVerdict_iff {properties : Properties} (distinct : (specs.map (·.name)).Nodup) :
    PropertiesVerdict owner specs properties ps ↔ ps = propertyProblems owner specs properties :=
  chained_iff fun _ _ _ => propertyVerdict_iff distinct

end Properties

/-! ### What the registry holds -/

namespace Registry

theorem nodup_components : (components.map (·.name)).Nodup := by
  decide

theorem nodup_layouts : (layouts.map (·.name)).Nodup := by
  decide

/-- No type accepts two properties of one name. -/
theorem nodup_properties :
    ∀ spec ∈ components ++ layouts, (spec.properties.map (·.name)).Nodup := by
  decide

theorem nodup_cellProperties : (cellProperties.map (·.name)).Nodup := by
  decide

variable {name : String} {spec : TypeSpec}

theorem component?_eq_some_iff :
    component? name = some spec ↔ spec ∈ components ∧ spec.name = name :=
  find?_eq_some_iff_of_nodup nodup_components

theorem layout?_eq_some_iff : layout? name = some spec ↔ spec ∈ layouts ∧ spec.name = name :=
  find?_eq_some_iff_of_nodup nodup_layouts

theorem component?_eq_none_iff :
    component? name = none ↔ ∀ spec ∈ components, spec.name ≠ name := by
  simp [component?]

theorem layout?_eq_none_iff : layout? name = none ↔ ∀ spec ∈ layouts, spec.name ≠ name := by
  simp [layout?]

end Registry

/-! ### Components -/

/-- What the verdict on a node depends on besides the node. -/
structure Surroundings where
  /-- The names of the components that the project defines. -/
  components : Set String
  /-- The names of the layouts that the project defines. -/
  layouts : Set String
  /-- Whether the node stands in the definition of a layout. -/
  inLayoutDefinition : Bool

/-- The names of the properties that a use of the type lacks, in the order of the registry: those
that are required, have no preset and are not written. -/
structure TypeSpec.Lacking (spec : TypeSpec) (properties : Properties) (names : List String) :
    Prop where
  inOrder : names.Sublist (spec.properties.map (·.name))
  precisely : ∀ p ∈ spec.properties,
    p.name ∈ names ↔ p.required = true ∧ p.preset = none ∧ p.name ∉ properties.keys

/-- The verdict on a component. The slot for children is judged by its place only, and a component
that the project defines not at all. -/
inductive ComponentVerdict (around : Surroundings) (c : Component) : List Problem → Prop
  | slot (slot : c.kind = "Children") (allowed : around.inLayoutDefinition = true) :
    ComponentVerdict around c []
  | straySlot (slot : c.kind = "Children") (forbidden : around.inLayoutDefinition = false) :
    ComponentVerdict around c [.straySlot]
  | defined (other : c.kind ≠ "Children") (defined : c.kind ∈ around.components) :
    ComponentVerdict around c []
  | unknown (other : c.kind ≠ "Children") (undefined : c.kind ∉ around.components)
    (unlisted : ∀ spec ∈ Registry.components, spec.name ≠ c.kind) :
    ComponentVerdict around c [.unknownComponent c.kind]
  | builtIn {spec : TypeSpec} {names : List String} {values : List Problem}
    (other : c.kind ≠ "Children") (undefined : c.kind ∉ around.components)
    (listed : spec ∈ Registry.components) (named : spec.name = c.kind)
    (lacking : spec.Lacking c.properties names)
    (judged : PropertiesVerdict (.component c.kind) spec.properties c.properties values) :
    ComponentVerdict around c
      ((if names = [] then [] else [.missingProperties c.kind names]) ++ values)

/-- The surroundings that the rules know of. -/
def Scope.surroundings (scope : Scope) : Surroundings where
  components := {name | name ∈ scope.components}
  layouts := {name | name ∈ scope.layouts}
  inLayoutDefinition := scope.slotAllowed

@[simp]
theorem Scope.mem_surroundings_components (scope : Scope) (name : String) :
    name ∈ scope.surroundings.components ↔ name ∈ scope.components :=
  Iff.rfl

@[simp]
theorem Scope.inLayoutDefinition_surroundings (scope : Scope) :
    scope.surroundings.inLayoutDefinition = scope.slotAllowed :=
  rfl

@[simp]
theorem Scope.mem_surroundings_layouts (scope : Scope) (name : String) :
    name ∈ scope.surroundings.layouts ↔ name ∈ scope.layouts :=
  Iff.rfl

section Components

variable {scope : Scope} {spec : TypeSpec} {properties : Properties} {names : List String}
  {ps : List Problem}

theorem TypeSpec.lacking_iff (distinct : (spec.properties.map (·.name)).Nodup) :
    spec.Lacking properties names ↔ names = spec.missing properties := by
  -- The condition of the rules, spelled out.
  have lacks : ∀ p : PropertySpec, (p.mustBeSupplied && !properties.contains p.name) = true ↔
      p.required = true ∧ p.preset = none ∧ p.name ∉ properties.keys := by
    intro p
    simp [PropertySpec.mustBeSupplied, ← OrderedMap.contains_iff, and_assoc]
  constructor
  · intro lacking
    rw [eq_filter_of_sublist lacking.inOrder distinct, List.filter_map, missing]
    refine congrArg _ (List.filter_congr fun p inside => ?_)
    rw [Bool.eq_iff_iff, lacks, ← lacking.precisely p inside]
    exact decide_eq_true_iff
  · rintro rfl
    refine ⟨List.filter_sublist.map _, fun p inside => ?_⟩
    rw [missing, ← lacks, List.mem_map]
    constructor
    · rintro ⟨other, selected, same⟩
      obtain ⟨listed, lacked⟩ := List.mem_filter.mp selected
      rwa [← List.inj_on_of_nodup_map distinct listed inside same]
    · exact fun lacked => ⟨p, List.mem_filter.mpr ⟨inside, lacked⟩, rfl⟩

theorem TypeSpec.componentProblems_eq_append (spec : TypeSpec) (properties : Properties) :
    spec.componentProblems properties =
      (if spec.missing properties = [] then []
        else [.missingProperties spec.name (spec.missing properties)]) ++
        propertyProblems (.component spec.name) spec.properties properties := by
  simp [componentProblems]

/-- The verdict on a component is what the rules find. -/
theorem componentVerdict_iff (c : Component) :
    ComponentVerdict scope.surroundings c ps ↔ ps = c.problems scope := by
  have slotName : Registry.childrenSlot = "Children" := rfl
  have distinct : ∀ spec ∈ Registry.components, (spec.properties.map (·.name)).Nodup :=
    fun spec listed => Registry.nodup_properties spec (List.mem_append_left _ listed)
  rw [Component.problems, slotName]
  -- The verdicts come in the order in which the rules tell the cases apart.
  constructor
  · rintro (⟨slot, allowed⟩ | ⟨slot, forbidden⟩ | ⟨other, defined⟩ |
      ⟨other, undefined, unlisted⟩ | ⟨other, undefined, listed, named, lacking, judged⟩)
    · rw [scope.inLayoutDefinition_surroundings] at allowed
      rw [if_pos slot, if_pos allowed]
    · rw [scope.inLayoutDefinition_surroundings, Bool.eq_false_iff] at forbidden
      rw [if_pos slot, if_neg forbidden]
    · rw [scope.mem_surroundings_components] at defined
      rw [if_neg other, if_pos defined]
    · rw [scope.mem_surroundings_components] at undefined
      rw [if_neg other, if_neg undefined, Registry.component?_eq_none_iff.mpr unlisted]
    · rw [scope.mem_surroundings_components] at undefined
      obtain rfl := (TypeSpec.lacking_iff (distinct _ listed)).mp lacking
      obtain rfl := (propertiesVerdict_iff (distinct _ listed)).mp judged
      rw [if_neg other, if_neg undefined, Registry.component?_eq_some_iff.mpr ⟨listed, named⟩]
      simp only [TypeSpec.componentProblems_eq_append, named]
  · rintro rfl
    split_ifs with slot allowed defined
    · exact .slot slot allowed
    · exact .straySlot slot (Bool.eq_false_iff.mpr allowed)
    · exact .defined slot defined
    · cases found : Registry.component? c.kind with
      | none => exact .unknown slot defined (Registry.component?_eq_none_iff.mp found)
      | some spec =>
        obtain ⟨listed, named⟩ := Registry.component?_eq_some_iff.mp found
        simp only [TypeSpec.componentProblems_eq_append, named]
        exact .builtIn slot defined listed named
          ((TypeSpec.lacking_iff (distinct _ listed)).mpr rfl)
          ((propertiesVerdict_iff (distinct _ listed)).mpr rfl)

/-- What is missing stands before what is wrong with what is written. -/
example :
    (Component.mk "Button" (.ofList [("size", .text "xl"), ("colour", .text "red")]) none).problems
        ⟨[], [], false⟩ =
      [.missingProperties "Button" ["text"],
        .invalidChoice (.component "Button") "size" (.text "xl") ["sm", "md", "lg"],
        .unknownProperty (.component "Button") "colour"
          ["text", "variant", "size", "icon", "disabled"]] :=
  rfl

end Components

/-! ### Layouts -/

/-- The verdict on a parameter as a width: if it is one and written, it has to be a number greater
than zero. -/
inductive WidthVerdict (params : Properties) (spec : PropertySpec) : List Problem → Prop
  | invalid {fallback : Nat} {value : PropertyValue} (size : spec.kind = .size fallback)
    (written : (spec.name, value) ∈ params.entries)
    (refused : ¬ ∃ x, value = .number x ∧ 0.0 < x) :
    WidthVerdict params spec [.invalidSize spec.name value fallback]
  | fine (admitted : ∀ fallback value, spec.kind = .size fallback →
      (spec.name, value) ∈ params.entries → ∃ x, value = .number x ∧ 0.0 < x) :
    WidthVerdict params spec []

/-- A whole number from 1 to 12. -/
def PropertyValue.CountsColumns (value : PropertyValue) : Prop :=
  ∃ x n, value = .number x ∧ 1 ≤ n ∧ n ≤ 12 ∧ x == Float.ofNat n

/-- The verdict on the columns of a grid. -/
inductive ColumnsVerdict (params : Properties) : List Problem → Prop
  | missing (unwritten : "columns" ∉ params.keys) : ColumnsVerdict params [.missingColumns]
  | outOfRange {value : PropertyValue} (written : ("columns", value) ∈ params.entries)
    (refused : ¬ value.CountsColumns) : ColumnsVerdict params [.columnsOutOfRange value]
  | fine {value : PropertyValue} (written : ("columns", value) ∈ params.entries)
    (admitted : value.CountsColumns) : ColumnsVerdict params []

/-- The verdict on the sides of a split, of which exactly one has to be fixed. -/
inductive SidesVerdict (params : Properties) : List Problem → Prop
  | both (left : "left" ∈ params.keys) (right : "right" ∈ params.keys) :
    SidesVerdict params [.splitBothSides]
  | neither (left : "left" ∉ params.keys) (right : "right" ∉ params.keys) :
    SidesVerdict params [.splitNoSide]
  | fine (one : "left" ∈ params.keys ↔ "right" ∉ params.keys) : SidesVerdict params []

/-- The verdict on what only one type of layout has to observe. -/
inductive ShapeVerdict (kind : String) (params : Properties) (count : Nat) : List Problem → Prop
  | grid {columns : List Problem} (grid : kind = "grid") (judged : ColumnsVerdict params columns) :
    ShapeVerdict kind params count columns
  | split {sides : List Problem} (split : kind = "split") (judged : SidesVerdict params sides) :
    ShapeVerdict kind params count
      ((if "sidebar" ∈ params.keys then [.splitSidebar] else []) ++ sides ++
        (if count = 2 then [] else [.splitChildren count]))
  | other (notGrid : kind ≠ "grid") (notSplit : kind ≠ "split") : ShapeVerdict kind params count []

/-- The verdict on a layout with `count` children. The registry has no say about one that the
project defines, even by the name of a built-in type. -/
inductive LayoutVerdict (around : Surroundings) (l : LayoutNode) (count : Nat) : List Problem → Prop
  | filled (defined : l.kind ∈ around.layouts) (one : count = 1) : LayoutVerdict around l count []
  | notFilled (defined : l.kind ∈ around.layouts) (other : count ≠ 1) :
    LayoutVerdict around l count [.definedLayoutChildren l.kind count]
  | unknown (undefined : l.kind ∉ around.layouts)
    (unlisted : ∀ spec ∈ Registry.layouts, spec.name ≠ l.kind) :
    LayoutVerdict around l count [.unknownLayout l.kind]
  | builtIn {spec : TypeSpec} {values widths shape : List Problem}
    (undefined : l.kind ∉ around.layouts) (listed : spec ∈ Registry.layouts)
    (named : spec.name = l.kind)
    (judged : PropertiesVerdict (.layout l.kind) spec.properties l.params values)
    (measured : Chained (WidthVerdict l.params) spec.properties widths)
    (shaped : ShapeVerdict l.kind l.params count shape) :
    LayoutVerdict around l count
      (values ++ widths ++ (if count = 0 then [.emptyLayout l.kind] else []) ++ shape)

section Layouts

variable {scope : Scope} {params : Properties} {kind : String} {count : Nat} {ps : List Problem}

theorem PropertyValue.isWidth_iff {value : PropertyValue} :
    value.isWidth = true ↔ ∃ x, value = .number x ∧ 0.0 < x := by
  cases value <;> simp [isWidth, number?]

theorem PropertyValue.isColumnCount_iff {value : PropertyValue} :
    value.isColumnCount = true ↔ value.CountsColumns := by
  cases value with
  | text text => simp [isColumnCount, number?, CountsColumns]
  | number x =>
    simp only [isColumnCount, number?, CountsColumns, Option.any_some, List.any_eq_true,
      List.mem_range]
    constructor
    · rintro ⟨k, below, equal⟩
      exact ⟨x, k + 1, rfl, by omega, by omega, equal⟩
    · rintro ⟨_, n, ⟨⟩, least, most, equal⟩
      obtain ⟨k, rfl⟩ := Nat.exists_eq_add_of_le' least
      exact ⟨k, by omega, equal⟩

theorem widthVerdict_iff (spec : PropertySpec) :
    WidthVerdict params spec ps ↔ ps = spec.widthProblems params := by
  unfold PropertySpec.widthProblems
  constructor
  · rintro (⟨size, written, refused⟩ | admitted)
    · rw [← PropertyValue.isWidth_iff] at refused
      simp [size, OrderedMap.get?_eq_some_iff.mpr written, refused]
    · split
      case h_1 fallback value size written =>
        have width := admitted fallback value size (OrderedMap.get?_eq_some_iff.mp written)
        rw [if_pos (PropertyValue.isWidth_iff.mpr width)]
      case h_2 => rfl
  · rintro rfl
    split
    case h_1 fallback value size found =>
      have written := OrderedMap.get?_eq_some_iff.mp found
      split_ifs with width
      · -- A parameter is written once, so its only value is the one that was found.
        refine .fine fun _ other _ again => ?_
        have same : some value = some other := by
          rw [← found, OrderedMap.get?_eq_some_iff.mpr again]
        rw [← Option.some.inj same]
        exact PropertyValue.isWidth_iff.mp width
      · rw [PropertyValue.isWidth_iff] at width
        exact .invalid size written width
    case h_2 none =>
      exact .fine fun fallback value size written =>
        absurd (OrderedMap.get?_eq_some_iff.mpr written) (none fallback value size)

theorem columnsVerdict_iff : ColumnsVerdict params ps ↔ ps = gridProblems params := by
  unfold gridProblems
  constructor
  · rintro (unwritten | ⟨written, refused⟩ | ⟨written, admitted⟩)
    · rw [OrderedMap.get?_eq_none_iff.mpr unwritten]
    · rw [← PropertyValue.isColumnCount_iff] at refused
      simp [OrderedMap.get?_eq_some_iff.mpr written, refused]
    · rw [← PropertyValue.isColumnCount_iff] at admitted
      simp [OrderedMap.get?_eq_some_iff.mpr written, admitted]
  · rintro rfl
    split
    case h_1 found => exact .missing (OrderedMap.get?_eq_none_iff.mp found)
    case h_2 value found =>
      have written := OrderedMap.get?_eq_some_iff.mp found
      split_ifs with count
      · exact .fine written (PropertyValue.isColumnCount_iff.mp count)
      · rw [PropertyValue.isColumnCount_iff] at count
        exact .outOfRange written count

theorem sidesVerdict_iff : SidesVerdict params ps ↔
    ps = if "left" ∈ params.keys then if "right" ∈ params.keys then [.splitBothSides] else []
      else if "right" ∈ params.keys then [] else [.splitNoSide] := by
  constructor
  · rintro (⟨left, right⟩ | ⟨left, right⟩ | one)
    · rw [if_pos left, if_pos right]
    · rw [if_neg left, if_neg right]
    · by_cases left : "left" ∈ params.keys
      · rw [if_pos left, if_neg (one.mp left)]
      · rw [if_neg left, if_pos (not_not.mp (mt one.mpr left))]
  · rintro rfl
    split_ifs with left right right
    · exact .both left right
    · exact .fine (iff_of_true left right)
    · exact .fine (iff_of_false left (not_not.mpr right))
    · exact .neither left right

theorem splitProblems_eq_append (params : Properties) (count : Nat) :
    splitProblems params count =
      (if "sidebar" ∈ params.keys then [.splitSidebar] else []) ++
        (if "left" ∈ params.keys then if "right" ∈ params.keys then [.splitBothSides] else []
          else if "right" ∈ params.keys then [] else [.splitNoSide]) ++
        (if count = 2 then [] else [.splitChildren count]) := by
  have contains : ∀ key, params.contains key = decide (key ∈ params.keys) :=
    fun _ => List.contains_eq_mem _ _
  unfold splitProblems
  rw [contains, contains, contains]
  by_cases left : "left" ∈ params.keys <;> by_cases right : "right" ∈ params.keys <;>
    simp [left, right]

theorem shapeVerdict_iff : ShapeVerdict kind params count ps ↔
    ps = if kind = "grid" then gridProblems params
      else if kind = "split" then splitProblems params count else [] := by
  constructor
  · rintro (⟨rfl, judged⟩ | ⟨rfl, judged⟩ | ⟨notGrid, notSplit⟩)
    · rw [if_pos rfl, columnsVerdict_iff.mp judged]
    · have notGrid : "split" ≠ "grid" := by decide
      rw [if_neg notGrid, if_pos rfl, splitProblems_eq_append, sidesVerdict_iff.mp judged]
    · rw [if_neg notGrid, if_neg notSplit]
  · rintro rfl
    split_ifs with grid split
    · exact .grid grid (columnsVerdict_iff.mpr rfl)
    · rw [splitProblems_eq_append]
      exact .split split (sidesVerdict_iff.mpr rfl)
    · exact .other grid split

theorem TypeSpec.layoutProblems_eq_append (spec : TypeSpec) (params : Properties) (count : Nat) :
    spec.layoutProblems params count =
      propertyProblems (.layout spec.name) spec.properties params ++
        spec.properties.flatMap (·.widthProblems params) ++
        (if count = 0 then [.emptyLayout spec.name] else []) ++
        (if spec.name = "grid" then gridProblems params
          else if spec.name = "split" then splitProblems params count else []) := by
  unfold layoutProblems
  refine congrArg₂ HAppend.hAppend rfl ?_
  split
  case h_1 name => rw [name, if_pos rfl]
  case h_2 name => rw [name, if_neg (by decide), if_pos rfl]
  case h_3 notGrid notSplit => rw [if_neg notGrid, if_neg notSplit]

/-- The verdict on a layout is what the rules find. -/
theorem layoutVerdict_iff (l : LayoutNode) :
    LayoutVerdict scope.surroundings l count ps ↔ ps = l.problems scope count := by
  have distinct : ∀ spec ∈ Registry.layouts, (spec.properties.map (·.name)).Nodup :=
    fun spec listed => Registry.nodup_properties spec (List.mem_append_right _ listed)
  have measured : ∀ {specs : List PropertySpec} {widths : List Problem},
      Chained (WidthVerdict l.params) specs widths ↔
        widths = specs.flatMap (·.widthProblems l.params) :=
    chained_iff fun spec _ _ => widthVerdict_iff spec
  unfold LayoutNode.problems
  constructor
  · rintro (⟨defined, one⟩ | ⟨defined, other⟩ | ⟨undefined, unlisted⟩ |
      ⟨undefined, listed, named, judged, widths, shaped⟩)
    · rw [scope.mem_surroundings_layouts] at defined
      rw [if_pos defined, if_pos one]
    · rw [scope.mem_surroundings_layouts] at defined
      rw [if_pos defined, if_neg other]
    · rw [scope.mem_surroundings_layouts] at undefined
      rw [if_neg undefined, Registry.layout?_eq_none_iff.mpr unlisted]
    · rw [scope.mem_surroundings_layouts] at undefined
      obtain rfl := (propertiesVerdict_iff (distinct _ listed)).mp judged
      obtain rfl := measured.mp widths
      obtain rfl := shapeVerdict_iff.mp shaped
      rw [if_neg undefined, Registry.layout?_eq_some_iff.mpr ⟨listed, named⟩]
      simp only [TypeSpec.layoutProblems_eq_append, named]
  · rintro rfl
    split_ifs with defined one
    · exact .filled defined one
    · exact .notFilled defined one
    · cases found : Registry.layout? l.kind with
      | none => exact .unknown defined (Registry.layout?_eq_none_iff.mp found)
      | some spec =>
        obtain ⟨listed, named⟩ := Registry.layout?_eq_some_iff.mp found
        simp only [TypeSpec.layoutProblems_eq_append, named]
        exact .builtIn defined listed named ((propertiesVerdict_iff (distinct _ listed)).mpr rfl)
          (measured.mpr rfl) (shapeVerdict_iff.mpr rfl)

end Layouts

/-! ### Nodes -/

/-- The verdict on a node of an element, whatever the verdicts on the nodes inside it. -/
inductive NodeVerdict (around : Surroundings) : Element → List Problem → Prop
  | component {c : Component} {ps : List Problem} (judged : ComponentVerdict around c ps) :
    NodeVerdict around (.component c) ps
  | layout {l : LayoutNode} {children : List Element} {ps : List Problem}
    (judged : LayoutVerdict around l children.length ps) :
    NodeVerdict around (.layout l children) ps
  | cell {k : CellNode} {children : List Element} {ps : List Problem}
    (judged : PropertiesVerdict .cell Registry.cellProperties k.properties ps) :
    NodeVerdict around (.cell k children) ps

/-- The verdict on a node is what the rules find. -/
theorem nodeVerdict_iff {scope : Scope} {node : Element} {ps : List Problem} :
    NodeVerdict scope.surroundings node ps ↔ ps = scope.problemsAt node := by
  cases node with
  | component c =>
    rw [Scope.problemsAt, ← componentVerdict_iff]
    exact ⟨fun | .component judged => judged, .component⟩
  | layout l children =>
    rw [Scope.problemsAt, ← layoutVerdict_iff]
    exact ⟨fun | .layout judged => judged, .layout⟩
  | cell k children =>
    rw [Scope.problemsAt, CellNode.problems, ← propertiesVerdict_iff Registry.nodup_cellProperties]
    exact ⟨fun | .cell judged => judged, .cell⟩

/-! ### Reports -/

namespace Problem

/-- A problem of a node is reported with its own code, severity, wording and suggestion, and with
the id of the node. Only the range is left to the source map. -/
structure ReportedAs (p : Problem) (node : Option NodeId) (map : SourceMap) (d : Diagnostic) :
    Prop where
  code : d.code = p.code
  severity : d.severity = p.severity
  message : d.message = p.message
  suggestion : d.suggestion = some p.suggestion
  nodeId : d.nodeId = node
  range : d.range = (map.rangeOf? node p.place).getD .origin
  file : d.file = none

theorem reportedAs_iff {p : Problem} {node : Option NodeId} {map : SourceMap} {d : Diagnostic} :
    p.ReportedAs node map d ↔ d = Finding.diagnostic map ⟨p, node⟩ := by
  constructor
  · intro reported
    exact Diagnostic.ext reported.code reported.severity reported.message reported.range
      reported.nodeId reported.suggestion reported.file
  · rintro rfl
    exact { code := rfl, severity := rfl, message := rfl, suggestion := rfl, nodeId := rfl,
            range := rfl, file := rfl }

end Problem

/-! ### Projects -/

/-- The element that a part of a project is, if it is one. -/
def Node.element? : Node → Option Element
  | .element e => some e
  | .project _ | .definition _ | .screen _ => none

/-- An element of a project, and whether it stands in the definition of a layout. -/
structure Site where
  node : Element
  inLayoutDefinition : Bool

namespace Project

variable (project : Project)

/-- Some definition defines a component by this name. -/
def DefinesComponent (name : String) : Prop :=
  ∃ d, .component d ∈ project.definitions ∧ d.name = name

/-- The surroundings of the nodes of a project. -/
def surroundings (inLayoutDefinition : Bool) : Surroundings where
  components := {name | project.DefinesComponent name}
  layouts := {name | project.DefinesLayout name}
  inLayoutDefinition

/-- The sites of a project, those in its definitions first. -/
def sites : List Site :=
  project.definitions.flatMap (fun d => d.body.walk.map (⟨·, d.isLayout⟩)) ++
    project.screens.flatMap fun s => s.layout.toTree.walk.map (⟨·, false⟩)

/-- The elements of a project stand in the order of its walk. -/
theorem sites_eq_walk : project.sites.map Site.node = project.walk.filterMap Node.element? := by
  have elements : ∀ nodes : List Element,
      (nodes.map Node.element).filterMap Node.element? = nodes := by
    intro nodes
    rw [List.filterMap_map]
    exact List.filterMap_some
  simp only [sites, walk, List.map_append, List.map_flatMap, List.map_map, List.filterMap_append,
    List.filterMap_flatMap, Definition.walk, Screen.walk, List.filterMap_cons, Node.element?,
    elements]
  simp [Function.comp_def]

theorem mem_componentNames_iff (name : String) :
    name ∈ project.componentNames ↔ project.DefinesComponent name := by
  unfold componentNames DefinesComponent
  rw [List.mem_map]
  constructor
  · rintro ⟨d, inside, rfl⟩
    obtain ⟨inside, component⟩ := List.mem_filter.mp inside
    cases d with
    | component d => exact ⟨d, inside, rfl⟩
    | layout d => contradiction
  · rintro ⟨d, inside, rfl⟩
    exact ⟨.component d, List.mem_filter.mpr ⟨inside, rfl⟩, rfl⟩

/-- The rules know the surroundings of the nodes. -/
theorem surroundings_scope (inLayoutDefinition : Bool) :
    (project.scope inLayoutDefinition).surroundings = project.surroundings inLayoutDefinition := by
  simp only [Scope.surroundings, scope, surroundings, mem_componentNames_iff, mem_layoutNames_iff]

/-- What the rules find at the elements of a project. -/
theorem elementFindings_eq_flatMap_sites :
    project.elementFindings = project.sites.flatMap fun site =>
      (project.scope site.inLayoutDefinition).findingsAt site.node := by
  simp only [elementFindings, sites, gather_judge, List.flatMap_append, List.flatMap_assoc,
    List.flatMap_map]

/-- The diagnostics for the node of a site: one for each problem in the only verdict on it. The
source map has no part in the verdict. -/
def Reports (map : SourceMap) (site : Site) (diagnostics : List Diagnostic) : Prop :=
  ∃ problems,
    (∀ ps, NodeVerdict (project.surroundings site.inLayoutDefinition) site.node ps ↔
      ps = problems) ∧
    List.Forall₂ (fun p => p.ReportedAs (Node.element site.node).id map) problems diagnostics

theorem reports_findingsAt (map : SourceMap) (site : Site) :
    project.Reports map site
      (((project.scope site.inLayoutDefinition).findingsAt site.node).map
        (Finding.diagnostic map)) := by
  refine ⟨(project.scope site.inLayoutDefinition).problemsAt site.node, fun ps => ?_, ?_⟩
  · rw [← surroundings_scope]
    exact nodeVerdict_iff
  · apply (forall₂_iff_eq_map fun p _ _ => p.reportedAs_iff).mpr
    rw [Scope.findingsAt, List.map_map]
    rfl

end Project

/-- Between what it reports about definitions and about circular references, validation reports the
verdicts on the elements of the project, in the order of the walk. There is one verdict on each
element, which depends on the element, on the sets of names that are defined, and on whether the
element stands in the definition of a layout. -/
theorem validate_verdicts (project : Project) (map : SourceMap) :
    project.sites.map Site.node = project.walk.filterMap Node.element? ∧
      ∃ reported, Chained (project.Reports map) project.sites reported ∧
        validate project map =
          (definitionFindings [] project.definitions).map (Finding.diagnostic map) ++ reported ++
            project.cycleFindings.map (Finding.diagnostic map) := by
  refine ⟨project.sites_eq_walk, project.elementFindings.map (Finding.diagnostic map), ?_, ?_⟩
  · refine ⟨project.sites.map fun site => ((project.scope site.inLayoutDefinition).findingsAt
      site.node).map (Finding.diagnostic map), ?_, ?_⟩
    · rw [List.forall₂_map_right_iff, List.forall₂_same]
      exact fun site _ => project.reports_findingsAt map site
    · rw [project.elementFindings_eq_flatMap_sites, List.map_flatMap, List.flatMap_def]
  · rw [validate, Project.findings, List.map_append, List.map_append]

end Wireframe
