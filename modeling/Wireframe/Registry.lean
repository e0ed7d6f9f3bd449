/-!
# Built-in components and layouts

The types that a project can use without defining them, and the properties that each one accepts.

## Main definitions

* `PropertySpec` — one accepted property: what it holds, and whether it has to be written.
* `TypeSpec` — a component or layout type with its properties.
* `Registry.components`, `Registry.layouts`, `Registry.cellProperties` — the built-in types, in
  order.
* `Registry.childrenSlot` — the reserved component type that marks where a defined layout puts the
  child it is given.
-/

namespace Wireframe

/-- What a property accepts. -/
inductive PropertyKind where
  | string
  | number
  | boolean
  /-- One of a closed set of words. -/
  | oneOf (values : List String)
  /-- A positive width in pixels, with the width that stands in for an unusable value. -/
  | size (fallback : Nat)
  deriving DecidableEq, Repr

/-- One property that a type accepts. -/
structure PropertySpec where
  name : String
  kind : PropertyKind
  required : Bool
  preset : Option String
  deriving DecidableEq, Repr

/-- A required property without a preset has to be written at every use. -/
def PropertySpec.mustBeSupplied (spec : PropertySpec) : Bool :=
  spec.required && spec.preset.isNone

/-- A component or layout type. -/
structure TypeSpec where
  name : String
  description : String
  properties : List PropertySpec
  deriving DecidableEq, Repr

/-- The property of a type with a given name. -/
def TypeSpec.property? (spec : TypeSpec) (name : String) : Option PropertySpec :=
  spec.properties.find? (·.name == name)

namespace Registry

/-- Marks where a defined layout puts the child it is given. -/
def childrenSlot : String :=
  "Children"

private def optional (name : String) (kind : PropertyKind) : PropertySpec :=
  ⟨name, kind, false, none⟩

private def required (name : String) (kind : PropertyKind) : PropertySpec :=
  ⟨name, kind, true, none⟩

private def preset (name : String) (kind : PropertyKind) (value : String) : PropertySpec :=
  ⟨name, kind, false, some value⟩

private def spacings : List String :=
  ["none", "xs", "sm", "md", "lg", "xl"]

private def sizes : List String :=
  ["sm", "md", "lg"]

private def buttonVariants : List String :=
  ["default", "primary", "secondary", "ghost", "danger"]

private def tones : List String :=
  ["default", "primary", "success", "warning", "danger", "info"]

private def inputTypes : List String :=
  ["text", "email", "password", "number", "search", "tel", "url", "date"]

private def alignments : List String :=
  ["start", "center", "end"]

/-- The built-in component types. -/
def components : List TypeSpec := [
  ⟨"Heading", "Section or page title", [
    required "text" .string,
    preset "level" .number "1"]⟩,
  ⟨"Text", "Paragraph of body copy", [
    required "text" .string,
    preset "variant" (.oneOf ["default", "muted", "small", "lead"]) "default"]⟩,
  ⟨"Label", "Inline form label", [
    required "text" .string]⟩,
  ⟨"Button", "Clickable action", [
    required "text" .string,
    preset "variant" (.oneOf buttonVariants) "default",
    preset "size" (.oneOf sizes) "md",
    optional "icon" .string,
    preset "disabled" .boolean "false"]⟩,
  ⟨"IconButton", "Button showing only an icon", [
    required "icon" .string,
    preset "variant" (.oneOf buttonVariants) "default",
    preset "size" (.oneOf sizes) "md",
    preset "disabled" .boolean "false"]⟩,
  ⟨"Link", "Inline navigation link", [
    required "text" .string,
    preset "variant" (.oneOf ["default", "primary", "muted"]) "default"]⟩,
  ⟨"Input", "Single-line text field", [
    optional "label" .string,
    optional "placeholder" .string,
    preset "type" (.oneOf inputTypes) "text",
    preset "required" .boolean "false",
    preset "disabled" .boolean "false"]⟩,
  ⟨"Textarea", "Multi-line text field", [
    optional "label" .string,
    optional "placeholder" .string,
    preset "rows" .number "3",
    preset "disabled" .boolean "false"]⟩,
  ⟨"Select", "Dropdown picker", [
    optional "label" .string,
    optional "placeholder" .string,
    optional "items" .string,
    preset "disabled" .boolean "false"]⟩,
  ⟨"Checkbox", "Labelled checkbox", [
    required "label" .string,
    preset "checked" .boolean "false",
    preset "disabled" .boolean "false"]⟩,
  ⟨"Radio", "Labelled radio option", [
    required "label" .string,
    optional "group" .string,
    preset "checked" .boolean "false",
    preset "disabled" .boolean "false"]⟩,
  ⟨"Toggle", "On/off switch", [
    optional "label" .string,
    preset "enabled" .boolean "false",
    preset "disabled" .boolean "false"]⟩,
  ⟨"Image", "Image placeholder", [
    preset "placeholder" (.oneOf ["landscape", "portrait", "square", "avatar", "icon"]) "landscape",
    optional "height" .number]⟩,
  ⟨"Icon", "Standalone icon", [
    required "type" .string,
    preset "size" (.oneOf sizes) "md"]⟩,
  ⟨"Badge", "Small status pill", [
    required "text" .string,
    preset "variant" (.oneOf tones) "default"]⟩,
  ⟨"Alert", "Inline notice", [
    required "text" .string,
    optional "title" .string,
    preset "variant" (.oneOf ["info", "success", "warning", "danger"]) "info"]⟩,
  ⟨"Topbar", "Application header bar", [
    required "title" .string,
    optional "subtitle" .string,
    optional "actions" .string,
    optional "user" .string]⟩,
  ⟨"SidebarMenu", "Vertical navigation menu", [
    required "items" .string,
    preset "active" .number "0"]⟩,
  ⟨"Breadcrumbs", "Navigation trail", [
    required "items" .string]⟩,
  ⟨"Tabs", "Tab strip", [
    required "items" .string,
    preset "active" .number "0"]⟩,
  ⟨"Table", "Data table", [
    optional "title" .string,
    optional "mock" .string,
    preset "rows" .number "5",
    optional "actions" .string,
    preset "pagination" .boolean "false"]⟩,
  ⟨"List", "Simple list of items", [
    optional "title" .string,
    optional "items" .string,
    optional "mock" .string,
    preset "rows" .number "5"]⟩,
  ⟨"StatCard", "Metric summary card", [
    required "title" .string,
    required "value" .string,
    optional "caption" .string,
    optional "icon" .string]⟩,
  ⟨"Chart", "Chart placeholder", [
    preset "type" (.oneOf ["bar", "line", "pie", "area"]) "bar",
    optional "height" .number]⟩,
  ⟨"Modal", "Dialog overlay", [
    required "title" .string,
    preset "visible" .boolean "true"]⟩,
  ⟨"Code", "Monospaced code block", [
    required "code" .string]⟩,
  ⟨"Spinner", "Loading indicator", [
    preset "size" (.oneOf sizes) "md"]⟩,
  ⟨"Divider", "Horizontal rule", []⟩]

/-- The built-in layout types. -/
def layouts : List TypeSpec := [
  ⟨"stack", "Children laid out along one axis", [
    preset "direction" (.oneOf ["vertical", "horizontal"]) "vertical",
    preset "gap" (.oneOf spacings) "md",
    preset "padding" (.oneOf spacings) "none",
    preset "align" (.oneOf ["start", "center", "end", "justify"]) "start"]⟩,
  ⟨"grid", "Twelve-column grid of cells", [
    optional "columns" .number,
    preset "gap" (.oneOf spacings) "md"]⟩,
  ⟨"split", "Fixed side panel next to a flexible one", [
    optional "left" (.size 250),
    optional "right" (.size 250),
    optional "sidebar" (.size 250),
    preset "gap" (.oneOf spacings) "none",
    preset "border" .boolean "false"]⟩,
  ⟨"panel", "Padded region with a background", [
    preset "padding" (.oneOf spacings) "md",
    optional "background" .string]⟩,
  ⟨"card", "Bordered, rounded container", [
    preset "padding" (.oneOf spacings) "md",
    preset "gap" (.oneOf spacings) "md",
    preset "radius" (.oneOf ["none", "sm", "md", "lg"]) "md",
    preset "border" .boolean "true"]⟩]

/-- The properties that every cell accepts. -/
def cellProperties : List PropertySpec := [
  preset "span" .number "1",
  preset "align" (.oneOf alignments) "start"]

/-- The built-in component type with a given name. -/
def component? (name : String) : Option TypeSpec :=
  components.find? (·.name == name)

/-- The built-in layout type with a given name. -/
def layout? (name : String) : Option TypeSpec :=
  layouts.find? (·.name == name)

end Registry

end Wireframe
