import Wireframe.Analysis

/-!
# Notices

A notice is what a report shows for one diagnostic or one failure: what is wrong, what to do about
it, and which part of the text to point at.

## Main definitions

* `Notice` — one item of a report.
* `Diagnostic.notice` — the notice for a diagnostic.
-/

namespace Wireframe

/-- A part of a text with a few words on it. -/
structure Label where
  text : String
  span : Span
  deriving DecidableEq, Repr

/-- One item of a report. -/
structure Notice where
  message : String
  code : Option String := none
  severity : Option Severity := none
  help : Option String := none
  /-- The part of the checked text to point at; none if the notice is not about that text. -/
  label : Option Label := none
  /-- Whether something else led to this. -/
  hasCause : Bool := false
  deriving DecidableEq, Repr

/-- The notice for a diagnostic. -/
def Diagnostic.notice (d : Diagnostic) : Notice where
  message := d.message
  code := some d.code.name
  severity := some d.severity
  help := d.suggestion
  label := some ⟨d.code.description, d.span⟩

/-- A notice in plain words, for a terminal. -/
def Notice.render (n : Notice) : String :=
  let head := match n.code with
    | some code => s!"{code}: {n.message}"
    | none => n.message
  let help := n.help.elim "" fun help => s!"\n  help: {help}"
  let place := n.label.elim "" fun label =>
    s!"\n  bytes {label.span.start} to {label.span.stop}: {label.text}"
  head ++ place ++ help

end Wireframe
