/-!
# Places in a text

A text is addressed in two ways: by byte offsets, which slice it, and by lines and columns, which
an editor shows. Lines count from one, columns count characters from zero.

## Main definitions

* `Span` — a half-open range of bytes.
* `Position` — a line and a column, with the byte offset when it is known.
* `CodeRange` — two positions, both ends included, ordered by line and column only.
-/

namespace Wireframe

/-- A range of bytes, from `start` up to but not including `stop`. -/
structure Span where
  start : Nat := 0
  stop : Nat := 0
  deriving DecidableEq, Repr, Inhabited

namespace Span

/-- The number of bytes covered. -/
def length (s : Span) : Nat :=
  s.stop - s.start

/-- Whether no byte is covered. -/
def isEmpty (s : Span) : Bool :=
  s.start == s.stop

/-- The smallest span that covers both. -/
def union (s t : Span) : Span :=
  ⟨min s.start t.start, max s.stop t.stop⟩

end Span

/-- A line and a column, with the byte offset when it is known. -/
structure Position where
  line : Nat := 0
  column : Nat := 0
  offset : Option Nat := none
  deriving DecidableEq, Repr, Inhabited

namespace Position

/-- The first position of every text. -/
def origin : Position :=
  ⟨1, 0, some 0⟩

/-- Earlier in reading order. Offsets take no part, since they may be unknown. -/
def Before (p q : Position) : Prop :=
  p.line < q.line ∨ (p.line = q.line ∧ p.column < q.column)

instance (p q : Position) : Decidable (p.Before q) :=
  inferInstanceAs (Decidable (_ ∨ _))

end Position

/-- Two positions of one text. `stop` lies just past the last character. -/
structure CodeRange where
  start : Position := {}
  stop : Position := {}
  deriving DecidableEq, Repr, Inhabited

namespace CodeRange

/-- The empty range in front of every text. -/
def origin : CodeRange :=
  ⟨.origin, .origin⟩

/-- Both ends belong to the range, so that a cursor right after a token still selects it. -/
def Contains (r : CodeRange) (line column : Nat) : Prop :=
  ¬ Position.Before ⟨line, column, none⟩ r.start ∧ ¬ r.stop.Before ⟨line, column, none⟩

instance (r : CodeRange) (line column : Nat) : Decidable (r.Contains line column) :=
  inferInstanceAs (Decidable (_ ∧ _))

/-- The smallest range that covers both. Of two equal ends the one of `r` is kept. -/
def union (r s : CodeRange) : CodeRange where
  start := if s.start.Before r.start then s.start else r.start
  stop := if r.stop.Before s.stop then s.stop else r.stop

/-- The bytes between the two ends: none when the offsets are unknown or out of order. -/
def span (r : CodeRange) : Span :=
  match r.start.offset, r.stop.offset with
  | some start, some stop => if start ≤ stop then ⟨start, stop⟩ else ⟨start, start⟩
  | some start, none => ⟨start, start⟩
  | none, _ => {}

end CodeRange

end Wireframe
