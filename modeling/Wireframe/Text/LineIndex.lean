import Wireframe.Text.Position

/-!
# Lines and columns of a text

A text is cut at its line feeds once. A byte offset is then placed by a binary search over the
lines and a count of characters within the line found.

## Main definitions

* `byteLength` — the length of a text in bytes.
* `Line` — one line, without its line feed, and the offset at which it starts.
* `LineIndex.position` — the line and column of a byte offset.
* `LineIndex.indentation` — the blanks that open a line.
-/

namespace Wireframe

/-- The length in bytes of the encoded text. -/
def byteLength (text : List Char) : Nat :=
  text.foldr (fun c bytes => c.utf8Size + bytes) 0

@[simp]
theorem byteLength_nil : byteLength [] = 0 :=
  rfl

@[simp]
theorem byteLength_cons (c : Char) (text : List Char) :
    byteLength (c :: text) = c.utf8Size + byteLength text := by
  simp [byteLength]

@[simp]
theorem byteLength_append (s t : List Char) :
    byteLength (s ++ t) = byteLength s + byteLength t := by
  induction s with
  | nil => simp
  | cons c s ih => simp [ih, Nat.add_assoc]

/-- How many characters fill exactly the first `bytes` bytes; none when a character is cut. -/
def charactersWithin : List Char → Nat → Option Nat
  | _, 0 => some 0
  | [], _ + 1 => none
  | c :: text, bytes + 1 =>
    if c.utf8Size ≤ bytes + 1 then
      (charactersWithin text (bytes + 1 - c.utf8Size)).map (· + 1)
    else none

/-- One line of a text, without its line feed. -/
structure Line where
  start : Nat
  text : List Char
  deriving DecidableEq, Repr, Inhabited

/-- The column of a byte offset: a count of characters, or of bytes inside a character. -/
def Line.column (line : Line) (offset : Nat) : Nat :=
  (charactersWithin line.text (offset - line.start)).getD (offset - line.start)

/-- A blank that may indent a line. -/
def isIndent (c : Char) : Bool :=
  c == ' ' || c == '\t'

/-- The text up to the first line feed, and the lines after it. -/
def splitLines (start : Nat) : List Char → List Char × List Line
  | [] => ([], [])
  | c :: text =>
    if c = '\n' then
      let (first, others) := splitLines (start + 1) text
      ([], ⟨start + 1, first⟩ :: others)
    else
      let (first, others) := splitLines (start + c.utf8Size) text
      (c :: first, others)

/-- The lines of one text, in order, and its length in bytes. -/
structure LineIndex where
  lines : Array Line
  size : Nat
  deriving Repr, Inhabited

namespace LineIndex

/-- A text always has a first line, which may be empty. -/
def ofText (text : List Char) : LineIndex :=
  let (first, others) := splitLines 0 text
  ⟨(⟨0, first⟩ :: others).toArray, byteLength text⟩

/-- The last of the lines `low, …, high - 1` that starts at or before `offset`, if `low` does. -/
def lastStarting (lines : Array Line) (offset low high : Nat) (bound : high ≤ lines.size) : Nat :=
  if apart : low + 1 < high then
    let middle := (low + high) / 2
    have inside : middle < lines.size := by omega
    if lines[middle].start ≤ offset then
      lastStarting lines offset middle high bound
    else
      lastStarting lines offset low middle (by omega)
  else low
termination_by high - low
decreasing_by all_goals omega

/-- The index of the line on which a byte offset lies. -/
def lineOf (index : LineIndex) (offset : Nat) : Nat :=
  lastStarting index.lines offset 0 index.lines.size (Nat.le_refl _)

/-- The position of a byte offset. Offsets past the end count as the end. -/
def position (index : LineIndex) (offset : Nat) : Position :=
  let offset := min offset index.size
  let number := index.lineOf offset
  let column := (index.lines[number]?).elim offset (·.column offset)
  ⟨number + 1, column, some offset⟩

/-- The positions of the two ends of a span. -/
def range (index : LineIndex) (span : Span) : CodeRange :=
  ⟨index.position span.start, index.position span.stop⟩

/-- The blanks that open a line, counted from one; none for a line that does not exist. -/
def indentation (index : LineIndex) : Nat → List Char
  | 0 => []
  | number + 1 => (index.lines[number]?).elim [] (·.text.takeWhile isIndent)

end LineIndex

end Wireframe
