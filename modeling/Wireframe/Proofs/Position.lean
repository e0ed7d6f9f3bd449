import Mathlib.Data.List.DropRight
import Wireframe.Text.LineIndex

/-!
# Positions are offsets

Between two characters of a text the byte offset and the position tell the same: the line counts the
line feeds before that place, the column counts the characters behind the last of them, and both
together grow with the offset. So positions may be compared, and ranges united, by their offsets.

## Main definitions

* `Boundary` — an offset between two characters of a text, or at one of its ends.
* `OnBoundaries` — a span between two such offsets.
* `PositionsAreOffsets` — what lines and columns have in common with offsets.

## Main results

* `position_append` — the position behind a part of the text.
* `position_before_iff` — positions are ordered like offsets.
* `range_union` — ranges are united like spans.
* `span_range` — a range keeps its span.
* `contains_position_iff` — a range contains what its span encloses.
* `positions_are_offsets` — all of these, for every text.
-/

namespace Wireframe

/-! ### Lines -/

/-- Whether a character stays on its line. -/
def onLine (c : Char) : Bool :=
  c != '\n'

/-- The lines of a text that starts at some offset. -/
def linesFrom (start : Nat) (text : List Char) : List Line :=
  ⟨start, (splitLines start text).1⟩ :: (splitLines start text).2

theorem linesFrom_lineFeed (start : Nat) (text : List Char) :
    linesFrom start ('\n' :: text) = ⟨start, []⟩ :: linesFrom (start + 1) text := by
  simp [linesFrom, splitLines]

/-- A character in front of a text goes onto its first line. -/
theorem linesFrom_cons {c : Char} (start : Nat) (text : List Char) (stays : c ≠ '\n') :
    linesFrom start (c :: text) =
      ⟨start, c :: (splitLines (start + c.utf8Size) text).1⟩ ::
        (splitLines (start + c.utf8Size) text).2 := by
  simp [linesFrom, splitLines, stays]

theorem fst_splitLines (start : Nat) (text : List Char) :
    (splitLines start text).1 = text.takeWhile onLine := by
  induction text generalizing start with
  | nil => rfl
  | cons c text ih =>
    by_cases breaks : c = '\n'
    · simp [splitLines, breaks, onLine]
    · have stays : onLine c = true := by simpa [onLine] using breaks
      simp [splitLines, breaks, ih, stays]

theorem start_lt_of_mem_splitLines {start : Nat} {text : List Char} {line : Line}
    (later : line ∈ (splitLines start text).2) : start < line.start := by
  induction text generalizing start with
  | nil => simp [splitLines] at later
  | cons c text ih =>
    by_cases breaks : c = '\n'
    · simp only [splitLines, breaks, if_true, List.mem_cons] at later
      rcases later with rfl | later
      · exact Nat.lt_succ_self start
      · have := ih later
        omega
    · simp only [splitLines, breaks, if_false] at later
      have := ih later
      omega

/-- The lines that start at or before the end of a part of the text are the first one and one for
each line feed in that part. -/
theorem start_le_iff {before after : List Char} {start k : Nat} {line : Line}
    (found : (linesFrom start (before ++ after))[k]? = some line) :
    line.start ≤ start + byteLength before ↔ k ≤ before.count '\n' := by
  -- By induction on the part, where only a line feed adds a line in front.
  induction before generalizing start k with
  | nil =>
    cases k with
    | zero =>
      obtain rfl : _ = line := Option.some.inj found
      simp
    | succ k =>
      have later := start_lt_of_mem_splitLines (List.mem_of_getElem? found)
      simp only [byteLength_nil, List.count_nil]
      omega
  | cons c before ih =>
    by_cases breaks : c = '\n'
    · subst breaks
      rw [List.cons_append, linesFrom_lineFeed] at found
      have size : '\n'.utf8Size = 1 := rfl
      rw [byteLength_cons, List.count_cons_self, size]
      cases k with
      | zero =>
        obtain rfl : _ = line := Option.some.inj found
        simp
      | succ k =>
        have counted := ih found
        omega
    · rw [List.cons_append, linesFrom_cons start _ breaks] at found
      rw [byteLength_cons, List.count_cons_of_ne breaks]
      cases k with
      | zero =>
        obtain rfl : _ = line := Option.some.inj found
        simp
      | succ k =>
        have later : (linesFrom (start + c.utf8Size) (before ++ after))[k + 1]? = some line :=
          found
        have counted := ih later
        omega

theorem rtakeWhile_cons_of_mem {c : Char} {text : List Char} (breaks : '\n' ∈ text) :
    (c :: text).rtakeWhile onLine = text.rtakeWhile onLine := by
  have stops : ¬ (List.takeWhile onLine text.reverse).length = text.reverse.length := by
    intro whole
    have all := (List.takeWhile_eq_self_iff (p := onLine) (l := text.reverse)).mp
      ((List.takeWhile_prefix onLine).eq_of_length whole)
    simpa [onLine] using all '\n' (List.mem_reverse.mpr breaks)
  rw [List.rtakeWhile, List.reverse_cons, List.takeWhile_append, if_neg stops, List.rtakeWhile]

theorem rtakeWhile_lineFeed (text : List Char) :
    ('\n' :: text).rtakeWhile onLine = text.rtakeWhile onLine := by
  rw [List.rtakeWhile, List.reverse_cons, List.takeWhile_append]
  split
  case isTrue whole =>
    have same := (List.takeWhile_prefix onLine).eq_of_length whole
    simp [onLine, List.rtakeWhile, same]
  case isFalse => rfl

theorem rtakeWhile_append_of_pos {α : Type} {p : α → Bool} (s : List α) {t : List α}
    (all : ∀ a ∈ t, p a = true) : (s ++ t).rtakeWhile p = s.rtakeWhile p ++ t := by
  have reversed : ∀ a ∈ t.reverse, p a = true := fun a inside => all a (List.mem_reverse.mp inside)
  rw [List.rtakeWhile, List.reverse_append, List.takeWhile_append_of_pos reversed,
    List.reverse_append, List.reverse_reverse, List.rtakeWhile]

theorem rtakeWhile_of_not_mem {text : List Char} (free : '\n' ∉ text) :
    text.rtakeWhile onLine = text :=
  List.rtakeWhile_eq_self_iff.mpr fun c inside => by
    simpa [onLine] using fun same : c = '\n' => free (same ▸ inside)

/-- The line on which a part of the text ends: it starts so many bytes before that end as the part
has on it. -/
theorem linesFrom_getElem? (before after : List Char) (start : Nat) :
    ∃ line, (linesFrom start (before ++ after))[before.count '\n']? = some line ∧
      line.start + byteLength (before.rtakeWhile onLine) = start + byteLength before ∧
      line.text = before.rtakeWhile onLine ++ after.takeWhile onLine := by
  -- By induction on the part: a line feed in front adds a line, any other character goes onto the
  -- first one, which is the line in question only if the part has no line feed.
  induction before generalizing start with
  | nil => exact ⟨_, rfl, rfl, fst_splitLines start after⟩
  | cons c before ih =>
    by_cases breaks : c = '\n'
    · subst breaks
      obtain ⟨line, found, starts, text⟩ := ih (start + 1)
      have size : '\n'.utf8Size = 1 := rfl
      rw [List.count_cons_self, List.cons_append, linesFrom_lineFeed, rtakeWhile_lineFeed,
        byteLength_cons, size]
      exact ⟨line, found, by omega, text⟩
    · obtain ⟨line, found, starts, text⟩ := ih (start + c.utf8Size)
      rw [List.count_cons_of_ne breaks, List.cons_append, linesFrom_cons start _ breaks,
        byteLength_cons]
      by_cases more : '\n' ∈ before
      · obtain ⟨n, count⟩ := Nat.exists_eq_succ_of_ne_zero
          (Nat.ne_of_gt (List.count_pos_iff.mpr more))
        rw [rtakeWhile_cons_of_mem more]
        rw [count] at found ⊢
        exact ⟨line, found, by omega, text⟩
      · have free : '\n' ∉ c :: before := by
          simp [more, Ne.symm breaks]
        rw [rtakeWhile_of_not_mem free]
        rw [rtakeWhile_of_not_mem more] at text
        rw [List.count_eq_zero.mpr more] at found ⊢
        obtain rfl : _ = line := Option.some.inj found
        exact ⟨_, rfl, by simp [byteLength_cons], by simpa using text⟩

/-! ### The search for a line -/

/-- The search finds the last of the lines that start at or before an offset, if those are the first
`n + 1` lines. -/
theorem lastStarting_eq {lines : Array Line} {offset n low high : Nat}
    (bound : high ≤ lines.size)
    (starts : ∀ k line, lines[k]? = some line → (line.start ≤ offset ↔ k ≤ n))
    (above : low ≤ n) (below : n < high) :
    LineIndex.lastStarting lines offset low high bound = n := by
  fun_induction LineIndex.lastStarting lines offset low high bound with
  | case1 low high bound apart middle inside early ih =>
    have reached := (starts middle _ (Array.getElem?_eq_getElem inside)).mp early
    exact ih reached below
  | case2 low high bound apart middle inside late ih =>
    have passed := mt (starts middle _ (Array.getElem?_eq_getElem inside)).mpr late
    exact ih above (by omega)
  | case3 low high bound apart => omega

theorem charactersWithin_append (s t : List Char) :
    charactersWithin (s ++ t) (byteLength s) = some s.length := by
  induction s with
  | nil => simp [charactersWithin]
  | cons c s ih =>
    have size := c.utf8Size_pos
    obtain ⟨n, bytes⟩ : ∃ n, byteLength (c :: s) = n + 1 :=
      Nat.exists_eq_succ_of_ne_zero (by rw [byteLength_cons]; omega)
    have rest : n + 1 - c.utf8Size = byteLength s := by
      rw [← bytes, byteLength_cons]
      omega
    have fits : c.utf8Size ≤ n + 1 := by
      rw [← bytes, byteLength_cons]
      omega
    rw [bytes, List.cons_append, charactersWithin, if_pos fits, rest, ih]
    rfl

/-! ### Positions -/

section Positions

variable (before after : List Char) {bytes : Nat}
  (inLine : bytes ≤ byteLength (after.takeWhile onLine))

include inLine

/-- The lines that start up to the end of a part of the text are also those that start up to any
offset behind it on the same line. -/
theorem start_le_add_iff {k : Nat} {line : Line}
    (found : (linesFrom 0 (before ++ after))[k]? = some line) :
    line.start ≤ byteLength before + bytes ↔ k ≤ before.count '\n' := by
  have noBreak : (after.takeWhile onLine).count '\n' = 0 :=
    List.count_eq_zero.mpr fun inside => by simpa [onLine] using List.mem_takeWhile_imp inside
  have untilHere := start_le_iff found
  rw [← List.takeWhile_append_dropWhile (p := onLine) (l := after), ← List.append_assoc] at found
  have untilEnd := start_le_iff found
  rw [List.count_append, byteLength_append, noBreak] at untilEnd
  omega

/-- The line of an offset behind a part of the text. -/
theorem lineOf_add :
    (LineIndex.ofText (before ++ after)).lineOf (byteLength before + bytes) =
      before.count '\n' := by
  have lines : (LineIndex.ofText (before ++ after)).lines =
      (linesFrom 0 (before ++ after)).toArray :=
    rfl
  refine lastStarting_eq _ (fun k line found => ?_) (Nat.zero_le _) ?_
  · rw [lines, List.getElem?_toArray] at found
    exact start_le_add_iff before after inLine found
  · rw [lines, List.size_toArray]
    obtain ⟨line, found, -⟩ := linesFrom_getElem? before after 0
    exact (List.getElem?_eq_some_iff.mp found).1

/-- The position of an offset behind a part of the text, on the same line. -/
theorem position_add :
    (LineIndex.ofText (before ++ after)).position (byteLength before + bytes) =
      ⟨before.count '\n' + 1,
        (charactersWithin (before.rtakeWhile onLine ++ after.takeWhile onLine)
          (byteLength (before.rtakeWhile onLine) + bytes)).getD
            (byteLength (before.rtakeWhile onLine) + bytes),
        some (byteLength before + bytes)⟩ := by
  obtain ⟨line, found, starts, text⟩ := linesFrom_getElem? before after 0
  have lines : (LineIndex.ofText (before ++ after)).lines =
      (linesFrom 0 (before ++ after)).toArray :=
    rfl
  have size : (LineIndex.ofText (before ++ after)).size = byteLength (before ++ after) := rfl
  have within : min (byteLength before + bytes) (LineIndex.ofText (before ++ after)).size =
      byteLength before + bytes := by
    have whole := congrArg byteLength (List.takeWhile_append_dropWhile (p := onLine) (l := after))
    rw [byteLength_append] at whole
    rw [size, byteLength_append]
    omega
  have offset : byteLength before + bytes - line.start =
      byteLength (before.rtakeWhile onLine) + bytes := by
    omega
  rw [LineIndex.position]
  simp only [within, lineOf_add before after inLine, lines, List.getElem?_toArray, found,
    Option.elim_some, Line.column, offset, text]

end Positions

/-- The position behind a part of the text: one line for each line feed in it, and one column for
each character behind the last of them. -/
theorem position_append (before after : List Char) :
    (LineIndex.ofText (before ++ after)).position (byteLength before) =
      ⟨before.count '\n' + 1, (before.rtakeWhile onLine).length, some (byteLength before)⟩ := by
  have behind := position_add before after (Nat.zero_le _)
  simp only [Nat.add_zero, charactersWithin_append, Option.getD_some] at behind
  exact behind

/-- A character that stays on its line takes up one column. -/
theorem position_append_cons {c : Char} (before after : List Char) (stays : c ≠ '\n') :
    ((LineIndex.ofText (before ++ c :: after)).position (byteLength (before ++ [c]))).line =
        ((LineIndex.ofText (before ++ c :: after)).position (byteLength before)).line ∧
      ((LineIndex.ofText (before ++ c :: after)).position (byteLength (before ++ [c]))).column =
        ((LineIndex.ofText (before ++ c :: after)).position (byteLength before)).column + 1 := by
  have behind := position_append (before ++ [c]) after
  rw [List.append_assoc, List.singleton_append] at behind
  have onIt : onLine c = true := by simpa [onLine] using stays
  rw [behind, position_append before, List.count_append, List.rtakeWhile_concat_pos _ _ _ onIt]
  exact ⟨by simp [stays], by simp⟩

/-! ### Boundaries -/

/-- An offset between two characters of a text, or at one of its ends. -/
def Boundary (text : List Char) (offset : Nat) : Prop :=
  ∃ before after, text = before ++ after ∧ offset = byteLength before

theorem Boundary.of_append {text : List Char} (before after : List Char)
    (split : text = before ++ after) : Boundary text (byteLength before) :=
  ⟨before, after, split, rfl⟩

theorem eq_nil_of_byteLength_eq_zero {text : List Char} (empty : byteLength text = 0) :
    text = [] := by
  cases text with
  | nil => rfl
  | cons c text =>
    have size := c.utf8Size_pos
    rw [byteLength_cons] at empty
    omega

/-- Where a text is split is told by the bytes in front. -/
theorem append_inj_of_byteLength {before after before' after' : List Char}
    (same : before ++ after = before' ++ after') (bytes : byteLength before = byteLength before') :
    before = before' ∧ after = after' := by
  have longer : ∀ {s t : List Char} (middle : List Char), t = s ++ middle →
      byteLength s = byteLength t → middle = [] := by
    rintro s t middle rfl bytes
    rw [byteLength_append] at bytes
    exact eq_nil_of_byteLength_eq_zero (by omega)
  rcases List.append_eq_append_iff.mp same with ⟨middle, split, rest⟩ | ⟨middle, split, rest⟩
  · obtain rfl := longer middle split bytes
    exact ⟨by simp [split], rest⟩
  · obtain rfl := longer middle split bytes.symm
    exact ⟨by simp [split], rest.symm⟩

section Boundaries

variable {text : List Char} {o p : Nat}

/-- Of two boundaries the later one lies some characters behind the earlier one. -/
theorem Boundary.exists_between (first : Boundary text o) (second : Boundary text p)
    (le : o ≤ p) : ∃ before middle after, text = before ++ (middle ++ after) ∧
      o = byteLength before ∧ p = byteLength (before ++ middle) := by
  obtain ⟨before, after, split, rfl⟩ := first
  obtain ⟨before', after', split', rfl⟩ := second
  rcases List.append_eq_append_iff.mp (split.symm.trans split') with
    ⟨middle, rfl, rfl⟩ | ⟨middle, rfl, rfl⟩
  · exact ⟨before, middle, after', split, rfl, rfl⟩
  · -- The other way round nothing can lie between them.
    rw [byteLength_append] at le
    have empty : byteLength middle = 0 := by omega
    obtain rfl := eq_nil_of_byteLength_eq_zero empty
    exact ⟨before', [], after, by simpa using split', by simp, by simp⟩

/-- Positions grow with the offset. -/
theorem position_before_of_lt (first : Boundary text o) (second : Boundary text p) (lt : o < p) :
    ((LineIndex.ofText text).position o).Before ((LineIndex.ofText text).position p) := by
  obtain ⟨before, middle, after, rfl, rfl, rfl⟩ := first.exists_between second (Nat.le_of_lt lt)
  have nonempty : middle ≠ [] := by
    rintro rfl
    simp at lt
  have later := position_append (before ++ middle) after
  rw [List.append_assoc] at later
  rw [position_append before, later]
  by_cases breaks : '\n' ∈ middle
  · refine .inl ?_
    have count := List.count_pos_iff.mpr breaks
    simp only [List.count_append]
    omega
  · -- On one line the column counts the characters between them as well.
    have all : ∀ c ∈ middle, onLine c = true := by
      intro c inside
      simpa [onLine] using fun same : c = '\n' => breaks (same ▸ inside)
    have columns := rtakeWhile_append_of_pos before all
    have positive := List.length_pos_iff.mpr nonempty
    refine .inr ⟨?_, ?_⟩
    · simp [List.count_eq_zero.mpr breaks]
    · simp only [columns, List.length_append]
      omega

theorem Position.Before.asymm {a b : Position} (first : a.Before b) : ¬ b.Before a := by
  unfold Position.Before at *
  omega

/-- Positions are ordered like offsets. -/
theorem position_before_iff (first : Boundary text o) (second : Boundary text p) :
    ((LineIndex.ofText text).position o).Before ((LineIndex.ofText text).position p) ↔ o < p := by
  constructor
  · intro before
    by_contra other
    rcases Nat.lt_or_eq_of_le (Nat.le_of_not_lt other) with lt | rfl
    · exact (position_before_of_lt second first lt).asymm before
    · exact before.asymm before
  · exact position_before_of_lt first second

/-- A line and a column belong to one boundary only. -/
theorem Boundary.eq_of_position (first : Boundary text o) (second : Boundary text p)
    (line : ((LineIndex.ofText text).position o).line =
      ((LineIndex.ofText text).position p).line)
    (column : ((LineIndex.ofText text).position o).column =
      ((LineIndex.ofText text).position p).column) : o = p := by
  rcases Nat.lt_trichotomy o p with lt | equal | lt
  · have before := position_before_of_lt first second lt
    unfold Position.Before at before
    omega
  · exact equal
  · have before := position_before_of_lt second first lt
    unfold Position.Before at before
    omega

end Boundaries

/-! ### Ranges -/

/-- A span between two boundaries. -/
structure OnBoundaries (text : List Char) (s : Span) : Prop where
  start : Boundary text s.start
  stop : Boundary text s.stop

section Ranges

variable {text : List Char} {s t : Span}

/-- Ranges are united like spans. -/
theorem range_union (first : OnBoundaries text s) (second : OnBoundaries text t) :
    ((LineIndex.ofText text).range s).union ((LineIndex.ofText text).range t) =
      (LineIndex.ofText text).range (s.union t) := by
  simp only [LineIndex.range, CodeRange.union, Span.union,
    position_before_iff second.start first.start, position_before_iff first.stop second.stop]
  congr 1
  · split
    · rw [Nat.min_eq_right (by omega)]
    · rw [Nat.min_eq_left (by omega)]
  · split
    · rw [Nat.max_eq_right (by omega)]
    · rw [Nat.max_eq_left (by omega)]

theorem offset_position {o : Nat} (inside : Boundary text o) :
    ((LineIndex.ofText text).position o).offset = some o := by
  obtain ⟨before, after, rfl, rfl⟩ := inside
  rw [position_append]

/-- A range keeps its span. -/
theorem span_range (inside : OnBoundaries text s) (ordered : s.start ≤ s.stop) :
    ((LineIndex.ofText text).range s).span = s := by
  simp only [LineIndex.range, CodeRange.span, offset_position inside.start,
    offset_position inside.stop, if_pos ordered]

/-- A range contains the positions of the offsets from its start up to and including its stop. -/
theorem contains_position_iff {o : Nat} (ends : OnBoundaries text s) (inside : Boundary text o) :
    ((LineIndex.ofText text).range s).Contains ((LineIndex.ofText text).position o).line
        ((LineIndex.ofText text).position o).column ↔ s.start ≤ o ∧ o ≤ s.stop := by
  refine and_congr ?_ ?_
  · exact (not_congr (position_before_iff inside ends.start)).trans Nat.not_lt
  · exact (not_congr (position_before_iff ends.stop inside)).trans Nat.not_lt

end Ranges

/-! ### Positions and offsets -/

/-- Between the characters of a text, lines and columns order, unite and enclose places just as byte
offsets do, and neither is lost on the way to the other. -/
structure PositionsAreOffsets (text : List Char) (index : LineIndex) : Prop where
  span : ∀ s, OnBoundaries text s → s.start ≤ s.stop → (index.range s).span = s
  union : ∀ s t, OnBoundaries text s → OnBoundaries text t →
    index.range (s.union t) = (index.range s).union (index.range t)
  before : ∀ o p, Boundary text o → Boundary text p →
    ((index.position o).Before (index.position p) ↔ o < p)
  contains : ∀ s o, OnBoundaries text s → Boundary text o →
    ((index.range s).Contains (index.position o).line (index.position o).column ↔
      s.start ≤ o ∧ o ≤ s.stop)

/-- The positions of every text are its offsets. -/
theorem positions_are_offsets (text : List Char) :
    PositionsAreOffsets text (LineIndex.ofText text) where
  span := fun _ ends ordered => span_range ends ordered
  union := fun _ _ first second => (range_union first second).symm
  before := fun _ _ first second => position_before_iff first second
  contains := fun _ _ ends inside => contains_position_iff ends inside

end Wireframe
