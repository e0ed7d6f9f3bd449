import Wireframe.Proofs.Position

/-!
# Counting lines and columns

A position can be counted by hand. Its line is one more than the line feeds among the bytes in
front of it. Its column counts the characters behind the last of them, or the bytes if the offset
lies inside a character. No byte of a character other than the line feed is one, so it makes no
difference that the index finds the line by a search over the places where lines start.

## Main definitions

* `bytesOf` — the bytes of a text.
* `Position.CountsUpTo` — a position as it is counted by hand.
* `LineIndex.FindsLine` — the search for the line of an offset stays within the lines.

## Main results

* `count_bytesOf`, `rtakeWhile_bytesOf` — line feeds are found among the bytes of a text.
* `boundary_or_inside` — an offset of a text lies between two characters or inside one.
* `position_counts` — every position is counted so.
-/

namespace Wireframe

/-! ### Bytes -/

/-- The byte that ends a line. -/
def lineFeed : UInt8 :=
  10

/-- The bytes of a text. -/
def bytesOf (text : List Char) : List UInt8 :=
  text.flatMap String.utf8EncodeChar

@[simp]
theorem bytesOf_append (s t : List Char) : bytesOf (s ++ t) = bytesOf s ++ bytesOf t :=
  List.flatMap_append

theorem bytesOf_singleton (c : Char) : bytesOf [c] = String.utf8EncodeChar c :=
  List.flatMap_singleton ..

@[simp]
theorem length_bytesOf (text : List Char) : (bytesOf text).length = byteLength text := by
  induction text with
  | nil => rfl
  | cons c text ih =>
    rw [bytesOf, List.flatMap_cons, List.length_append, String.length_utf8EncodeChar,
      byteLength_cons]
    exact congrArg _ ih

/-- No character but the line feed has the byte of one. -/
theorem lineFeed_not_mem_encode {c : Char} (other : c ≠ '\n') :
    lineFeed ∉ String.utf8EncodeChar c := by
  have differs : c.val.toNat ≠ 10 := fun same => other (Char.ext (UInt32.toNat_inj.mp same))
  have byte : ∀ n : Nat, lineFeed = UInt8.ofNat n ↔ n % 256 = 10 := by
    intro n
    rw [← UInt8.toNat_inj, UInt8.toNat_ofNat', eq_comm]
    rfl
  unfold String.utf8EncodeChar
  simp only
  -- All bytes of a character that takes up several of them lie above those of ASCII.
  repeat' split
  all_goals
    simp only [List.mem_cons, List.not_mem_nil, byte, or_false]
    omega

theorem count_encode (c : Char) : (String.utf8EncodeChar c).count lineFeed = [c].count '\n' := by
  by_cases breaks : c = '\n'
  · subst breaks
    decide
  · rw [List.count_eq_zero.mpr (lineFeed_not_mem_encode breaks)]
    simp [breaks]

/-- The line feeds of a text are those among its bytes. -/
theorem count_bytesOf (text : List Char) : (bytesOf text).count lineFeed = text.count '\n' := by
  induction text with
  | nil => rfl
  | cons c text ih =>
    have split : c :: text = [c] ++ text := rfl
    rw [split, bytesOf_append, List.count_append, List.count_append, bytesOf_singleton,
      count_encode, ih]

theorem ne_lineFeed_of_mem_encode {c : Char} (other : c ≠ '\n') :
    ∀ b ∈ String.utf8EncodeChar c, (b != lineFeed) = true := by
  intro b inside
  have differs : b ≠ lineFeed := fun same => lineFeed_not_mem_encode other (same ▸ inside)
  simpa using differs

/-- The bytes behind the last line feed are those of the characters behind it. -/
theorem rtakeWhile_bytesOf (text : List Char) :
    (bytesOf text).rtakeWhile (· != lineFeed) = bytesOf (text.rtakeWhile onLine) := by
  induction text using List.reverseRecOn with
  | nil => rfl
  | append_singleton text c ih =>
    rw [bytesOf_append, bytesOf_singleton]
    by_cases breaks : c = '\n'
    · subst breaks
      have byte : String.utf8EncodeChar '\n' = [lineFeed] := by decide
      rw [byte, List.rtakeWhile_concat_neg _ _ _ (by decide),
        List.rtakeWhile_concat_neg _ _ _ (by decide)]
      rfl
    · have stays : onLine c = true := by simpa [onLine] using breaks
      rw [rtakeWhile_append_of_pos _ (ne_lineFeed_of_mem_encode breaks), ih,
        List.rtakeWhile_concat_pos _ _ _ stays, bytesOf_append, bytesOf_singleton]

/-! ### Inside a character -/

/-- An offset of a text lies between two characters or inside one. -/
theorem boundary_or_inside {text : List Char} {offset : Nat} (within : offset ≤ byteLength text) :
    Boundary text offset ∨ ∃ before c after bytes, text = before ++ c :: after ∧
      offset = byteLength before + bytes ∧ 0 < bytes ∧ bytes < c.utf8Size := by
  induction text generalizing offset with
  | nil =>
    rw [byteLength_nil] at within
    exact .inl ⟨[], [], rfl, Nat.le_zero.mp within⟩
  | cons c text ih =>
    rw [byteLength_cons] at within
    -- The offset lies in front of the first character, inside it or behind it.
    by_cases first : offset < c.utf8Size
    · rcases Nat.eq_zero_or_pos offset with rfl | later
      · exact .inl ⟨[], c :: text, rfl, rfl⟩
      · exact .inr ⟨[], c, text, offset, rfl, (Nat.zero_add offset).symm, later, first⟩
    · have behind : offset - c.utf8Size ≤ byteLength text := by omega
      rcases ih behind with ⟨before, after, split, same⟩ |
        ⟨before, d, after, bytes, split, same, inside⟩
      · refine .inl ⟨c :: before, after, by rw [split]; rfl, ?_⟩
        rw [byteLength_cons]
        omega
      · refine .inr ⟨c :: before, d, after, bytes, by rw [split]; rfl, ?_, inside⟩
        rw [byteLength_cons]
        omega

/-- An offset inside a character does not lie between two. -/
theorem not_boundary_inside (before after : List Char) {c : Char} {bytes : Nat}
    (positive : 0 < bytes) (cut : bytes < c.utf8Size) :
    ¬ Boundary (before ++ c :: after) (byteLength before + bytes) := by
  rintro ⟨front, back, split, same⟩
  rcases List.append_eq_append_iff.mp split with ⟨middle, rfl, rest⟩ | ⟨middle, rfl, -⟩
  · rw [byteLength_append] at same
    cases middle with
    | nil =>
      rw [byteLength_nil] at same
      omega
    | cons d middle =>
      obtain ⟨rfl, -⟩ := List.cons.inj rest
      rw [byteLength_cons] at same
      omega
  · rw [byteLength_append] at same
    omega

/-- A character that is cut is not counted. -/
theorem charactersWithin_eq_none (s t : List Char) {c : Char} {bytes : Nat} (positive : 0 < bytes)
    (cut : bytes < c.utf8Size) : charactersWithin (s ++ c :: t) (byteLength s + bytes) = none := by
  induction s with
  | nil =>
    obtain ⟨n, rfl⟩ := Nat.exists_eq_succ_of_ne_zero (Nat.ne_of_gt positive)
    rw [List.nil_append, byteLength_nil, Nat.zero_add, charactersWithin,
      if_neg (Nat.not_le_of_lt cut)]
  | cons d s ih =>
    have size := d.utf8Size_pos
    obtain ⟨n, shape⟩ : ∃ n, byteLength (d :: s) + bytes = n + 1 :=
      Nat.exists_eq_succ_of_ne_zero (by omega)
    have rest : n + 1 - d.utf8Size = byteLength s + bytes := by
      rw [← shape, byteLength_cons]
      omega
    have fits : d.utf8Size ≤ n + 1 := by
      rw [← shape, byteLength_cons]
      omega
    rw [shape, List.cons_append, charactersWithin, if_pos fits, rest, ih]
    rfl

section Inside

variable (before after : List Char) {c : Char} {bytes : Nat}

theorem ne_lineFeed_of_cut (positive : 0 < bytes) (cut : bytes < c.utf8Size) : c ≠ '\n' := by
  rintro rfl
  have size : '\n'.utf8Size = 1 := rfl
  omega

/-- A character that can be cut lies on the line of what stands before it. -/
theorem bytes_le_of_cut (positive : 0 < bytes) (cut : bytes < c.utf8Size) :
    bytes ≤ byteLength ((c :: after).takeWhile onLine) := by
  have stays : onLine c = true := by simpa [onLine] using ne_lineFeed_of_cut positive cut
  rw [List.takeWhile_cons_of_pos stays, byteLength_cons]
  omega

/-- The position inside a character: bytes are counted instead of characters. -/
theorem position_inside (positive : 0 < bytes) (cut : bytes < c.utf8Size) :
    (LineIndex.ofText (before ++ c :: after)).position (byteLength before + bytes) =
      ⟨before.count '\n' + 1, byteLength (before.rtakeWhile onLine) + bytes,
        some (byteLength before + bytes)⟩ := by
  have stays : onLine c = true := by simpa [onLine] using ne_lineFeed_of_cut positive cut
  have line : (c :: after).takeWhile onLine = c :: after.takeWhile onLine :=
    List.takeWhile_cons_of_pos stays
  have position := position_add before (c :: after) (bytes_le_of_cut after positive cut)
  rwa [line, charactersWithin_eq_none _ _ positive cut, Option.getD_none] at position

/-- The bytes in front of an offset inside a character. -/
theorem take_bytesOf_inside (cut : bytes < c.utf8Size) :
    (bytesOf (before ++ c :: after)).take (byteLength before + bytes) =
      bytesOf before ++ (String.utf8EncodeChar c).take bytes := by
  have split : before ++ c :: after = before ++ ([c] ++ after) := rfl
  have room : bytes ≤ (String.utf8EncodeChar c).length := by
    rw [String.length_utf8EncodeChar]
    exact Nat.le_of_lt cut
  rw [split, bytesOf_append, bytesOf_append, bytesOf_singleton, ← length_bytesOf,
    List.take_length_add_append, List.take_append_of_le_length room]

end Inside

theorem take_bytesOf (before after : List Char) :
    (bytesOf (before ++ after)).take (byteLength before) = bytesOf before := by
  rw [bytesOf_append, ← length_bytesOf, List.take_left]

/-! ### Positions by hand -/

/-- A position as it is counted by hand, up to a byte offset of a text. -/
structure Position.CountsUpTo (p : Position) (text : List Char) (offset : Nat) : Prop where
  line : p.line = 1 + ((bytesOf text).take offset).count lineFeed
  /-- Between two characters the column counts those behind the last line feed. -/
  column : ∀ before after, text = before ++ after → offset = byteLength before →
    p.column = (before.rtakeWhile onLine).length
  /-- Inside a character the column counts the bytes behind the last line feed. -/
  inside : ¬ Boundary text offset →
    p.column = (((bytesOf text).take offset).rtakeWhile (· != lineFeed)).length
  offset : p.offset = some offset

/-- The search for the line of an offset ends at a line that there is. That line starts at or before
the offset, and all lines behind it start later. -/
structure LineIndex.FindsLine (index : LineIndex) (offset : Nat) : Prop where
  inside : index.lineOf offset < index.lines.size
  start : ∀ line, index.lines[index.lineOf offset]? = some line → line.start ≤ offset
  later : ∀ k line, index.lineOf offset < k → index.lines[k]? = some line → offset < line.start

section Counts

variable {text : List Char} {offset : Nat}

theorem countsUpTo_boundary (before after : List Char) :
    ((LineIndex.ofText (before ++ after)).position (byteLength before)).CountsUpTo
      (before ++ after) (byteLength before) := by
  rw [position_append]
  constructor
  case line => rw [take_bytesOf, count_bytesOf, Nat.add_comm]
  case column =>
    intro front back split bytes
    rw [(append_inj_of_byteLength split bytes).1]
  case inside => exact fun cut => absurd (.of_append before after rfl) cut
  case offset => rfl

theorem countsUpTo_inside (before after : List Char) {c : Char} {bytes : Nat}
    (positive : 0 < bytes) (cut : bytes < c.utf8Size) :
    ((LineIndex.ofText (before ++ c :: after)).position (byteLength before + bytes)).CountsUpTo
      (before ++ c :: after) (byteLength before + bytes) := by
  have other := ne_lineFeed_of_cut positive cut
  have part := List.take_subset bytes (String.utf8EncodeChar c)
  rw [position_inside before after positive cut]
  constructor
  case line =>
    have none : lineFeed ∉ (String.utf8EncodeChar c).take bytes := fun inside =>
      lineFeed_not_mem_encode other (part inside)
    rw [take_bytesOf_inside before after cut, List.count_append, count_bytesOf,
      List.count_eq_zero.mpr none]
    exact Nat.add_comm _ 1
  case column =>
    intro front back split same
    exact absurd ⟨front, back, split, same⟩ (not_boundary_inside before after positive cut)
  case inside =>
    intro _
    have all : ∀ b ∈ (String.utf8EncodeChar c).take bytes, (b != lineFeed) = true := fun b inside =>
      ne_lineFeed_of_mem_encode other b (part inside)
    have room : bytes ≤ (String.utf8EncodeChar c).length := by
      rw [String.length_utf8EncodeChar]
      exact Nat.le_of_lt cut
    rw [take_bytesOf_inside before after cut, rtakeWhile_append_of_pos _ all, rtakeWhile_bytesOf,
      List.length_append, length_bytesOf, List.length_take_of_le room]
  case offset => rfl

end Counts

/-- The search for a line behind a part of the text, on which that part ends. -/
theorem findsLine_add (before after : List Char) {bytes : Nat}
    (inLine : bytes ≤ byteLength (after.takeWhile onLine)) :
    (LineIndex.ofText (before ++ after)).FindsLine (byteLength before + bytes) := by
  have lines : (LineIndex.ofText (before ++ after)).lines =
      (linesFrom 0 (before ++ after)).toArray :=
    rfl
  have starts : ∀ k line, (LineIndex.ofText (before ++ after)).lines[k]? = some line →
      (line.start ≤ byteLength before + bytes ↔ k ≤ before.count '\n') := by
    intro k line found
    rw [lines, List.getElem?_toArray] at found
    exact start_le_add_iff before after inLine found
  have number := lineOf_add before after inLine
  constructor
  case inside =>
    obtain ⟨line, found, -⟩ := linesFrom_getElem? before after 0
    rw [number, lines, List.size_toArray]
    exact (List.getElem?_eq_some_iff.mp found).1
  case start =>
    intro line found
    exact (starts _ line found).mpr (Nat.le_of_eq number)
  case later =>
    intro k line behind found
    rw [number] at behind
    exact Nat.lt_of_not_le fun reached => Nat.not_le_of_lt behind ((starts k line found).mp reached)

/-- Every position is as it is counted by hand, and the search for its line ends at a line that
there is. An offset behind the text counts as its end. -/
theorem position_counts (text : List Char) (offset : Nat) :
    ((LineIndex.ofText text).position offset).CountsUpTo text (min offset (byteLength text)) ∧
      (LineIndex.ofText text).FindsLine (min offset (byteLength text)) := by
  have clamped : (LineIndex.ofText text).position offset =
      (LineIndex.ofText text).position (min offset (byteLength text)) := by
    have size : (LineIndex.ofText text).size = byteLength text := rfl
    simp only [LineIndex.position, size, Nat.min_assoc, Nat.min_self]
  rw [clamped]
  rcases boundary_or_inside (Nat.min_le_right offset (byteLength text)) with
    ⟨before, after, rfl, same⟩ | ⟨before, c, after, bytes, rfl, same, positive, cut⟩
  · rw [same]
    exact ⟨countsUpTo_boundary before after, findsLine_add before after (Nat.zero_le _)⟩
  · rw [same]
    exact ⟨countsUpTo_inside before after positive cut,
      findsLine_add before (c :: after) (bytes_le_of_cut after positive cut)⟩

end Wireframe
