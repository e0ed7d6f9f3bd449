import Wireframe.Proofs.Lossless
import Wireframe.Proofs.Recutting

/-!
# Scanning line by line

No piece of a text but blanks and block comments goes on over a line feed. So whatever is wrong in
front of a line feed, scanning goes on behind it as if the text began there: two texts with a line
feed between them are scanned one after the other, unless a block comment stays open at the end of
the first one.

## Main definitions

* `Shift` — how far a text moves when something is put in front of it.
* `marks` — the pieces that are no trivia, with their places.

## Main results

* `next_lineFeed` — the first piece of a text does not depend on what stands behind a line feed.
* `exists_cuts_lineFeed` — two texts with a line feed between them are cut one after the other.
* `scan_lineFeed` — they are scanned one after the other.
-/

namespace Wireframe

open Piece

/-! ### Moving along -/

/-- How far a text moves when something is put in front of it. -/
structure Shift where
  bytes : Nat
  lines : Nat

/-- A position, moved along with its text. Columns stay, since whole lines are put in front. -/
def Position.shift (along : Shift) (p : Position) : Position :=
  ⟨p.line + along.lines, p.column, p.offset.map (· + along.bytes)⟩

/-- A range, moved along with its text. -/
def CodeRange.shift (along : Shift) (r : CodeRange) : CodeRange :=
  ⟨r.start.shift along, r.stop.shift along⟩

/-- Bytes, moved along with their text. -/
def Span.shift (along : Shift) (s : Span) : Span :=
  ⟨s.start + along.bytes, s.stop + along.bytes⟩

/-- A token, moved along with its text. -/
def Lexeme.shift (along : Shift) (l : Lexeme) : Lexeme :=
  ⟨l.token, l.span.shift along, l.range.shift along⟩

/-- A diagnostic, moved along with its text. -/
def Diagnostic.shift (along : Shift) (d : Diagnostic) : Diagnostic :=
  { d with range := d.range.shift along }

/-! ### In front of a line feed -/

/-- Something cut off a text, with more text behind what is left over. -/
def withMore {α : Type} (more : List Char) (cut : α × List Char) : α × List Char :=
  (cut.1, cut.2 ++ more)

section Readers

variable {inClass : Char → Bool} (text after : List Char)

theorem takeWhile_lineFeed (outside : inClass '\n' = false) :
    (text ++ '\n' :: after).takeWhile inClass = text.takeWhile inClass := by
  rw [List.takeWhile_append]
  split
  · next whole =>
    rw [List.takeWhile_cons_of_neg (by simp [outside]), List.append_nil,
      (List.takeWhile_prefix inClass).eq_of_length whole]
  · rfl

theorem dropWhile_lineFeed (outside : inClass '\n' = false) :
    (text ++ '\n' :: after).dropWhile inClass = text.dropWhile inClass ++ '\n' :: after := by
  rw [List.dropWhile_append]
  split
  · next none =>
    rw [List.dropWhile_cons_of_neg (by simp [outside]), List.isEmpty_iff.mp none, List.nil_append]
  · rfl

theorem run?_lineFeed (outside : inClass '\n' = false) :
    run? inClass (text ++ '\n' :: after) =
      (run? inClass text).map (withMore ('\n' :: after)) := by
  unfold run?
  rw [takeWhile_lineFeed text after outside, dropWhile_lineFeed text after outside]
  cases text.takeWhile inClass <;> rfl

theorem wordEnds_lineFeed : wordEnds (text ++ '\n' :: after) = wordEnds text := by
  cases text <;> rfl

theorem fraction_lineFeed :
    fraction (text ++ '\n' :: after) = withMore ('\n' :: after) (fraction text) := by
  cases text with
  | nil => rfl
  | cons c rest =>
    by_cases point : c = '.'
    · subst point
      rw [List.cons_append, fraction, fraction, run?_lineFeed rest after rfl]
      cases run? Char.isDigit rest <;> rfl
    · have other : ∀ tail, (c :: tail).head? ≠ some '.' := fun _ => by simpa using point
      rw [List.cons_append, fraction_of_ne_point (other _), fraction_of_ne_point (other _)]
      rfl

theorem digits?_lineFeed :
    digits? (text ++ '\n' :: after) = (digits? text).map (withMore ('\n' :: after)) := by
  rw [digits?, digits?, run?_lineFeed text after rfl, Option.map_map, Option.map_map]
  refine Option.map_congr fun whole _ => ?_
  simp only [Function.comp_apply, withMore, fraction_lineFeed]

theorem number?_of_ne_minus {text : List Char} (minus : text.head? ≠ some '-') :
    number? text = (digits? text).filter fun cut => wordEnds cut.2 := by
  unfold number?
  split
  · simp at minus
  · rfl

theorem number?_lineFeed :
    number? (text ++ '\n' :: after) = (number? text).map (withMore ('\n' :: after)) := by
  have ends : ∀ found : Option (List Char × List Char),
      (found.map (withMore ('\n' :: after))).filter (fun cut => wordEnds cut.2) =
        (found.filter fun cut => wordEnds cut.2).map (withMore ('\n' :: after)) := by
    rintro (- | cut)
    · rfl
    · simp only [Option.map_some, Option.filter_some, withMore, wordEnds_lineFeed]
      cases wordEnds cut.2 <;> rfl
  -- A minus belongs to the number, and the digits stand behind it.
  by_cases minus : text.head? = some '-'
  · obtain ⟨rest, rfl⟩ := List.head?_eq_some_iff.mp minus
    simp only [List.cons_append, number?, digits?_lineFeed rest after, ← ends, Option.map_map]
    rfl
  · have minus' : (text ++ '\n' :: after).head? ≠ some '-' := by
      cases text with
      | nil => simp
      | cons c rest => exact minus
    rw [number?_of_ne_minus minus, number?_of_ne_minus minus', digits?_lineFeed, ends]

/-- A string ends in front of a line feed, also behind a lone backslash. -/
theorem throughString?_lineFeed :
    throughString? (text ++ '\n' :: after) =
      (throughString? text).map (withMore ('\n' :: after)) := by
  cases read : throughString? text with
  | some cut => exact throughString?_append read _
  | none =>
    fun_induction throughString? text with
    | case1 => rfl
    | case2 => contradiction
    | case3 c rest ends =>
      rw [List.cons_append, List.cons_append, throughString?, if_pos ends]
      rfl
    | case4 c rest inLine ih =>
      rw [List.cons_append, List.cons_append, throughString?, if_neg inLine,
        ih (Option.map_eq_none_iff.mp read)]
      rfl
    | case5 c rest quote pair ends =>
      -- A backslash at the end of a text escapes nothing, and in front of a line feed neither.
      by_cases backslash : c = '\\'
      · subst backslash
        cases rest with
        | nil => rfl
        | cons d tail => exact (pair d tail rfl rfl).elim
      · have single : ∀ d tail, c = '\\' → rest ++ '\n' :: after = d :: tail → False :=
          fun _ _ same _ => backslash same
        rw [List.cons_append, throughString?.eq_4 _ _ quote single, if_pos ends]
        rfl
    | case6 c rest quote pair plain ih =>
      have single : ∀ d tail, c = '\\' → rest ++ '\n' :: after = d :: tail → False := by
        rintro d tail rfl -
        simp at plain
      rw [List.cons_append, throughString?.eq_4 _ _ quote single, if_neg plain,
        ih (Option.map_eq_none_iff.mp read)]
      rfl

theorem throughComment?_append_of_some {text : List Char} {cut : List Char × List Char}
    (found : throughComment? text = some cut) (more : List Char) :
    throughComment? (text ++ more) = some (withMore more cut) := by
  obtain ⟨body, taken, first⟩ := throughComment?_body found
  have whole := throughComment?_eq_some found
  rw [taken] at whole
  rw [withMore, taken, ← throughComment?_append (cut.2 ++ more) first, ← whole]
  simp only [List.append_assoc, List.cons_append, List.nil_append]

theorem string?_lineFeed :
    string? (text ++ '\n' :: after) = (string? text).map (withMore ('\n' :: after)) := by
  cases text with
  | nil => rfl
  | cons c rest =>
    by_cases quote : c = '"'
    · subst quote
      rw [List.cons_append, string?, string?, throughString?_lineFeed rest after]
      cases throughString? rest with
      | some cut => rfl
      | none =>
        -- An open string goes on to the end of its line, which stays where it was.
        have taken := @takeWhile_lineFeed (!isLineEnd ·) rest after rfl
        have left := @dropWhile_lineFeed (!isLineEnd ·) rest after rfl
        simp only [Option.map_none, taken, left]
        rfl
    · rw [List.cons_append, string?_eq_none quote, string?_eq_none quote]
      rfl

theorem color?_lineFeed :
    color? (text ++ '\n' :: after) = (color? text).map (withMore ('\n' :: after)) := by
  cases text with
  | nil => rfl
  | cons c rest =>
    by_cases hash : c = '#'
    · subst hash
      rw [List.cons_append, color?, color?, run?_lineFeed rest after rfl]
      cases run? isHexDigit rest with
      | none => rfl
      | some cut =>
        simp only [Option.map_some, Option.filter_some, withMore, wordEnds_lineFeed]
        cases wordEnds cut.2 <;> rfl
    · rw [List.cons_append, color?_eq_none hash, color?_eq_none hash]
      rfl

theorem keyword?_lineFeed :
    keyword? (text ++ '\n' :: after) = (keyword? text).map (withMore ('\n' :: after)) := by
  rw [keyword?, keyword?, run?_lineFeed text after rfl]
  cases run? isWordChar text with
  | none => rfl
  | some cut =>
    simp only [Option.map_some, Option.bind_some, Option.map_map]
    rfl

theorem name?_lineFeed :
    name? (text ++ '\n' :: after) = (name? text).map (withMore ('\n' :: after)) := by
  rw [name?, name?, run?_lineFeed text after rfl]
  cases run? isWordChar text with
  | none => rfl
  | some cut =>
    simp only [Option.map_some, Option.filter_some, withMore]
    cases cut.1.head? != some '-' <;> rfl

theorem mark?_lineFeed :
    mark? (text ++ '\n' :: after) = (mark? text).map (withMore ('\n' :: after)) := by
  cases text with
  | nil => rfl
  | cons c rest =>
    rw [List.cons_append, mark?, mark?, Option.map_map]
    rfl

/-- Whether a piece is a comment without its end. -/
def Piece.isOpenComment : Piece → Bool
  | .openComment _ => true
  | _ => false

theorem trivia?_lineFeed {c : Char} {rest : List Char} (blank : isBlank c = false)
    (closed : ∀ cut, trivia? (c :: rest) = some cut → cut.1.isOpenComment = false) :
    trivia? (c :: rest ++ '\n' :: after) =
      (trivia? (c :: rest)).map (withMore ('\n' :: after)) := by
  by_cases slash : c = '/'
  · subst slash
    -- What the slash opens is told by the character behind it.
    cases rest with
    | nil => rfl
    | cons d tail =>
      by_cases line : d = '/'
      · subst line
        rw [List.cons_append, List.cons_append, trivia?, trivia?,
          takeWhile_lineFeed tail after rfl, dropWhile_lineFeed tail after rfl]
        rfl
      by_cases block : d = '*'
      · subst block
        rw [trivia?] at closed ⊢
        rw [List.cons_append, List.cons_append, trivia?]
        cases read : throughComment? tail with
        | none =>
          rw [read] at closed
          exact Bool.noConfusion (closed _ rfl)
        | some cut =>
          rw [throughComment?_append_of_some read]
          rfl
      · have none : ∀ more, trivia? ('/' :: d :: more) = none := by
          intro more
          rw [trivia?.eq_3 _ (fun _ same => line (List.cons.inj (List.cons.inj same).2).1)
            (fun _ same => block (List.cons.inj (List.cons.inj same).2).1),
            run?_eq_none (stops_cons.mpr rfl)]
          rfl
        rw [List.cons_append, List.cons_append, none, none]
        rfl
  · rw [List.cons_append, trivia?_eq_none blank slash, trivia?_eq_none blank slash]
    rfl

end Readers

/-- The first piece of a text does not depend on what stands behind a line feed, unless it is blanks
or stays open. -/
theorem next_lineFeed {c : Char} {rest : List Char} (after : List Char) (blank : isBlank c = false)
    (closed : (next c rest).1.isOpenComment = false) :
    next c (rest ++ '\n' :: after) = withMore ('\n' :: after) (next c rest) := by
  have trivia : trivia? (c :: rest ++ '\n' :: after) =
      (trivia? (c :: rest)).map (withMore ('\n' :: after)) := by
    refine trivia?_lineFeed after blank fun cut found => ?_
    simpa only [next, found, Option.some_or, Option.getD_some] using closed
  have number : (number? (c :: rest ++ '\n' :: after)).map
        (fun cut => (Piece.token (.number (String.ofList cut.1)), cut.2)) =
      ((number? (c :: rest)).map
        fun cut => (Piece.token (.number (String.ofList cut.1)), cut.2)).map
          (withMore ('\n' :: after)) := by
    rw [number?_lineFeed, Option.map_map, Option.map_map]
    rfl
  have stray : (Piece.stray [c], rest ++ '\n' :: after) =
      withMore ('\n' :: after) (Piece.stray [c], rest) := rfl
  simp only [next, ← List.cons_append, trivia, number, stray, string?_lineFeed, color?_lineFeed,
    keyword?_lineFeed, name?_lineFeed, mark?_lineFeed, ← Option.map_or]
  exact Option.getD_map ..

/-- Two texts with a line feed between them are cut one after the other, apart from the blanks
around the line feed. -/
theorem exists_cuts_lineFeed {first : List Char}
    (closed : ∀ p ∈ cuts first, p.isOpenComment = false) (second : List Char) :
    ∃ ps blanks, (∀ c ∈ blanks, isBlank c = true) ∧ cuts first = ps ++ cuts blanks ∧
      cuts (first ++ '\n' :: second) = ps ++ cuts (blanks ++ '\n' :: second) := by
  -- By induction on the pieces, all of which are cut as before until blanks reach the line feed.
  fun_induction cuts first with
  | case1 => exact ⟨[], [], by simp, by simp [cuts], rfl⟩
  | case2 c rest ih =>
    obtain ⟨firstClosed, restClosed⟩ := List.forall_mem_cons.mp closed
    by_cases blank : isBlank c = true
    · rw [next_blank rest blank] at ih restClosed ⊢
      cases more : rest.dropWhile isBlank with
      | nil =>
        -- The blanks reach up to the line feed and may go on behind it.
        have all := List.dropWhile_eq_nil_iff.mp more
        refine ⟨[], c :: rest, List.forall_mem_cons.mpr ⟨blank, all⟩, ?_, rfl⟩
        rw [List.nil_append, cuts.eq_2, next_blank rest blank, more]
      | cons d tail =>
        obtain ⟨ps, blanks, inside, alone, joined⟩ := ih restClosed
        have taken : (rest ++ '\n' :: second).takeWhile isBlank = rest.takeWhile isBlank := by
          rw [List.takeWhile_append, if_neg]
          intro whole
          have all := (List.takeWhile_prefix isBlank).eq_of_length whole
          rw [List.dropWhile_eq_nil_iff.mpr (List.takeWhile_eq_self_iff.mp all)] at more
          contradiction
        have left : (rest ++ '\n' :: second).dropWhile isBlank =
            rest.dropWhile isBlank ++ '\n' :: second := by
          rw [List.dropWhile_append, more]
          rfl
        refine ⟨.trivia (c :: rest.takeWhile isBlank) :: ps, blanks, inside, ?_, ?_⟩
        · rw [← more, alone, List.cons_append]
        · rw [List.cons_append, cuts, next_blank _ blank, taken, left, joined, List.cons_append]
    · have own := next_lineFeed second (Bool.eq_false_iff.mpr blank) firstClosed
      obtain ⟨ps, blanks, inside, alone, joined⟩ := ih restClosed
      refine ⟨(next c rest).1 :: ps, blanks, inside, ?_, ?_⟩
      · rw [alone, List.cons_append]
      · rw [List.cons_append, cuts, own, withMore, joined, List.cons_append]

/-! ### Marks -/

/-- The pieces that are no trivia, with their places. -/
def marks (start : Nat) (ps : List Piece) : List (Piece × Span) :=
  (place start ps).filter (·.1.isSignificant)

theorem place_append (start : Nat) (ps qs : List Piece) :
    place start (ps ++ qs) =
      place start ps ++ place (start + byteLength (ps.flatMap Piece.text)) qs := by
  induction ps generalizing start with
  | nil => rfl
  | cons p ps ih =>
    rw [List.cons_append, place, place, ih, List.cons_append, List.flatMap_cons,
      byteLength_append, Nat.add_assoc]

theorem marks_append (start : Nat) (ps qs : List Piece) :
    marks start (ps ++ qs) =
      marks start ps ++ marks (start + byteLength (ps.flatMap Piece.text)) qs := by
  rw [marks, place_append, List.filter_append]
  rfl

theorem marks_trivia (start : Nat) (s : List Char) (ps : List Piece) :
    marks start (.trivia s :: ps) = marks (start + byteLength s) ps :=
  rfl

/-- Strays are not put together over trivia. -/
theorem joinStrays_append_trivia (ps qs : List Piece) (text : List Char) :
    joinStrays (ps ++ .trivia text :: qs) = joinStrays ps ++ .trivia text :: joinStrays qs := by
  fun_induction joinStrays ps with
  | case1 => simp [joinStrays]
  | case2 s others t after found ih => simp [joinStrays, ih, found]
  | case3 s others other ih =>
    -- A stray at the end stands alone, since the piece behind it is no stray.
    have apart : ∀ t after, joinStrays others ++ .trivia text :: joinStrays qs =
        .stray t :: after → False := by
      intro t after split
      cases joined : joinStrays others with
      | nil =>
        rw [joined] at split
        cases (List.cons.inj split).1
      | cons q rest =>
        rw [joined] at split
        obtain ⟨rfl, -⟩ := List.cons.inj split
        exact other t rest joined
    rw [List.cons_append, joinStrays, ih]
    split
    · next t after split => exact (apart t after split).elim
    · rfl
  | case4 p others other ih => rw [List.cons_append, joinStrays.eq_3 _ _ other, ih]; rfl

theorem pieces_blank {c : Char} (text : List Char) (blank : isBlank c = true) :
    pieces (c :: text) =
      .trivia (c :: text.takeWhile isBlank) :: pieces (text.dropWhile isBlank) := by
  rw [pieces, cuts, next_blank text blank]
  rfl

/-- Blanks in front of a text move its marks. -/
theorem marks_pieces_blank {c : Char} (start : Nat) (text : List Char) (blank : isBlank c = true) :
    marks start (pieces (c :: text)) = marks (start + c.utf8Size) (pieces text) := by
  rw [pieces_blank text blank, marks_trivia, byteLength_cons, ← Nat.add_assoc]
  -- The text may begin with more blanks or not.
  cases text with
  | nil => rfl
  | cons d rest =>
    by_cases more : isBlank d = true
    · rw [pieces_blank rest more, List.takeWhile_cons_of_pos more, List.dropWhile_cons_of_pos more]
      rfl
    · rw [List.takeWhile_cons_of_neg more, List.dropWhile_cons_of_neg more]
      rfl

theorem marks_pieces_blanks {blanks : List Char} (inside : ∀ c ∈ blanks, isBlank c = true)
    (start : Nat) (text : List Char) :
    marks start (pieces (blanks ++ text)) = marks (start + byteLength blanks) (pieces text) := by
  induction blanks generalizing start with
  | nil => rfl
  | cons c blanks ih =>
    obtain ⟨first, others⟩ := List.forall_mem_cons.mp inside
    rw [List.cons_append, marks_pieces_blank start _ first, ih others, byteLength_cons,
      Nat.add_assoc]

/-- Strays are not put together over the blanks at the head of a text. -/
theorem joinStrays_append_cuts (ps : List Piece) {text : List Char}
    (head : ∀ c, text.head? = some c → isBlank c = true) :
    joinStrays (ps ++ cuts text) = joinStrays ps ++ pieces text := by
  cases text with
  | nil => simp [pieces, cuts, joinStrays]
  | cons c rest =>
    have blank := head c rfl
    rw [cuts, next_blank rest blank, joinStrays_append_trivia, pieces_blank rest blank]
    rfl

/-- Two texts with a line feed between them have the marks of both. -/
theorem marks_pieces_lineFeed {first : List Char}
    (closed : ∀ p ∈ cuts first, p.isOpenComment = false) (second : List Char) :
    marks 0 (pieces (first ++ '\n' :: second)) =
      marks 0 (pieces first) ++ marks (byteLength first + 1) (pieces second) := by
  obtain ⟨ps, blanks, inside, alone, joined⟩ := exists_cuts_lineFeed closed second
  have bytes : byteLength first = byteLength (ps.flatMap Piece.text) + byteLength blanks := by
    have whole := cuts_text first
    rw [alone, List.flatMap_append, cuts_text] at whole
    rw [← whole, byteLength_append]
  have head : ∀ c, blanks.head? = some c → isBlank c = true :=
    fun c first => inside c (List.mem_of_head? first)
  have none : ∀ start, marks start (pieces blanks) = [] := by
    intro start
    rw [← List.append_nil blanks, marks_pieces_blanks inside, pieces, cuts]
    rfl
  have head' : ∀ c, (blanks ++ '\n' :: second).head? = some c → isBlank c = true := by
    cases blanks with
    | nil =>
      rintro c same
      obtain rfl := Option.some.inj same
      rfl
    | cons d others => exact head
  have size : '\n'.utf8Size = 1 := rfl
  -- Blanks make no marks, so it does not matter that those at the line feed are cut differently.
  have front : marks 0 (pieces first) = marks 0 (joinStrays ps) := by
    rw [pieces, alone, joinStrays_append_cuts ps head, marks_append, none, List.append_nil]
  rw [front, pieces, joined, joinStrays_append_cuts ps head', marks_append, joinStrays_text,
    marks_pieces_blanks inside, marks_pieces_blank _ second rfl, bytes, size, Nat.zero_add]

/-! ### Moved texts -/

/-- How far a text moves when a line feed is put in front of it, and another text before that. -/
def Shift.behind (first : List Char) : Shift :=
  ⟨byteLength first + 1, first.count '\n' + 1⟩

theorem Shift.bytes_behind (first : List Char) :
    (Shift.behind first).bytes = byteLength first + 1 :=
  rfl

theorem Shift.lines_behind (first : List Char) :
    (Shift.behind first).lines = first.count '\n' + 1 :=
  rfl

theorem place_shift (along : Shift) (start : Nat) (ps : List Piece) :
    place (start + along.bytes) ps = (place start ps).map (Prod.map id (Span.shift along)) := by
  induction ps generalizing start with
  | nil => rfl
  | cons p ps ih =>
    rw [place, place, Nat.add_right_comm, ih, List.map_cons]
    rfl

theorem marks_shift (along : Shift) (start : Nat) (ps : List Piece) :
    marks (start + along.bytes) ps = (marks start ps).map (Prod.map id (Span.shift along)) := by
  rw [marks, place_shift, List.filter_map]
  rfl

section Boundaries

variable {text : List Char} {o : Nat} {span : Span}

/-- Text behind a boundary does not matter for its position. -/
theorem position_append_of_boundary (inside : Boundary text o) (more : List Char) :
    (LineIndex.ofText (text ++ more)).position o = (LineIndex.ofText text).position o := by
  obtain ⟨before, after, rfl, rfl⟩ := inside
  rw [List.append_assoc, position_append, position_append]

/-- A text behind a line feed has its positions moved along. -/
theorem position_behind (inside : Boundary text o) (first : List Char) :
    (LineIndex.ofText (first ++ '\n' :: text)).position (o + (Shift.behind first).bytes) =
      ((LineIndex.ofText text).position o).shift (Shift.behind first) := by
  obtain ⟨before, after, rfl, rfl⟩ := inside
  have size : '\n'.utf8Size = 1 := rfl
  have bytes : byteLength (first ++ '\n' :: before) =
      byteLength before + (Shift.behind first).bytes := by
    rw [byteLength_append, byteLength_cons, size, Shift.bytes_behind]
    omega
  have line : (first ++ '\n' :: before).rtakeWhile onLine = before.rtakeWhile onLine := by
    rw [List.rtakeWhile, List.reverse_append, List.reverse_cons, List.append_assoc,
      List.singleton_append, takeWhile_lineFeed _ _ rfl, List.rtakeWhile]
  have lines : (first ++ '\n' :: before).count '\n' + 1 =
      before.count '\n' + 1 + (Shift.behind first).lines := by
    rw [List.count_append, List.count_cons_self, Shift.lines_behind]
    omega
  have behind := position_append (first ++ '\n' :: before) after
  rw [bytes, line, lines, List.append_assoc, List.cons_append] at behind
  rw [behind, position_append]
  rfl

theorem range_append_of_boundaries (inside : OnBoundaries text span) (more : List Char) :
    (LineIndex.ofText (text ++ more)).range span = (LineIndex.ofText text).range span := by
  rw [LineIndex.range, LineIndex.range, position_append_of_boundary inside.start,
    position_append_of_boundary inside.stop]

theorem range_behind (inside : OnBoundaries text span) (first : List Char) :
    (LineIndex.ofText (first ++ '\n' :: text)).range (span.shift (Shift.behind first)) =
      ((LineIndex.ofText text).range span).shift (Shift.behind first) := by
  rw [LineIndex.range, LineIndex.range, Span.shift, position_behind inside.start,
    position_behind inside.stop]
  rfl

end Boundaries

section Reports

variable {index index' : LineIndex} {piece : Piece} {span : Span}

theorem lexeme?_congr (same : index.range span = index'.range span) :
    Piece.lexeme? index (piece, span) = Piece.lexeme? index' (piece, span) := by
  cases piece <;> simp only [Piece.lexeme?, same]

theorem diagnostic?_congr (same : index.range span = index'.range span) :
    Piece.diagnostic? index (piece, span) = Piece.diagnostic? index' (piece, span) := by
  cases piece <;> simp only [Piece.diagnostic?, same]

variable {along : Shift}

theorem lexeme?_shift (moved : index.range (span.shift along) = (index'.range span).shift along) :
    Piece.lexeme? index (piece, span.shift along) =
      (Piece.lexeme? index' (piece, span)).map (Lexeme.shift along) := by
  cases piece <;> simp only [Piece.lexeme?, moved] <;> rfl

theorem diagnostic?_shift
    (moved : index.range (span.shift along) = (index'.range span).shift along) :
    Piece.diagnostic? index (piece, span.shift along) =
      (Piece.diagnostic? index' (piece, span)).map (Diagnostic.shift along) := by
  cases piece <;> simp only [Piece.diagnostic?, moved] <;> rfl

end Reports

/-! ### Scans -/

section Scan

variable {text : List Char}

theorem scan_eq_marks (text : List Char) :
    scan text = ⟨(marks 0 (pieces text)).filterMap (Piece.lexeme? (LineIndex.ofText text)),
      (marks 0 (pieces text)).filterMap (Piece.diagnostic? (LineIndex.ofText text))⟩ := by
  have skip : ∀ {α : Type} (f : Piece × Span → Option α),
      (∀ s span, f (.trivia s, span) = none) →
        (marks 0 (pieces text)).filterMap f = (place 0 (pieces text)).filterMap f := by
    intro α f trivia
    rw [marks, List.filterMap_filter]
    refine List.filterMap_congr fun ⟨piece, span⟩ _ => ?_
    cases piece with
    | trivia s => exact (trivia s span).symm
    | token | stray | openString | openComment => rfl
  rw [skip _ fun _ _ => rfl, skip _ fun _ _ => rfl]
  rfl

theorem onBoundaries_of_mem_marks {placed : Piece × Span}
    (inside : placed ∈ marks 0 (pieces text)) : OnBoundaries text placed.2 :=
  (stands_of_mem_place (List.mem_filter.mp inside).1).onBoundaries

theorem mem_joinStrays {ps : List Piece} {p : Piece} (inside : p ∈ ps)
    (single : p.isStray = false) : p ∈ joinStrays ps := by
  fun_induction joinStrays ps with
  | case1 => contradiction
  | case2 s others t after found ih =>
    rcases List.mem_cons.mp inside with rfl | later
    · contradiction
    · rw [found] at ih
      rcases List.mem_cons.mp (ih later) with rfl | behind
      · contradiction
      · exact List.mem_cons_of_mem _ behind
  | case3 s others _ ih =>
    rcases List.mem_cons.mp inside with rfl | later
    · contradiction
    · exact List.mem_cons_of_mem _ (ih later)
  | case4 q others _ ih =>
    rcases List.mem_cons.mp inside with rfl | later
    · exact List.mem_cons_self
    · exact List.mem_cons_of_mem _ (ih later)

/-- An open comment is reported. -/
theorem closed_of_scan
    (closed : ∀ d ∈ (scan text).diagnostics, d.code ≠ .unterminatedComment) :
    ∀ p ∈ cuts text, p.isOpenComment = false := by
  intro p inside
  cases p with
  | openComment s =>
    have kept : .openComment s ∈ pieces text := mem_joinStrays inside rfl
    rw [← map_fst_place (pieces text) 0] at kept
    obtain ⟨⟨piece, span⟩, placed, rfl⟩ := List.mem_map.mp kept
    exact absurd rfl (closed _ (List.mem_filterMap.mpr ⟨_, placed, rfl⟩))
  | trivia | token | stray | openString => rfl

/-- Two texts with a line feed between them are scanned one after the other, unless a block comment
stays open at the end of the first one. What is scanned behind the line feed is moved along, by the
bytes and lines in front of it, and is the same otherwise. -/
theorem scan_lineFeed {first : List Char}
    (closed : ∀ d ∈ (scan first).diagnostics, d.code ≠ .unterminatedComment)
    (second : List Char) :
    let along : Shift := ⟨byteLength first + 1, first.count '\n' + 1⟩
    scan (first ++ '\n' :: second) =
      ⟨(scan first).lexemes ++ (scan second).lexemes.map (Lexeme.shift along),
        (scan first).diagnostics ++ (scan second).diagnostics.map (Diagnostic.shift along)⟩ := by
  intro along
  have moved : marks (byteLength first + 1) (pieces second) =
      (marks 0 (pieces second)).map (Prod.map id (Span.shift along)) := by
    rw [← marks_shift along, Nat.zero_add]
  have front : ∀ placed ∈ marks 0 (pieces first),
      (LineIndex.ofText (first ++ '\n' :: second)).range placed.2 =
        (LineIndex.ofText first).range placed.2 :=
    fun placed inside => range_append_of_boundaries (onBoundaries_of_mem_marks inside) _
  have behind : ∀ placed ∈ marks 0 (pieces second),
      (LineIndex.ofText (first ++ '\n' :: second)).range (placed.2.shift along) =
        ((LineIndex.ofText second).range placed.2).shift along :=
    fun placed inside => range_behind (onBoundaries_of_mem_marks inside) first
  rw [scan_eq_marks, scan_eq_marks first, scan_eq_marks second,
    marks_pieces_lineFeed (closed_of_scan closed) second, moved, List.filterMap_append,
    List.filterMap_append, List.filterMap_map, List.filterMap_map, List.map_filterMap,
    List.map_filterMap]
  -- Both sides go over the marks of the first text and then over those of the second one.
  congr 2
  · exact List.filterMap_congr fun placed inside => lexeme?_congr (front placed inside)
  · exact List.filterMap_congr fun placed inside => lexeme?_shift (behind placed inside)
  · exact List.filterMap_congr fun placed inside => diagnostic?_congr (front placed inside)
  · exact List.filterMap_congr fun placed inside => diagnostic?_shift (behind placed inside)

end Scan

/-- A line that ends in an open string, behind a backslash. -/
def openLine : List Char :=
  "cell \x7b @ component Text value:\"open \\".toList

/-- A line that begins with a stray character. -/
def strayLine : List Char :=
  "@ \x7d \"é\"".toList

theorem scan_lineFeed_openLine :
    (∀ d ∈ (scan openLine).diagnostics, d.code ≠ .unterminatedComment) ∧
      let along : Shift := ⟨byteLength openLine + 1, openLine.count '\n' + 1⟩
      scan (openLine ++ '\n' :: strayLine) =
        ⟨(scan openLine).lexemes ++ (scan strayLine).lexemes.map (Lexeme.shift along),
          (scan openLine).diagnostics ++
            (scan strayLine).diagnostics.map (Diagnostic.shift along)⟩ := by
  have closed : ∀ d ∈ (scan openLine).diagnostics, d.code ≠ .unterminatedComment := by
    decide +kernel
  exact ⟨closed, scan_lineFeed closed strayLine⟩

end Wireframe
