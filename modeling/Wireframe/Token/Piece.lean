import Wireframe.Token

/-!
# Cutting a text into pieces

Every text falls into pieces: trivia, tokens, and what is neither. Cutting never fails. A character
that starts no piece is a stray, a string without its closing quote reaches to the end of its line,
and a comment without its end reaches to the end of the text.

## Main definitions

* `Piece` — a part of the text, with what it is.
* `Piece.next` — the first piece of a text and what follows it.
* `pieces` — all pieces of a text, neighbouring strays put together.

## Main results

* `Piece.next_splits` — a piece and what follows it make up the text, and no piece is empty.
* `pieces_text` — the pieces make up the text.
-/

namespace Wireframe

/-- Blanks separate tokens. -/
def isBlank (c : Char) : Bool :=
  c == ' ' || c == '\t' || c == '\r' || c == '\n'

/-- A string has to end before either of these. -/
def isLineEnd (c : Char) : Bool :=
  c == '\n' || c == '\r'

/-- Names, keywords and numbers are made of these. -/
def isWordChar (c : Char) : Bool :=
  c.isAlphanum || c == '_' || c == '-'

/-- A digit of a color. -/
def isHexDigit (c : Char) : Bool :=
  c.isDigit || ('a' ≤ c && c ≤ 'f') || ('A' ≤ c && c ≤ 'F')

/-- A part of a text. -/
inductive Piece where
  /-- Blanks or a comment. -/
  | trivia (text : List Char)
  | token (token : Token)
  /-- Characters that start no token. -/
  | stray (text : List Char)
  /-- A string without its closing quote. -/
  | openString (text : List Char)
  /-- A block comment without its end. -/
  | openComment (text : List Char)
  deriving DecidableEq, Repr

namespace Piece

/-- The part of the text that the piece is. -/
def text : Piece → List Char
  | .token t => t.text.toList
  | .trivia s | .stray s | .openString s | .openComment s => s

/-- The longest prefix of characters in a class, if it is not empty, and the rest. -/
def run? (inClass : Char → Bool) (text : List Char) : Option (List Char × List Char) :=
  match text.takeWhile inClass with
  | [] => none
  | taken => some (taken, text.dropWhile inClass)

/-- Whether no word goes on at the head of the text. -/
def wordEnds (text : List Char) : Bool :=
  !text.head?.any isWordChar

/-- The text up to and including the first end of a comment, and the rest. -/
def throughComment? : List Char → Option (List Char × List Char)
  | [] => none
  | '*' :: '/' :: rest => some (['*', '/'], rest)
  | c :: rest => (throughComment? rest).map fun cut => (c :: cut.1, cut.2)

/-- The text up to and including the closing quote, and the rest. A backslash takes the character
after it along, and neither a lone backslash nor a line end may come before the quote. -/
def throughString? : List Char → Option (List Char × List Char)
  | [] => none
  | '"' :: rest => some (['"'], rest)
  | '\\' :: c :: rest =>
    if isLineEnd c then none
    else (throughString? rest).map fun cut => ('\\' :: c :: cut.1, cut.2)
  | c :: rest =>
    -- a backslash that is seen here is the last character of the text
    if isLineEnd c || c == '\\' then none
    else (throughString? rest).map fun cut => (c :: cut.1, cut.2)

/-- The point and digits after the whole part of a number, if they are there, and the rest. -/
def fraction : List Char → List Char × List Char
  | '.' :: rest =>
    match run? Char.isDigit rest with
    | some (digits, rest) => ('.' :: digits, rest)
    | none => ([], '.' :: rest)
  | text => ([], text)

/-- An unsigned number, which need not end where a word ends. -/
def digits? (text : List Char) : Option (List Char × List Char) :=
  (run? Char.isDigit text).map fun whole =>
    (whole.1 ++ (fraction whole.2).1, (fraction whole.2).2)

/-- A number, which has to end where a word ends. -/
def number? (text : List Char) : Option (List Char × List Char) :=
  let found : Option (List Char × List Char) := match text with
    | '-' :: rest => (digits? rest).map fun cut => ('-' :: cut.1, cut.2)
    | _ => digits? text
  found.filter fun cut => wordEnds cut.2

/-- Blanks or a comment at the head of the text. -/
def trivia? : List Char → Option (Piece × List Char)
  | '/' :: '/' :: rest =>
    some (.trivia ('/' :: '/' :: rest.takeWhile (· != '\n')), rest.dropWhile (· != '\n'))
  | '/' :: '*' :: rest =>
    match throughComment? rest with
    | some (taken, rest) => some (.trivia ('/' :: '*' :: taken), rest)
    | none => some (.openComment ('/' :: '*' :: rest), [])
  | text => (run? isBlank text).map fun cut => (.trivia cut.1, cut.2)

/-- A string at the head of the text. -/
def string? : List Char → Option (Piece × List Char)
  | '"' :: rest =>
    match throughString? rest with
    | some (taken, rest) => some (.token (.string (String.ofList ('"' :: taken))), rest)
    | none =>
      some (.openString ('"' :: rest.takeWhile (!isLineEnd ·)), rest.dropWhile (!isLineEnd ·))
  | _ => none

/-- A color at the head of the text. It has to end where a word ends. -/
def color? : List Char → Option (Piece × List Char)
  | '#' :: rest =>
    ((run? isHexDigit rest).filter fun cut => wordEnds cut.2).map fun cut =>
      (.token (.color (String.ofList ('#' :: cut.1))), cut.2)
  | _ => none

/-- A keyword at the head of the text. It has to be a whole word. -/
def keyword? (text : List Char) : Option (Piece × List Char) :=
  (run? isWordChar text).bind fun cut =>
    (Keyword.ofText? (String.ofList cut.1)).map fun word => (.token (.keyword word), cut.2)

/-- A name at the head of the text: a whole word that does not open with a minus. -/
def name? (text : List Char) : Option (Piece × List Char) :=
  ((run? isWordChar text).filter fun cut => cut.1.head? != some '-').map fun cut =>
    (.token (.name (String.ofList cut.1)), cut.2)

/-- A mark at the head of the text. -/
def mark? : List Char → Option (Piece × List Char)
  | [] => none
  | c :: rest => (Mark.ofChar? c).map fun mark => (.token (.mark mark), rest)

/-- The first piece of a text and what follows it. A word is a keyword before it is a number, and a
number before it is a name. -/
def next (c : Char) (rest : List Char) : Piece × List Char :=
  let text := c :: rest
  let found := trivia? text
    |>.or (string? text)
    |>.or (color? text)
    |>.or (keyword? text)
    |>.or ((number? text).map fun cut => (.token (.number (String.ofList cut.1)), cut.2))
    |>.or (name? text)
    |>.or (mark? text)
  found.getD (.stray [c], rest)

/-- A piece and what follows it make up the text, and the piece is not empty. -/
def Splits (text : List Char) (cut : Piece × List Char) : Prop :=
  cut.1.text ++ cut.2 = text ∧ cut.1.text ≠ []

theorem run?_eq_some {inClass : Char → Bool} {text : List Char} {cut : List Char × List Char}
    (h : run? inClass text = some cut) : cut.1 ++ cut.2 = text ∧ cut.1 ≠ [] := by
  unfold run? at h
  split at h
  · contradiction
  · next nonempty =>
    obtain rfl := Option.some.inj h
    exact ⟨List.takeWhile_append_dropWhile, nonempty⟩

theorem throughComment?_eq_some {text : List Char} {cut : List Char × List Char}
    (h : throughComment? text = some cut) : cut.1 ++ cut.2 = text := by
  fun_induction throughComment? text generalizing cut with
  | case1 => contradiction
  | case2 rest =>
    obtain rfl := Option.some.inj h
    rfl
  | case3 c text _ ih =>
    obtain ⟨inner, found, rfl⟩ := Option.map_eq_some_iff.1 h
    simp [ih found]

theorem throughString?_eq_some {text : List Char} {cut : List Char × List Char}
    (h : throughString? text = some cut) : cut.1 ++ cut.2 = text := by
  fun_induction throughString? text generalizing cut with
  | case1 => contradiction
  | case2 rest =>
    obtain rfl := Option.some.inj h
    rfl
  | case3 => contradiction
  | case4 c text _ ih =>
    obtain ⟨inner, found, rfl⟩ := Option.map_eq_some_iff.1 h
    simp [ih found]
  | case5 => contradiction
  | case6 c text _ _ _ ih =>
    obtain ⟨inner, found, rfl⟩ := Option.map_eq_some_iff.1 h
    simp [ih found]

theorem fraction_append (text : List Char) : (fraction text).1 ++ (fraction text).2 = text := by
  unfold fraction
  split
  · split
    · next found => simpa using (run?_eq_some found).1
    · rfl
  · rfl

theorem digits?_eq_some {text : List Char} {cut : List Char × List Char}
    (h : digits? text = some cut) : cut.1 ++ cut.2 = text ∧ cut.1 ≠ [] := by
  obtain ⟨whole, found, rfl⟩ := Option.map_eq_some_iff.1 h
  obtain ⟨joined, nonempty⟩ := run?_eq_some found
  exact ⟨by rw [List.append_assoc, fraction_append, joined], by simp [nonempty]⟩

theorem number?_eq_some {text : List Char} {cut : List Char × List Char}
    (h : number? text = some cut) : cut.1 ++ cut.2 = text ∧ cut.1 ≠ [] := by
  have found := (Option.filter_eq_some_iff.1 h).1
  split at found
  · obtain ⟨inner, counted, rfl⟩ := Option.map_eq_some_iff.1 found
    simp [(digits?_eq_some counted).1]
  · exact digits?_eq_some found

theorem trivia?_splits {text : List Char} {cut : Piece × List Char}
    (h : trivia? text = some cut) : Splits text cut := by
  unfold trivia? at h
  split at h
  · obtain rfl := Option.some.inj h
    simp [Splits, Piece.text, List.takeWhile_append_dropWhile]
  · split at h
    · next found =>
      obtain rfl := Option.some.inj h
      simpa [Splits, Piece.text] using throughComment?_eq_some found
    · obtain rfl := Option.some.inj h
      simp [Splits, Piece.text]
  · obtain ⟨inner, found, rfl⟩ := Option.map_eq_some_iff.1 h
    exact run?_eq_some found

theorem string?_splits {text : List Char} {cut : Piece × List Char}
    (h : string? text = some cut) : Splits text cut := by
  unfold string? at h
  split at h
  · split at h
    · next found =>
      obtain rfl := Option.some.inj h
      simpa [Splits, Piece.text, Token.text] using throughString?_eq_some found
    · obtain rfl := Option.some.inj h
      simp [Splits, Piece.text, List.takeWhile_append_dropWhile]
  · contradiction

theorem color?_splits {text : List Char} {cut : Piece × List Char}
    (h : color? text = some cut) : Splits text cut := by
  unfold color? at h
  split at h
  · obtain ⟨inner, found, rfl⟩ := Option.map_eq_some_iff.1 h
    have found := (Option.filter_eq_some_iff.1 found).1
    simp [Splits, Piece.text, Token.text, (run?_eq_some found).1]
  · contradiction

theorem keyword?_splits {text : List Char} {cut : Piece × List Char}
    (h : keyword? text = some cut) : Splits text cut := by
  obtain ⟨inner, found, h⟩ := Option.bind_eq_some_iff.1 h
  obtain ⟨word, named, rfl⟩ := Option.map_eq_some_iff.1 h
  obtain ⟨joined, nonempty⟩ := run?_eq_some found
  have same : word.text = String.ofList inner.1 := by
    simpa using List.find?_some named
  simp [Splits, Piece.text, Token.text, same, joined, nonempty]

theorem name?_splits {text : List Char} {cut : Piece × List Char}
    (h : name? text = some cut) : Splits text cut := by
  obtain ⟨inner, found, rfl⟩ := Option.map_eq_some_iff.1 h
  obtain ⟨joined, nonempty⟩ := run?_eq_some (Option.filter_eq_some_iff.1 found).1
  simp [Splits, Piece.text, Token.text, joined, nonempty]

theorem mark?_splits {text : List Char} {cut : Piece × List Char}
    (h : mark? text = some cut) : Splits text cut := by
  unfold mark? at h
  split at h
  · contradiction
  · obtain ⟨sign, named, rfl⟩ := Option.map_eq_some_iff.1 h
    have same := List.find?_some named
    simp only [beq_iff_eq] at same
    simp [Splits, Piece.text, Token.text, same]

/-- A piece and what follows it make up the text, and no piece is empty. -/
theorem next_splits (c : Char) (rest : List Char) : Splits (c :: rest) (next c rest) := by
  unfold next
  simp only
  -- What is found is the first hit of the kinds in turn, and each kind splits the text.
  generalize hfound : Option.or _ _ = found
  cases found with
  | none => simp [Splits, Piece.text]
  | some cut =>
    simp only [Option.or_eq_some_iff] at hfound
    rcases hfound with h | ⟨-, h⟩
    · rcases h with h | ⟨-, h⟩
      · rcases h with h | ⟨-, h⟩
        · rcases h with h | ⟨-, h⟩
          · rcases h with h | ⟨-, h⟩
            · rcases h with h | ⟨-, h⟩
              · exact trivia?_splits h
              · exact string?_splits h
            · exact color?_splits h
          · exact keyword?_splits h
        · obtain ⟨inner, found, rfl⟩ := Option.map_eq_some_iff.1 h
          obtain ⟨joined, nonempty⟩ := number?_eq_some found
          simp [Splits, Piece.text, Token.text, joined, nonempty]
      · exact name?_splits h
    · exact mark?_splits h

/-- Cutting off a piece leaves less text. -/
theorem length_next (c : Char) (rest : List Char) : (next c rest).2.length ≤ rest.length := by
  obtain ⟨joined, nonempty⟩ := next_splits c rest
  have total := congrArg List.length joined
  have positive := List.length_pos_iff.2 nonempty
  simp only [List.length_append, List.length_cons] at total
  omega

/-- Put neighbouring strays together. -/
def joinStrays : List Piece → List Piece
  | [] => []
  | .stray s :: others =>
    match joinStrays others with
    | .stray t :: others => .stray (s ++ t) :: others
    | others => .stray s :: others
  | p :: others => p :: joinStrays others

/-- Putting strays together changes none of the text. -/
theorem joinStrays_text (list : List Piece) :
    (joinStrays list).flatMap text = list.flatMap text := by
  fun_induction joinStrays list with
  | case1 => rfl
  | case2 s others t after found ih =>
    rw [found] at ih
    simpa [Piece.text] using ih
  | case3 s others _ ih => simp [ih]
  | case4 p others _ ih => simp [ih]

end Piece

/-- The pieces of a text, with every stray character on its own. -/
def cuts : List Char → List Piece
  | [] => []
  | c :: rest => (Piece.next c rest).1 :: cuts (Piece.next c rest).2
termination_by text => text.length
decreasing_by
  have := Piece.length_next c rest
  simp only [List.length_cons]
  omega

theorem cuts_text (text : List Char) : (cuts text).flatMap Piece.text = text := by
  fun_induction cuts text with
  | case1 => rfl
  | case2 c rest ih =>
    rw [List.flatMap_cons, ih]
    exact (Piece.next_splits c rest).1

/-- The pieces of a text. -/
def pieces (text : List Char) : List Piece :=
  Piece.joinStrays (cuts text)

/-- Nothing of a text is lost: its pieces make it up. -/
theorem pieces_text (text : List Char) : (pieces text).flatMap Piece.text = text := by
  rw [pieces, Piece.joinStrays_text, cuts_text]

end Wireframe
