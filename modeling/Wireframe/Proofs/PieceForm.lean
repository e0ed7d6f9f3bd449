import Mathlib.Data.List.TakeWhile
import Wireframe.Token.Scan

/-!
# What the pieces of a text look like

Where a piece ends is decided by the piece itself and by the character behind it. So a piece can be
told from its own text: trivia are blanks or a closed comment, and every kind of token has a form of
its own.

## Main definitions

* `IsTrivia` — blanks or a comment in front of a text.
* `Token.Proper` — the form of a token.
* `Token.EndsBefore` — whether a token ends in front of a text.
* `Piece.Formed` — the same for a piece and the rest of a text.
* `Piece.Found` — the kinds of piece that can be found at the head of a text.

## Main results

* `next_formed` — what is cut off a text has its form and ends there.
-/

namespace Wireframe

open Piece

/-! ### Letters and digits -/

theorem isLower_iff (c : Char) : c.isLower = true ↔ 'a' ≤ c ∧ c ≤ 'z' := by
  change (decide ('a' ≤ c) && decide (c ≤ 'z')) = true ↔ _
  rw [Bool.and_eq_true, decide_eq_true_iff, decide_eq_true_iff]

theorem isAlpha_iff (c : Char) :
    c.isAlpha = true ↔ ('A' ≤ c ∧ c ≤ 'Z') ∨ ('a' ≤ c ∧ c ≤ 'z') := by
  change (decide ('A' ≤ c ∧ c ≤ 'Z') || (decide ('a' ≤ c) && decide (c ≤ 'z'))) = true ↔ _
  simp only [Bool.or_eq_true, Bool.and_eq_true, decide_eq_true_iff]

theorem isDigit_iff (c : Char) : c.isDigit = true ↔ '0' ≤ c ∧ c ≤ '9' := by
  change (decide ('0' ≤ c) && decide (c ≤ '9')) = true ↔ _
  simp only [Bool.and_eq_true, decide_eq_true_iff]

theorem isAlphanum_iff (c : Char) :
    c.isAlphanum = true ↔
      ('A' ≤ c ∧ c ≤ 'Z') ∨ ('a' ≤ c ∧ c ≤ 'z') ∨ ('0' ≤ c ∧ c ≤ '9') := by
  change (c.isAlpha || c.isDigit) = true ↔ _
  rw [Bool.or_eq_true, isAlpha_iff, isDigit_iff, or_assoc]

theorem isAlpha_eq_false_of_isDigit {c : Char} (digit : c.isDigit = true) :
    c.isAlpha = false := by
  obtain ⟨-, high⟩ := (isDigit_iff c).mp digit
  refine Bool.eq_false_iff.mpr fun alpha => ?_
  rcases (isAlpha_iff c).mp alpha with ⟨low, -⟩ | ⟨low, -⟩
  · exact absurd (Char.le_trans low high) (by decide)
  · exact absurd (Char.le_trans low high) (by decide)

/-! ### Runs -/

/-- No character of a class comes next. -/
def Stops (inClass : Char → Bool) (after : List Char) : Prop :=
  ∀ c, after.head? = some c → inClass c = false

/-- Neither a word nor a number goes on. -/
structure EndsWord (after : List Char) : Prop where
  word : Stops isWordChar after
  point : after.head? ≠ some '.'

section Runs

variable {inClass : Char → Bool} {w text after : List Char}

theorem stops_nil : Stops inClass [] := by
  simp [Stops]

theorem stops_cons {c : Char} {rest : List Char} :
    Stops inClass (c :: rest) ↔ inClass c = false := by
  simp [Stops]

theorem stops_dropWhile (inClass : Char → Bool) (text : List Char) :
    Stops inClass (text.dropWhile inClass) := by
  intro c first
  have outside := List.head?_dropWhile_not inClass text
  rw [first] at outside
  exact outside

theorem Stops.takeWhile_append (stops : Stops inClass after) (inside : ∀ c ∈ w, inClass c = true) :
    (w ++ after).takeWhile inClass = w := by
  rw [List.takeWhile_append_of_pos inside]
  cases after with
  | nil => simp
  | cons c rest => simp [stops_cons.mp stops]

theorem Stops.dropWhile_append (stops : Stops inClass after) (inside : ∀ c ∈ w, inClass c = true) :
    (w ++ after).dropWhile inClass = after := by
  rw [List.dropWhile_append_of_pos inside]
  cases after with
  | nil => rfl
  | cons c rest => simp [stops_cons.mp stops]

/-- A run is found again in front of any text that does not go on with it. -/
theorem run?_append (nonempty : w ≠ []) (inside : ∀ c ∈ w, inClass c = true)
    (stops : Stops inClass after) : run? inClass (w ++ after) = some (w, after) := by
  unfold run?
  rw [stops.takeWhile_append inside, stops.dropWhile_append inside]
  cases w with
  | nil => contradiction
  | cons c w => rfl

theorem run?_eq_none (stops : Stops inClass text) : run? inClass text = none := by
  cases text with
  | nil => rfl
  | cons c rest => simp [run?, stops_cons.mp stops]

theorem inClass_of_run? {cut : List Char × List Char} (found : run? inClass text = some cut) :
    (∀ c ∈ cut.1, inClass c = true) ∧ Stops inClass cut.2 := by
  unfold run? at found
  split at found
  · contradiction
  · obtain rfl := Option.some.inj found
    exact ⟨fun c inside => List.mem_takeWhile_imp inside, stops_dropWhile inClass text⟩

theorem wordEnds_iff : wordEnds after = true ↔ Stops isWordChar after := by
  cases after with
  | nil => simp [wordEnds, stops_nil]
  | cons c rest => simp [wordEnds, stops_cons]

end Runs

/-! ### Trivia -/

/-- Blanks, or a comment that ends where the given text begins. A line comment goes on to the end
of its line, a block comment to the first end of a comment in it. -/
inductive IsTrivia (after : List Char) : List Char → Prop
  | blanks {s : List Char} : (∀ c ∈ s, isBlank c = true) → IsTrivia after s
  | lineComment {body : List Char} : (∀ c ∈ body, c ≠ '\n') →
      (after = [] ∨ after.head? = some '\n') → IsTrivia after ('/' :: '/' :: body)
  | blockComment {body : List Char} : ¬ ['*', '/'] <:+: body ++ ['*'] →
      IsTrivia after ('/' :: '*' :: (body ++ ['*', '/']))

/-- Whether a piece is no trivia. -/
def Piece.isSignificant : Piece → Bool
  | .trivia _ => false
  | _ => true

/-- What is read through the end of a comment is the comment up to its first end. -/
theorem throughComment?_body {text : List Char} {cut : List Char × List Char}
    (found : throughComment? text = some cut) :
    ∃ body, cut.1 = body ++ ['*', '/'] ∧ ¬ ['*', '/'] <:+: body ++ ['*'] := by
  fun_induction throughComment? text generalizing cut with
  | case1 => contradiction
  | case2 rest =>
    obtain rfl := Option.some.inj found
    exact ⟨[], rfl, by decide⟩
  | case3 c text other ih =>
    obtain ⟨inner, read, rfl⟩ := Option.map_eq_some_iff.1 found
    obtain ⟨body, taken, first⟩ := ih read
    refine ⟨c :: body, by simp only [taken, List.cons_append], fun early => ?_⟩
    -- An earlier end would have to begin with the character in front.
    rcases List.infix_cons_iff.mp early with ⟨later, split⟩ | inside
    · have whole := throughComment?_eq_some read
      rw [taken] at whole
      cases body with
      | nil => simp at split
      | cons d body =>
        obtain ⟨rfl, tail⟩ := List.cons.inj split
        obtain ⟨rfl, -⟩ := List.cons.inj tail
        exact other (body ++ ['*', '/'] ++ inner.2) rfl whole.symm
    · exact first inside

theorem throughComment?_append {body : List Char} (after : List Char)
    (first : ¬ ['*', '/'] <:+: body ++ ['*']) :
    throughComment? (body ++ '*' :: '/' :: after) = some (body ++ ['*', '/'], after) := by
  induction body with
  | nil => rfl
  | cons c body ih =>
    have later : ¬ ['*', '/'] <:+: body ++ ['*'] := fun inside => first (List.infix_cons inside)
    have other : ∀ rest, c = '*' → body ++ '*' :: '/' :: after = '/' :: rest → False := by
      rintro rest rfl split
      cases body with
      | nil => simp at split
      | cons d body =>
        obtain rfl : d = '/' := (List.cons.inj split).1
        exact first ⟨[], body ++ ['*'], rfl⟩
    rw [List.cons_append, throughComment?.eq_3 _ _ other, ih later]
    rfl

/-! ### Numbers -/

/-- Digits. -/
structure IsDigits (s : List Char) : Prop where
  nonempty : s ≠ []
  digits : ∀ c ∈ s, c.isDigit = true

/-- Digits, and maybe a point and more digits. -/
inductive IsUnsigned : List Char → Prop
  | whole {s : List Char} : IsDigits s → IsUnsigned s
  | fraction {s t : List Char} : IsDigits s → IsDigits t → IsUnsigned (s ++ '.' :: t)

/-- An unsigned number, maybe behind a minus. -/
inductive IsNumber : List Char → Prop
  | plain {s : List Char} : IsUnsigned s → IsNumber s
  | negative {s : List Char} : IsUnsigned s → IsNumber ('-' :: s)

theorem isWordChar_of_isDigit {c : Char} (digit : c.isDigit = true) : isWordChar c = true := by
  simp [isWordChar, Char.isAlphanum, digit]

theorem Stops.isDigit {after : List Char} (stops : Stops isWordChar after) :
    Stops Char.isDigit after := by
  intro c first
  refine Bool.eq_false_iff.mpr fun digit => ?_
  have word := isWordChar_of_isDigit digit
  rw [stops c first] at word
  contradiction

theorem isDigits_of_run? {text : List Char} {cut : List Char × List Char}
    (found : run? Char.isDigit text = some cut) : IsDigits cut.1 :=
  ⟨(run?_eq_some found).2, (inClass_of_run? found).1⟩

theorem IsDigits.run?_append {s after : List Char} (digits : IsDigits s)
    (stops : Stops Char.isDigit after) : run? Char.isDigit (s ++ after) = some (s, after) :=
  Wireframe.run?_append digits.nonempty digits.digits stops

theorem isUnsigned_of_digits? {text : List Char} {cut : List Char × List Char}
    (found : digits? text = some cut) : IsUnsigned cut.1 := by
  obtain ⟨whole, run, rfl⟩ := Option.map_eq_some_iff.1 found
  have digits := isDigits_of_run? run
  unfold fraction
  split
  · split
    · next more => exact .fraction digits (isDigits_of_run? more)
    · simpa using IsUnsigned.whole digits
  · simpa using IsUnsigned.whole digits

theorem fraction_of_ne_point {text : List Char} (point : text.head? ≠ some '.') :
    fraction text = ([], text) := by
  unfold fraction
  split
  · simp at point
  · rfl

theorem digits?_append {s after : List Char} (unsigned : IsUnsigned s) (ends : EndsWord after) :
    digits? (s ++ after) = some (s, after) := by
  cases unsigned with
  | whole digits =>
    rw [digits?, digits.run?_append ends.word.isDigit, Option.map_some,
      fraction_of_ne_point ends.point, List.append_nil]
  | @fraction s t digits more =>
    have stops : Stops Char.isDigit ('.' :: (t ++ after)) := stops_cons.mpr rfl
    rw [List.append_assoc, List.cons_append, digits?, digits.run?_append stops, Option.map_some,
      fraction, more.run?_append ends.word.isDigit]

theorem isNumber_of_number? {text : List Char} {cut : List Char × List Char}
    (found : number? text = some cut) : IsNumber cut.1 ∧ Stops isWordChar cut.2 := by
  obtain ⟨found, ends⟩ := Option.filter_eq_some_iff.1 found
  refine ⟨?_, wordEnds_iff.mp ends⟩
  split at found
  · obtain ⟨inner, digits, rfl⟩ := Option.map_eq_some_iff.1 found
    exact .negative (isUnsigned_of_digits? digits)
  · exact .plain (isUnsigned_of_digits? found)

theorem IsUnsigned.exists_cons {s : List Char} (unsigned : IsUnsigned s) :
    ∃ c rest, s = c :: rest ∧ c.isDigit = true := by
  have first : ∀ {s : List Char}, IsDigits s → ∃ c rest, s = c :: rest ∧ c.isDigit = true := by
    intro s digits
    obtain ⟨c, rest, rfl⟩ := List.exists_cons_of_ne_nil digits.nonempty
    exact ⟨c, rest, rfl, digits.digits c List.mem_cons_self⟩
  cases unsigned with
  | whole digits => exact first digits
  | fraction digits _ =>
    obtain ⟨c, rest, rfl, digit⟩ := first digits
    exact ⟨c, _, rfl, digit⟩

/-- A number is found again in front of any text that goes on with neither a word nor a point. -/
theorem number?_append {s after : List Char} (number : IsNumber s) (ends : EndsWord after) :
    number? (s ++ after) = some (s, after) := by
  refine Option.filter_eq_some_iff.2 ⟨?_, wordEnds_iff.mpr ends.word⟩
  cases number with
  | plain unsigned =>
    obtain ⟨c, rest, rfl, digit⟩ := unsigned.exists_cons
    split
    · next split =>
      obtain ⟨rfl, -⟩ := List.cons.inj split
      contradiction
    · exact digits?_append unsigned ends
  | negative unsigned =>
    simp only [List.cons_append, digits?_append unsigned ends, Option.map_some]

/-- The characters of a number. -/
theorem IsNumber.mem {s : List Char} (number : IsNumber s) :
    ∀ c ∈ s, isWordChar c = true ∨ c = '.' := by
  have ofUnsigned : ∀ {s : List Char}, IsUnsigned s → ∀ c ∈ s, isWordChar c = true ∨ c = '.' := by
    intro s unsigned c inside
    cases unsigned with
    | whole digits => exact .inl (isWordChar_of_isDigit (digits.digits c inside))
    | fraction digits more =>
      rcases List.mem_append.mp inside with first | rest
      · exact .inl (isWordChar_of_isDigit (digits.digits c first))
      · rcases List.mem_cons.mp rest with rfl | rest
        · exact .inr rfl
        · exact .inl (isWordChar_of_isDigit (more.digits c rest))
  intro c inside
  cases number with
  | plain unsigned => exact ofUnsigned unsigned c inside
  | negative unsigned =>
    rcases List.mem_cons.mp inside with rfl | inside
    · exact .inl rfl
    · exact ofUnsigned unsigned c inside

/-! ### Strings -/

/-- What is read through a closing quote does not depend on what follows. -/
theorem throughString?_append {text : List Char} {cut : List Char × List Char}
    (found : throughString? text = some cut) (after : List Char) :
    throughString? (text ++ after) = some (cut.1, cut.2 ++ after) := by
  fun_induction throughString? text generalizing cut with
  | case1 => contradiction
  | case2 rest =>
    obtain rfl := Option.some.inj found
    rfl
  | case3 => contradiction
  | case4 c rest inLine ih =>
    obtain ⟨inner, read, rfl⟩ := Option.map_eq_some_iff.1 found
    rw [List.cons_append, List.cons_append, throughString?, if_neg inLine, ih read]
    rfl
  | case5 => contradiction
  | case6 c rest quote pair plain ih =>
    obtain ⟨inner, read, rfl⟩ := Option.map_eq_some_iff.1 found
    have single : ∀ d tail, c = '\\' → rest ++ after = d :: tail → False := by
      rintro d tail rfl -
      simp at plain
    rw [List.cons_append, throughString?.eq_4 _ _ quote single, if_neg plain, ih read]
    rfl

/-- A string that was read through its closing quote is read through by itself. -/
theorem throughString?_self {text : List Char} {cut : List Char × List Char}
    (found : throughString? text = some cut) : throughString? cut.1 = some (cut.1, []) := by
  fun_induction throughString? text generalizing cut with
  | case1 => contradiction
  | case2 rest =>
    obtain rfl := Option.some.inj found
    rfl
  | case3 => contradiction
  | case4 c rest inLine ih =>
    obtain ⟨inner, read, rfl⟩ := Option.map_eq_some_iff.1 found
    simp only [throughString?, if_neg inLine, ih read, Option.map_some]
  | case5 => contradiction
  | case6 c rest quote pair plain ih =>
    obtain ⟨inner, read, rfl⟩ := Option.map_eq_some_iff.1 found
    have single : ∀ d tail, c = '\\' → inner.1 = d :: tail → False := by
      rintro d tail rfl -
      simp at plain
    rw [throughString?.eq_4 _ _ quote single, if_neg plain, ih read]
    rfl

/-! ### Tokens -/

/-- The form of a token. A word is a name only if it is neither a keyword nor a number. -/
def Token.Proper : Token → Prop
  | .keyword _ | .mark _ => True
  | .string raw => ∃ body, raw.toList = '"' :: body ∧ throughString? body = some (body, [])
  | .number raw => IsNumber raw.toList
  | .color raw => ∃ digits, raw.toList = '#' :: digits ∧ digits ≠ [] ∧
      ∀ c ∈ digits, isHexDigit c = true
  | .name raw => raw.toList ≠ [] ∧ (∀ c ∈ raw.toList, isWordChar c = true) ∧
      raw.toList.head? ≠ some '-' ∧ Keyword.ofText? raw = none ∧ ¬ IsNumber raw.toList

/-- Whether a token ends in front of a text. Strings and marks always do. -/
def Token.EndsBefore (t : Token) (after : List Char) : Prop :=
  match t with
  | .string _ | .mark _ => True
  | _ => EndsWord after

/-! ### Pieces in front of the rest of a text -/

/-- A piece has its form and ends in front of the rest of a text. Of a token this is only known if
no point follows, since a word with a point behind it may be the first part of a number. -/
def Piece.Formed (cut : Piece × List Char) : Prop :=
  match cut.1 with
  | .trivia s => IsTrivia cut.2 s
  | .token t => cut.2.head? ≠ some '.' → t.Proper ∧ t.EndsBefore cut.2
  | .openString _ | .openComment _ | .stray _ => True

section Formed

variable {text : List Char} {cut : Piece × List Char}

theorem trivia?_formed (found : trivia? text = some cut) : Piece.Formed cut := by
  unfold trivia? at found
  split at found
  · obtain rfl := Option.some.inj found
    refine IsTrivia.lineComment (fun c inside => ?_) ?_
    · simpa using List.mem_takeWhile_imp inside
    · next text =>
      cases split : text.dropWhile (· != '\n') with
      | nil => exact .inl rfl
      | cons c rest =>
        have stops := stops_dropWhile (· != '\n') text
        rw [split, stops_cons] at stops
        exact .inr (by simpa using stops)
  · split at found
    · next ended =>
      obtain rfl := Option.some.inj found
      obtain ⟨body, taken, first⟩ := throughComment?_body ended
      simp only at taken
      rw [taken]
      exact IsTrivia.blockComment first
    · obtain rfl := Option.some.inj found
      trivial
  · obtain ⟨inner, run, rfl⟩ := Option.map_eq_some_iff.1 found
    exact IsTrivia.blanks (inClass_of_run? run).1

theorem string?_formed (found : string? text = some cut) : Piece.Formed cut := by
  unfold string? at found
  split at found
  · split at found
    · next closed =>
      obtain rfl := Option.some.inj found
      exact fun _ => ⟨⟨_, String.toList_ofList, throughString?_self closed⟩, trivial⟩
    · obtain rfl := Option.some.inj found
      trivial
  · contradiction

theorem color?_formed (found : color? text = some cut) : Piece.Formed cut := by
  unfold color? at found
  split at found
  · obtain ⟨inner, whole, rfl⟩ := Option.map_eq_some_iff.1 found
    obtain ⟨run, ends⟩ := Option.filter_eq_some_iff.1 whole
    have digits := (inClass_of_run? run).1
    exact fun point => ⟨⟨inner.1, String.toList_ofList, (run?_eq_some run).2, digits⟩,
      wordEnds_iff.mp ends, point⟩
  · contradiction

theorem keyword?_formed (found : keyword? text = some cut) : Piece.Formed cut := by
  obtain ⟨inner, run, named⟩ := Option.bind_eq_some_iff.1 found
  obtain ⟨word, -, rfl⟩ := Option.map_eq_some_iff.1 named
  exact fun point => ⟨trivial, (inClass_of_run? run).2, point⟩

theorem number?_formed {cut : List Char × List Char} (found : number? text = some cut) :
    Piece.Formed (.token (.number (String.ofList cut.1)), cut.2) := by
  obtain ⟨number, ends⟩ := isNumber_of_number? found
  refine fun point => ⟨?_, ends, point⟩
  simpa [Token.Proper] using number

/-- A word is a name only if it is neither a keyword nor a number. -/
theorem name?_formed (noKeyword : keyword? text = none) (noNumber : number? text = none)
    (found : name? text = some cut) : Piece.Formed cut := by
  obtain ⟨inner, whole, rfl⟩ := Option.map_eq_some_iff.1 found
  obtain ⟨run, minus⟩ := Option.filter_eq_some_iff.1 whole
  obtain ⟨inside, stops⟩ := inClass_of_run? run
  obtain ⟨joined, nonempty⟩ := run?_eq_some run
  intro point
  have ends : EndsWord inner.2 := ⟨stops, point⟩
  refine ⟨⟨by simpa using nonempty, by simpa using inside, by simpa using minus, ?_, ?_⟩, ends⟩
  · rw [keyword?, run] at noKeyword
    simpa using noKeyword
  · -- Had the word the form of a number, it would have been read as one.
    intro number
    rw [String.toList_ofList] at number
    rw [← joined, number?_append number ends] at noNumber
    contradiction

theorem mark?_formed (found : mark? text = some cut) : Piece.Formed cut := by
  unfold mark? at found
  split at found
  · contradiction
  · obtain ⟨sign, -, rfl⟩ := Option.map_eq_some_iff.1 found
    exact fun _ => ⟨trivial, trivial⟩

end Formed

/-- What kind of piece is found at the head of a text. A word is a name only if it is neither a
keyword nor a number. -/
inductive Piece.Found (text : List Char) : Piece × List Char → Prop
  | trivia {cut : Piece × List Char} : trivia? text = some cut → Found text cut
  | string {cut : Piece × List Char} : string? text = some cut → Found text cut
  | color {cut : Piece × List Char} : color? text = some cut → Found text cut
  | keyword {cut : Piece × List Char} : keyword? text = some cut → Found text cut
  | number {cut : List Char × List Char} : number? text = some cut →
      Found text (.token (.number (String.ofList cut.1)), cut.2)
  | name {cut : Piece × List Char} : keyword? text = none → number? text = none →
      name? text = some cut → Found text cut
  | mark {cut : Piece × List Char} : mark? text = some cut → Found text cut

/-- At the head of a text there is a stray character, or a piece of a kind is found. -/
theorem next_found (c : Char) (rest : List Char) :
    next c rest = (.stray [c], rest) ∨ Piece.Found (c :: rest) (next c rest) := by
  unfold next
  simp only
  -- What is found is the first hit of the kinds in turn. Only of a name it matters what was not.
  generalize hfound : Option.or _ _ = found
  cases found with
  | none => exact .inl rfl
  | some cut =>
    refine .inr ?_
    simp only [Option.or_eq_some_iff] at hfound
    rcases hfound with h | ⟨-, h⟩
    · rcases h with h | ⟨before, h⟩
      · rcases h with h | ⟨-, h⟩
        · rcases h with h | ⟨-, h⟩
          · rcases h with h | ⟨-, h⟩
            · rcases h with h | ⟨-, h⟩
              · exact .trivia h
              · exact .string h
            · exact .color h
          · exact .keyword h
        · obtain ⟨inner, number, rfl⟩ := Option.map_eq_some_iff.1 h
          exact .number number
      · simp only [Option.or_eq_none_iff, Option.map_eq_none_iff] at before
        exact .name before.1.2 before.2 h
    · exact .mark h

/-- What is cut off a text has its form and ends in front of the rest. -/
theorem next_formed (c : Char) (rest : List Char) : Piece.Formed (next c rest) := by
  have kind := next_found c rest
  generalize next c rest = cut at kind
  rcases kind with rfl | found
  · trivial
  · cases found with
    | trivia h => exact trivia?_formed h
    | string h => exact string?_formed h
    | color h => exact color?_formed h
    | keyword h => exact keyword?_formed h
    | number h => exact number?_formed h
    | name noKeyword noNumber h => exact name?_formed noKeyword noNumber h
    | mark h => exact mark?_formed h

/-- A piece is made of the characters of words if it is a name. -/
def Piece.IsWord : Piece → Prop
  | .token (.name raw) => ∀ c ∈ raw.toList, isWordChar c = true
  | _ => True

/-- Names are made of the characters of words, whatever follows them. -/
theorem next_isWord (c : Char) (rest : List Char) : (next c rest).1.IsWord := by
  have kind := next_found c rest
  generalize next c rest = cut at kind
  rcases kind with rfl | found
  · trivial
  cases found with
  | number => trivial
  | trivia h =>
    unfold trivia? at h
    split at h
    · cases h
      trivial
    · split at h <;> cases h <;> trivial
    · obtain ⟨inner, -, rfl⟩ := Option.map_eq_some_iff.1 h
      trivial
  | string h =>
    unfold string? at h
    split at h
    · split at h <;> cases h <;> trivial
    · contradiction
  | color h =>
    unfold color? at h
    split at h
    · obtain ⟨inner, -, rfl⟩ := Option.map_eq_some_iff.1 h
      trivial
    · contradiction
  | keyword h =>
    obtain ⟨inner, -, named⟩ := Option.bind_eq_some_iff.1 h
    obtain ⟨word, -, rfl⟩ := Option.map_eq_some_iff.1 named
    trivial
  | name _ _ h =>
    obtain ⟨inner, whole, rfl⟩ := Option.map_eq_some_iff.1 h
    obtain ⟨run, -⟩ := Option.filter_eq_some_iff.1 whole
    simpa [Piece.IsWord] using (inClass_of_run? run).1
  | mark h =>
    unfold mark? at h
    split at h
    · contradiction
    · obtain ⟨sign, -, rfl⟩ := Option.map_eq_some_iff.1 h
      trivial

theorem isTrivia_of_next {c : Char} {rest s after : List Char}
    (cut : next c rest = (.trivia s, after)) : IsTrivia after s := by
  have formed := next_formed c rest
  rwa [cut] at formed

/-- A token that no point follows has its form and ends where the rest of the text begins. -/
theorem proper_of_next {c : Char} {rest after : List Char} {t : Token}
    (cut : next c rest = (.token t, after)) (point : after.head? ≠ some '.') :
    t.Proper ∧ t.EndsBefore after := by
  have formed := next_formed c rest
  rw [cut] at formed
  exact formed point

/-! ### Places -/

theorem map_fst_place (ps : List Piece) (start : Nat) : (place start ps).map Prod.fst = ps := by
  induction ps generalizing start with
  | nil => rfl
  | cons p ps ih => rw [place, List.map_cons, ih]

end Wireframe
