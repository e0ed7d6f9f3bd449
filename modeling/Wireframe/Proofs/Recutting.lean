import Wireframe.Proofs.PieceForm

/-!
# Cutting a text again

A row of pieces in which each has its form and may be followed by the next one is cut out of its own
text again, however it was put together. So tokens may be moved, and trivia changed between them,
as long as every token still ends where it did.

## Main definitions

* `significant` — the pieces that are no trivia.
* `WellCut` — a row of pieces that are trivia or tokens, each in its form and rightly followed.

## Main results

* `significant_cuts` — a well cut row of pieces is cut out of its text again.
* `wellCut_cuts` — a text in which nothing is wrong is well cut.
* `scan_of_wellCut` — the tokens of a well cut row are those of its text.
-/

namespace Wireframe

open Piece

/-! ### The first piece -/

theorem trivia?_eq_none {c : Char} {rest : List Char} (blank : isBlank c = false)
    (slash : c ≠ '/') : trivia? (c :: rest) = none := by
  unfold trivia?
  split
  · next split => exact absurd (List.cons.inj split).1 slash
  · next split => exact absurd (List.cons.inj split).1 slash
  · rw [run?_eq_none (stops_cons.mpr blank), Option.map_none]

theorem string?_eq_none {c : Char} {rest : List Char} (quote : c ≠ '"') :
    string? (c :: rest) = none := by
  unfold string?
  split
  · next split => exact absurd (List.cons.inj split).1 quote
  · rfl

theorem color?_eq_none {c : Char} {rest : List Char} (hash : c ≠ '#') :
    color? (c :: rest) = none := by
  unfold color?
  split
  · next split => exact absurd (List.cons.inj split).1 hash
  · rfl

/-- A character at which neither trivia nor a string nor a color begins. -/
structure StartsPlain (c : Char) : Prop where
  blank : isBlank c = false
  slash : c ≠ '/'
  quote : c ≠ '"'
  hash : c ≠ '#'

theorem StartsPlain.next {c : Char} (plain : StartsPlain c) (rest : List Char) :
    next c rest = ((((keyword? (c :: rest)).or ((number? (c :: rest)).map fun cut =>
      (.token (.number (String.ofList cut.1)), cut.2))).or (name? (c :: rest))).or
        (mark? (c :: rest))).getD (.stray [c], rest) := by
  simp only [Piece.next, trivia?_eq_none plain.blank plain.slash, string?_eq_none plain.quote,
    color?_eq_none plain.hash, Option.none_or]

theorem startsPlain_of_isWordChar {c : Char} (word : isWordChar c = true) : StartsPlain c := by
  have other : ∀ d, isWordChar d = false → c ≠ d := by
    rintro d no rfl
    rw [word] at no
    contradiction
  refine ⟨?_, other '/' rfl, other '"' rfl, other '#' rfl⟩
  simp [isBlank, other ' ' rfl, other '\t' rfl, other '\r' rfl, other '\n' rfl]

theorem IsNumber.exists_cons {s : List Char} (number : IsNumber s) :
    ∃ c rest, s = c :: rest ∧ isWordChar c = true ∧ c.isAlpha = false := by
  cases number with
  | plain unsigned =>
    obtain ⟨c, rest, rfl, digit⟩ := unsigned.exists_cons
    exact ⟨c, rest, rfl, isWordChar_of_isDigit digit, isAlpha_eq_false_of_isDigit digit⟩
  | negative _ => exact ⟨_, _, rfl, rfl, rfl⟩

theorem number?_eq_none_of_not_word {c : Char} {rest : List Char} (word : isWordChar c = false) :
    number? (c :: rest) = none := by
  refine Option.eq_none_iff_forall_ne_some.mpr fun cut found => ?_
  obtain ⟨d, tail, split, inWord, -⟩ := (isNumber_of_number? found).1.exists_cons
  have joined := (number?_eq_some found).1
  rw [split] at joined
  obtain ⟨rfl, -⟩ := List.cons.inj joined
  rw [word] at inWord
  contradiction

/-- Outside of words only marks are left. -/
theorem StartsPlain.next_of_not_word {c : Char} (plain : StartsPlain c)
    (word : isWordChar c = false) (rest : List Char) :
    Piece.next c rest = (mark? (c :: rest)).getD (.stray [c], rest) := by
  have run : run? isWordChar (c :: rest) = none := run?_eq_none (stops_cons.mpr word)
  rw [plain.next, number?_eq_none_of_not_word word, keyword?, run, name?, run]
  rfl

theorem next_point (rest : List Char) : next '.' rest = (.stray ['.'], rest) :=
  StartsPlain.next_of_not_word ⟨rfl, by decide, by decide, by decide⟩ rfl rest

/-- Blanks in front of a text are cut off together. -/
theorem next_blank {c : Char} (rest : List Char) (blank : isBlank c = true) :
    Piece.next c rest = (.trivia (c :: rest.takeWhile isBlank), rest.dropWhile isBlank) := by
  have slash : c ≠ '/' := by
    rintro rfl
    contradiction
  have found : trivia? (c :: rest) =
      some (.trivia (c :: rest.takeWhile isBlank), rest.dropWhile isBlank) := by
    rw [trivia?.eq_3 _ (fun _ same => slash (List.cons.inj same).1)
      (fun _ same => slash (List.cons.inj same).1)]
    simp [run?, blank]
  simp only [Piece.next, found, Option.some_or, Option.getD_some]

theorem Keyword.ofText?_text (word : Keyword) : Keyword.ofText? word.text = some word := by
  cases word <;> rfl

theorem Keyword.toList_text (word : Keyword) :
    (∃ c rest, word.text.toList = c :: rest ∧ c.isAlpha = true) ∧
      ∀ c ∈ word.text.toList, isWordChar c = true := by
  cases word <;> exact ⟨⟨_, _, rfl, rfl⟩, List.all_eq_true.mp rfl⟩

/-- No keyword begins with a digit or a minus. -/
theorem keyword?_eq_none {c : Char} {rest : List Char} (alpha : c.isAlpha = false) :
    keyword? (c :: rest) = none := by
  refine Option.eq_none_iff_forall_ne_some.mpr fun cut found => ?_
  obtain ⟨inner, run, named⟩ := Option.bind_eq_some_iff.1 found
  obtain ⟨word, same, -⟩ := Option.map_eq_some_iff.1 named
  have text : word.text = String.ofList inner.1 := by
    simpa using List.find?_some same
  obtain ⟨⟨d, tail, split, letter⟩, -⟩ := word.toList_text
  have joined := (run?_eq_some run).1
  rw [text, String.toList_ofList] at split
  rw [split] at joined
  obtain ⟨rfl, -⟩ := List.cons.inj joined
  rw [alpha] at letter
  contradiction

theorem keyword?_append {w after : List Char} (nonempty : w ≠ [])
    (inside : ∀ c ∈ w, isWordChar c = true) (stops : Stops isWordChar after) :
    keyword? (w ++ after) =
      (Keyword.ofText? (String.ofList w)).map fun word => (.token (.keyword word), after) := by
  rw [keyword?, run?_append nonempty inside stops]
  rfl

/-- A word that is no number is not read as one in front of any text that does not go on with it. -/
theorem number?_eq_none {w after : List Char} (inside : ∀ c ∈ w, isWordChar c = true)
    (number : ¬ IsNumber w) (ends : EndsWord after) : number? (w ++ after) = none := by
  refine Option.eq_none_iff_forall_ne_some.mpr fun cut found => ?_
  obtain ⟨form, stops⟩ := isNumber_of_number? found
  rcases List.append_eq_append_iff.mp (number?_eq_some found).1 with
    ⟨more, word, rest⟩ | ⟨more, whole, rest⟩
  · -- The number would be a part of the word, but a number has to end where a word ends.
    cases more with
    | nil =>
      rw [List.append_nil] at word
      exact number (word ▸ form)
    | cons c more =>
      have goesOn := inside c (by simp [word])
      rw [rest, List.cons_append, stops_cons, goesOn] at stops
      contradiction
  · -- The number would go on behind the word.
    cases more with
    | nil =>
      rw [List.append_nil] at whole
      exact number (whole ▸ form)
    | cons c more =>
      have first : after.head? = some c := by rw [rest]; rfl
      rcases form.mem c (by simp [whole]) with word | rfl
      · rw [ends.word c first] at word
        contradiction
      · exact ends.point first

theorem isWordChar_of_isHexDigit {c : Char} (digit : isHexDigit c = true) :
    isWordChar c = true := by
  have isWord : c.isAlphanum = true → isWordChar c = true := fun alphanum => by
    simp [isWordChar, alphanum]
  simp only [isHexDigit, Bool.or_eq_true, Bool.and_eq_true, decide_eq_true_eq] at digit
  refine isWord ?_
  rcases digit with (digit | ⟨low, high⟩) | ⟨low, high⟩
  · rw [Char.isAlphanum, digit, Bool.or_true]
  · exact (isAlphanum_iff c).mpr (.inr (.inl ⟨low, Char.le_trans high (by decide)⟩))
  · exact (isAlphanum_iff c).mpr (.inl ⟨low, Char.le_trans high (by decide)⟩)

theorem Stops.isHexDigit {after : List Char} (stops : Stops isWordChar after) :
    Stops isHexDigit after := by
  intro c first
  refine Bool.eq_false_iff.mpr fun digit => ?_
  have word := isWordChar_of_isHexDigit digit
  rw [stops c first] at word
  contradiction

/-- A token in its form is the first piece of any text in front of which it ends. -/
theorem next_of_proper {t : Token} {c : Char} {rest after : List Char} (proper : t.Proper)
    (ends : t.EndsBefore after) (text : t.text.toList ++ after = c :: rest) :
    next c rest = (.token t, after) := by
  -- A word is read by its first character, of which it only matters that it belongs to words.
  have ofWord : ∀ {w : List Char}, w ≠ [] → (∀ d ∈ w, isWordChar d = true) →
      w ++ after = c :: rest → StartsPlain c := by
    intro w nonempty inside split
    obtain ⟨d, w, rfl⟩ := List.exists_cons_of_ne_nil nonempty
    obtain ⟨rfl, -⟩ := List.cons.inj split
    exact startsPlain_of_isWordChar (inside d List.mem_cons_self)
  cases t with
  | keyword word =>
    obtain ⟨⟨d, tail, split, -⟩, inside⟩ := word.toList_text
    have nonempty : word.text.toList ≠ [] := by simp [split]
    rw [(ofWord nonempty inside text).next, ← text]
    rw [Token.text, keyword?_append nonempty inside ends.word, String.ofList_toList,
      Keyword.ofText?_text]
    rfl
  | string raw =>
    obtain ⟨body, shape, closed⟩ := proper
    simp only [Token.text, shape, List.cons_append, List.cons.injEq] at text
    obtain ⟨rfl, rfl⟩ := text
    have trivia : trivia? ('"' :: (body ++ after)) = none := trivia?_eq_none rfl (by decide)
    have found : string? ('"' :: (body ++ after)) = some (.token (.string raw), after) := by
      rw [string?, throughString?_append closed after]
      simp [← shape]
    simp only [Piece.next, trivia, found, Option.none_or, Option.some_or, Option.getD_some]
  | number raw =>
    have number : IsNumber raw.toList := proper
    obtain ⟨d, tail, split, word, alpha⟩ := number.exists_cons
    simp only [Token.text] at text
    have found := number?_append number ends
    rw [text] at found
    rw [split, List.cons_append] at text
    obtain ⟨rfl, -⟩ := List.cons.inj text
    rw [(startsPlain_of_isWordChar word).next, keyword?_eq_none alpha, found]
    simp
  | color raw =>
    obtain ⟨digits, shape, nonempty, inside⟩ := proper
    simp only [Token.text, shape, List.cons_append, List.cons.injEq] at text
    obtain ⟨rfl, rfl⟩ := text
    have trivia : trivia? ('#' :: (digits ++ after)) = none := trivia?_eq_none rfl (by decide)
    have string : string? ('#' :: (digits ++ after)) = none := string?_eq_none (by decide)
    have found : color? ('#' :: (digits ++ after)) = some (.token (.color raw), after) := by
      have whole : wordEnds after = true := wordEnds_iff.mpr ends.word
      simp only [color?, run?_append nonempty inside ends.word.isHexDigit, Option.filter_some,
        whole, if_true, Option.map_some, ← shape, String.ofList_toList]
    simp only [Piece.next, trivia, string, found, Option.none_or, Option.some_or,
      Option.getD_some]
  | name raw =>
    obtain ⟨nonempty, inside, minus, noKeyword, noNumber⟩ := proper
    simp only [Token.text] at text
    have keyword := keyword?_append nonempty inside ends.word
    have number := number?_eq_none inside noNumber ends
    have name : name? (raw.toList ++ after) = some (.token (.name raw), after) := by
      have opens : (raw.toList.head? != some '-') = true := by simpa using minus
      simp only [name?, run?_append nonempty inside ends.word, Option.filter_some, opens, if_true,
        Option.map_some, String.ofList_toList]
    rw [String.ofList_toList, noKeyword] at keyword
    rw [text] at keyword number name
    rw [(ofWord nonempty inside text).next, keyword, number, name]
    rfl
  | mark sign =>
    have shape : (Token.mark sign).text.toList = [sign.char] := by simp [Token.text, Char.toString]
    rw [shape] at text
    obtain ⟨rfl, rfl⟩ := List.cons.inj text
    cases sign <;>
      exact StartsPlain.next_of_not_word ⟨rfl, by decide, by decide, by decide⟩ rfl after

theorem Token.Proper.ne_nil {t : Token} (proper : t.Proper) : t.text.toList ≠ [] := by
  cases t with
  | keyword word =>
    obtain ⟨⟨c, rest, split, -⟩, -⟩ := word.toList_text
    simp [Token.text, split]
  | string raw =>
    obtain ⟨body, shape, -⟩ := proper
    simp [Token.text, shape]
  | number raw =>
    obtain ⟨c, rest, split, -⟩ := IsNumber.exists_cons proper
    simp [Token.text, split]
  | color raw =>
    obtain ⟨digits, shape, -⟩ := proper
    simp [Token.text, shape]
  | name raw => exact proper.1
  | mark sign => simp [Token.text, Char.toString]

/-- A token in its form is cut off any text in front of which it ends. -/
theorem cuts_token {t : Token} {after : List Char} (proper : t.Proper)
    (ends : t.EndsBefore after) : cuts (t.text.toList ++ after) = .token t :: cuts after := by
  obtain ⟨c, rest, split⟩ := List.exists_cons_of_ne_nil
    (List.append_ne_nil_of_left_ne_nil proper.ne_nil after)
  rw [split, cuts, next_of_proper proper ends split]

/-! ### Significant pieces -/

/-- The pieces that are no trivia. -/
def significant (ps : List Piece) : List Piece :=
  ps.filter Piece.isSignificant

theorem significant_trivia (s : List Char) (ps : List Piece) :
    significant (.trivia s :: ps) = significant ps :=
  rfl

theorem significant_token (t : Token) (ps : List Piece) :
    significant (.token t :: ps) = .token t :: significant ps :=
  rfl

theorem cuts_of_trivia? {text after s : List Char} (found : trivia? text = some (.trivia s, after))
    : significant (cuts text) = significant (cuts after) := by
  obtain ⟨joined, nonempty⟩ := trivia?_splits found
  obtain ⟨c, rest, rfl⟩ : ∃ c rest, text = c :: rest := by
    refine List.exists_cons_of_ne_nil ?_
    rw [← joined]
    exact List.append_ne_nil_of_left_ne_nil nonempty after
  have first : Piece.next c rest = (.trivia s, after) := by
    simp only [Piece.next, found, Option.some_or, Option.getD_some]
  rw [cuts, first, significant_trivia]

/-- A blank in front of a text adds no piece that is not trivia. -/
theorem significant_cuts_blank {c : Char} (text : List Char) (blank : isBlank c = true) :
    significant (cuts (c :: text)) = significant (cuts text) := by
  rw [cuts, next_blank text blank, significant_trivia]
  -- The whole run of blanks is cut off, with and without its first one.
  cases text with
  | nil => rfl
  | cons d rest =>
    by_cases more : isBlank d = true
    · rw [cuts, next_blank rest more, significant_trivia, List.dropWhile_cons_of_pos more]
    · rw [List.dropWhile_cons_of_neg more]

/-- Trivia add no other piece to the text in front of which they end. -/
theorem significant_cuts_trivia {s after : List Char} (trivia : IsTrivia after s) :
    significant (cuts (s ++ after)) = significant (cuts after) := by
  cases trivia with
  | blanks blank =>
    induction s with
    | nil => rfl
    | cons c s ih =>
      obtain ⟨first, others⟩ := List.forall_mem_cons.mp blank
      rw [List.cons_append, significant_cuts_blank _ first, ih others]
  | @lineComment body inLine stops =>
    refine cuts_of_trivia? (s := '/' :: '/' :: body) ?_
    have inside : ∀ c ∈ body, (c != '\n') = true := by simpa using inLine
    have ends : Stops (· != '\n') after := by
      rcases stops with rfl | first
      · exact stops_nil
      · intro c found
        obtain rfl := Option.some.inj (found.symm.trans first)
        rfl
    rw [List.cons_append, List.cons_append, trivia?, ends.takeWhile_append inside,
      ends.dropWhile_append inside]
  | @blockComment body first =>
    refine cuts_of_trivia? (s := '/' :: '*' :: (body ++ ['*', '/'])) ?_
    have read := throughComment?_append after first
    simp only [List.cons_append, List.append_assoc, List.nil_append, trivia?, read]

/-! ### In front of blanks -/

theorem endsWord_cons {c : Char} {rest : List Char} (word : isWordChar c = false)
    (point : c ≠ '.') : EndsWord (c :: rest) :=
  ⟨stops_cons.mpr word, by simpa using point⟩

theorem endsWord_blank {c : Char} (blank : isBlank c = true) (rest : List Char) :
    EndsWord (c :: rest) := by
  simp only [isBlank, Bool.or_eq_true, beq_iff_eq] at blank
  rcases blank with ((rfl | rfl) | rfl) | rfl
  all_goals exact endsWord_cons rfl (by decide)

theorem Token.endsBefore_of_endsWord (t : Token) {after : List Char} (ends : EndsWord after) :
    t.EndsBefore after := by
  cases t with
  | string | mark => trivial
  | keyword | number | color | name => exact ends

/-- Every token ends in front of a blank. -/
theorem Token.endsBefore_blank (t : Token) {c : Char} (blank : isBlank c = true)
    (rest : List Char) : t.EndsBefore (c :: rest) :=
  t.endsBefore_of_endsWord (endsWord_blank blank rest)

theorem Token.endsBefore_nil (t : Token) : t.EndsBefore [] :=
  t.endsBefore_of_endsWord ⟨stops_nil, nofun⟩

/-! ### Well cut rows -/

/-- A row of trivia and tokens in which each has its form and is rightly followed. -/
inductive WellCut : List Piece → Prop
  | nil : WellCut []
  | trivia {s : List Char} {others : List Piece} : IsTrivia (others.flatMap Piece.text) s →
      WellCut others → WellCut (.trivia s :: others)
  | token {t : Token} {others : List Piece} : t.Proper →
      t.EndsBefore (others.flatMap Piece.text) → WellCut others → WellCut (.token t :: others)

/-- A well cut row is cut out of its text again, up to how its trivia are cut. -/
theorem significant_cuts {ps : List Piece} (well : WellCut ps) :
    significant (cuts (ps.flatMap Piece.text)) = significant ps := by
  induction well with
  | nil => rw [List.flatMap_nil, cuts]
  | trivia form _ ih =>
    rw [List.flatMap_cons, significant_trivia, ← ih]
    exact significant_cuts_trivia form
  | token proper ends _ ih =>
    rw [List.flatMap_cons, significant_token, ← ih]
    exact congrArg significant (cuts_token proper ends)

/-- Whether a piece is trivia or a token. -/
def Piece.isClean : Piece → Bool
  | .trivia _ | .token _ => true
  | _ => false

/-- A text in which nothing is wrong is well cut. -/
theorem wellCut_cuts {text : List Char} (clean : ∀ p ∈ cuts text, p.isClean = true) :
    WellCut (cuts text) := by
  fun_induction cuts text with
  | case1 => exact .nil
  | case2 c rest ih =>
    obtain ⟨first, others⟩ := List.forall_mem_cons.mp clean
    -- A point behind the first piece would be a stray.
    have point : (Piece.next c rest).2.head? ≠ some '.' := by
      intro point
      obtain ⟨tail, split⟩ := List.head?_eq_some_iff.mp point
      rw [split, cuts, next_point] at others
      exact absurd (others (.stray ['.']) List.mem_cons_self) (by decide)
    generalize cut : Piece.next c rest = found at *
    obtain ⟨piece, after⟩ := found
    have whole := cuts_text after
    cases piece with
    | trivia s => exact .trivia (whole.symm ▸ isTrivia_of_next cut) (ih others)
    | token t =>
      obtain ⟨proper, ends⟩ := proper_of_next cut point
      exact .token proper (whole.symm ▸ ends) (ih others)
    | stray | openString | openComment => contradiction

/-! ### The tokens of a text -/

/-- The token that a piece is. -/
def Piece.token? : Piece → Option Token
  | .token t => some t
  | _ => none

section Scan

variable {text : List Char} {ps qs : List Piece}

theorem joinStrays_of_clean (clean : ∀ p ∈ ps, p.isClean = true) : joinStrays ps = ps := by
  fun_induction joinStrays ps with
  | case1 => rfl
  | case2 => simp [Piece.isClean] at clean
  | case3 => simp [Piece.isClean] at clean
  | case4 p others _ ih => rw [ih (List.forall_mem_cons.mp clean).2]

theorem clean_of_joinStrays (clean : ∀ p ∈ joinStrays ps, p.isClean = true) :
    ∀ p ∈ ps, p.isClean = true := by
  fun_induction joinStrays ps with
  | case1 => exact clean
  | case2 => simp [Piece.isClean] at clean
  | case3 => simp [Piece.isClean] at clean
  | case4 p others _ ih =>
    obtain ⟨first, rest⟩ := List.forall_mem_cons.mp clean
    exact List.forall_mem_cons.mpr ⟨first, ih rest⟩

theorem diagnostic?_eq_none_iff (index : LineIndex) (placed : Piece × Span) :
    Piece.diagnostic? index placed = none ↔ placed.1.isClean = true := by
  obtain ⟨piece, span⟩ := placed
  cases piece <;> simp [Piece.diagnostic?, Piece.isClean]

theorem token_lexeme? (index : LineIndex) (placed : Piece × Span) :
    (Piece.lexeme? index placed).map Lexeme.token = placed.1.token? := by
  obtain ⟨piece, span⟩ := placed
  cases piece <;> rfl

/-- Nothing is wrong with a text exactly if it falls into trivia and tokens. -/
theorem diagnostics_eq_nil_iff :
    (scan text).diagnostics = [] ↔ ∀ p ∈ cuts text, p.isClean = true := by
  have placed : (scan text).diagnostics = [] ↔ ∀ p ∈ pieces text, p.isClean = true := by
    rw [← map_fst_place (pieces text) 0, List.forall_mem_map]
    simp only [scan, List.filterMap_eq_nil_iff, diagnostic?_eq_none_iff]
  refine placed.trans ⟨clean_of_joinStrays, fun clean => ?_⟩
  rwa [pieces, joinStrays_of_clean clean]

theorem tokens_scan (clean : ∀ p ∈ cuts text, p.isClean = true) :
    (scan text).lexemes.map Lexeme.token = (cuts text).filterMap Piece.token? := by
  have placed : (scan text).lexemes.map Lexeme.token = (pieces text).filterMap Piece.token? := by
    rw [← map_fst_place (pieces text) 0, List.filterMap_map]
    simp only [scan, List.map_filterMap, token_lexeme?, Function.comp_def]
  rw [placed, pieces, joinStrays_of_clean clean]

theorem filterMap_significant : (significant ps).filterMap Piece.token? =
    ps.filterMap Piece.token? := by
  induction ps with
  | nil => rfl
  | cons p ps ih =>
    rw [significant] at ih
    cases p <;> simp [significant, Piece.isSignificant, Piece.token?, ih, List.filter_cons,
      List.filterMap_cons]

theorem clean_significant_iff :
    (∀ p ∈ significant ps, p.isClean = true) ↔ ∀ p ∈ ps, p.isClean = true := by
  induction ps with
  | nil => rfl
  | cons p ps ih =>
    cases p <;> simp_all [significant, Piece.isSignificant, Piece.isClean]

theorem WellCut.clean (well : WellCut ps) : ∀ p ∈ ps, p.isClean = true := by
  induction well with
  | nil => simp
  | trivia _ _ ih | token _ _ _ ih => exact List.forall_mem_cons.mpr ⟨rfl, ih⟩

theorem WellCut.proper {ps : List Piece} (well : WellCut ps) {t : Token}
    (inside : t ∈ ps.filterMap Piece.token?) : t.Proper := by
  induction well with
  | nil => contradiction
  | trivia _ _ ih => exact ih inside
  | token proper _ _ ih =>
    rcases List.mem_cons.mp inside with rfl | later
    · exact proper
    · exact ih later

/-- The tokens of a text in which nothing is wrong have their forms. -/
theorem proper_of_clean (clean : (scan text).diagnostics = []) :
    ∀ t ∈ (scan text).lexemes.map Lexeme.token, t.Proper := by
  have pieces := diagnostics_eq_nil_iff.mp clean
  rw [tokens_scan pieces]
  exact fun t inside => (wellCut_cuts pieces).proper inside

/-- Nothing is wrong with the text of a well cut row, and its tokens are those of the row. -/
theorem scan_of_wellCut (well : WellCut ps) :
    (scan (ps.flatMap Piece.text)).diagnostics = [] ∧
      (scan (ps.flatMap Piece.text)).lexemes.map Lexeme.token = ps.filterMap Piece.token? := by
  have same := significant_cuts well
  have clean : ∀ p ∈ cuts (ps.flatMap Piece.text), p.isClean = true := by
    rw [← clean_significant_iff, same, clean_significant_iff]
    exact well.clean
  refine ⟨diagnostics_eq_nil_iff.mpr clean, ?_⟩
  rw [tokens_scan clean, ← filterMap_significant, same, filterMap_significant]

end Scan

end Wireframe
