import Wireframe.Proofs.Literals

/-!
# Quoting texts

Any text without a carriage return can be written as a literal. A backslash, a quote, a line feed
and a tab are escaped. The lexer steps over every escape as a whole and finds the end of the literal
behind them, and resolving the escapes gives the text back.

## Main definitions

* `escapeChar`, `escape`, `quote` — a character, a text inside a literal, and the whole literal.

## Main results

* `unquote_quote` — a quoted text stands for itself.
* `throughString?_escape` — the lexer reads an escaped text through to the quote behind it.
* `quote_roundTrip` — a quoted text is one token, stands for itself, and is taken for a text.
-/

namespace Wireframe

open Piece

/-! ### Escapes -/

/-- A character as it is written inside a literal. -/
def escapeChar : Char → List Char
  | '\\' => ['\\', '\\']
  | '"' => ['\\', '"']
  | '\n' => ['\\', 'n']
  | '\t' => ['\\', 't']
  | c => [c]

/-- A text as it is written inside a literal. -/
def escape (text : List Char) : List Char :=
  text.flatMap escapeChar

/-- The literal that stands for a text. -/
def quote (s : String) : String :=
  String.ofList ('"' :: (escape s.toList ++ ['"']))

/-- A character is written as a backslash with another character that stands for it, or as itself if
it means nothing else inside a literal. -/
theorem escapeChar_cases (c : Char) :
    (∃ d, escapeChar c = ['\\', d] ∧ isLineEnd d = false ∧
      ∀ rest, unescape ('\\' :: d :: rest) = c :: unescape rest) ∨
      escapeChar c = [c] ∧ c ≠ '\\' ∧ c ≠ '"' ∧ c ≠ '\n' := by
  unfold escapeChar
  split
  case h_1 | h_2 | h_3 | h_4 => exact .inl ⟨_, rfl, rfl, fun _ => rfl⟩
  case h_5 backslash quotes lineFeed _ => exact .inr ⟨rfl, backslash, quotes, lineFeed⟩

theorem unescape_escapeChar (c : Char) (rest : List Char) :
    unescape (escapeChar c ++ rest) = c :: unescape rest := by
  obtain ⟨d, written, -, stands⟩ | ⟨written, backslash, -, -⟩ := escapeChar_cases c
  · rw [written]
    exact stands rest
  · rw [written, List.singleton_append, unescape.eq_8 c rest]
    · exact fun first _ => backslash first
    · exact fun _ _ first _ => backslash first

/-- Escaping a text and resolving the escapes gives the text back. -/
theorem unescape_escape (text : List Char) : unescape (escape text) = text := by
  induction text with
  | nil => rfl
  | cons c text ih => rw [escape, List.flatMap_cons, unescape_escapeChar, ← escape, ih]

/-- A quoted text stands for itself. -/
theorem unquote_quote (s : String) : unquote (quote s) = s := by
  have inner : stripQuotes (quote s).toList = escape s.toList := by
    simp [quote, stripQuotes]
  rw [unquote, inner, unescape_escape, String.ofList_toList]

theorem throughString?_escapeChar {c : Char} (noReturn : c ≠ '\r') (rest : List Char) :
    throughString? (escapeChar c ++ rest) =
      (throughString? rest).map fun cut => (escapeChar c ++ cut.1, cut.2) := by
  obtain ⟨d, written, inLine, -⟩ | ⟨written, backslash, quotes, lineFeed⟩ := escapeChar_cases c
  · rw [written, List.cons_append, List.cons_append, List.nil_append, throughString?,
      if_neg (by simp [inLine])]
    rfl
  · have plain : (isLineEnd c || c == '\\') = false := by
      simp [isLineEnd, backslash, lineFeed, noReturn]
    rw [written, List.singleton_append, throughString?.eq_4 c rest quotes
      (fun _ _ first => absurd first backslash), if_neg (by simp [plain])]
    rfl

/-- The lexer reads an escaped text through to the quote behind it. -/
theorem throughString?_escape {text : List Char} (noReturn : '\r' ∉ text) (after : List Char) :
    throughString? (escape text ++ '"' :: after) = some (escape text ++ ['"'], after) := by
  -- The lexer passes every character as a whole, so no quote of the text ends the literal.
  induction text with
  | nil => rfl
  | cons c text ih =>
    have first : c ≠ '\r' := (List.ne_of_not_mem_cons noReturn).symm
    have read := ih fun later => noReturn (List.mem_cons_of_mem c later)
    rw [escape] at read ⊢
    rw [List.flatMap_cons, List.append_assoc, throughString?_escapeChar first, read,
      Option.map_some, List.append_assoc]

/-- A quoted text has the form of a literal. -/
theorem proper_quote {s : String} (noReturn : '\r' ∉ s.toList) :
    (Token.string (quote s)).Proper := by
  refine ⟨escape s.toList ++ ['"'], by simp [quote], ?_⟩
  exact throughString?_escape noReturn []

/-- A text without a carriage return, written between quotes and with its backslashes, quotes, line
feeds and tabs escaped, is a single literal. It stands for itself, may take the place of any other
literal, and is taken for a text by every project in which it is written, even if it reads as a
number. -/
theorem quote_roundTrip {s : String} (noReturn : '\r' ∉ s.toList) :
    lexemes? (quote s).toList = .ok [⟨.string (quote s), ⟨0, byteLength (quote s).toList⟩,
        (LineIndex.ofText (quote s).toList).range ⟨0, byteLength (quote s).toList⟩⟩] ∧
      unquote (quote s) = s ∧
      (∀ text before l after, (scan text).diagnostics = [] →
        (scan text).lexemes = before ++ l :: after → l.token.isString = true →
        ∃ replaced, ReplacesLiteral text before l after (quote s) replaced) ∧
      ∀ text project map, (tolerant text).built = some (project, map) →
        ∃ block, ProjectBlock.ofLexemes (scan text.toList).lexemes = .ok block ∧
          block.Takes (scan text.toList).lexemes project map (.string (quote s)) s := by
  have proper := proper_quote noReturn
  refine ⟨lexemes?_literal proper, unquote_quote s, ?_, ?_⟩
  · intro text before l after clean split literal
    exact exists_replacesLiteral clean split literal proper
  · intro text project map built
    obtain ⟨block, read, rfl, rfl⟩ := exists_block_of_built built
    have takes := ProjectBlock.takes_of_read read text.toList (quote s)
    rw [unquote_quote] at takes
    exact ⟨block, read, takes⟩

/-- A text with every escape, with backslashes next to quotes and at its end, and with a character
of several bytes. -/
def tangled : String :=
  "12\\\\\"\n\t\\n\"ß\\"

/-- A project in which that text is a name, that of a definition, and a value. -/
def tangledText : String :=
  "project " ++ quote tangled ++ " \x7b define Component " ++ quote tangled ++
  " \x7b component Text value: " ++ quote tangled ++
  " \x7d\nscreen Main \x7b layout stack \x7b \x7d \x7d \x7d\n"

theorem quote_roundTrip_tangled : '\r' ∉ tangled.toList ∧ unquote (quote tangled) = tangled ∧
    ∃ project map block, (tolerant tangledText).built = some (project, map) ∧
      ProjectBlock.ofLexemes (scan tangledText.toList).lexemes = .ok block ∧
      block.Takes (scan tangledText.toList).lexemes project map (.string (quote tangled))
        tangled ∧
      ∃ before after replaced,
        (scan tangledText.toList).lexemes = before ++ block.head.name :: after ∧
        ReplacesLiteral tangledText.toList before block.head.name after (quote tangled)
          replaced := by
  have noReturn : '\r' ∉ tangled.toList := by decide
  have clean : (scan tangledText.toList).diagnostics.isEmpty = true := by decide +kernel
  have built : (tolerant tangledText).built.isSome = true := by decide +kernel
  obtain ⟨⟨project, map⟩, same⟩ := Option.isSome_iff_exists.mp built
  obtain ⟨-, back, replaces, takes⟩ := quote_roundTrip noReturn
  obtain ⟨block, read, takes⟩ := takes tangledText project map same
  have name : block.head.name ∈ (scan tangledText.toList).lexemes :=
    ProjectBlock.mem_of_mem_owned read (List.mem_cons_of_mem _ List.mem_cons_self)
  obtain ⟨before, after, split⟩ := List.append_of_mem name
  obtain ⟨replaced, replaces⟩ := replaces _ before _ after (List.isEmpty_iff.mp clean) split
    (ProjectBlock.sound_of_read read).head.name
  exact ⟨noReturn, back, project, map, block, same, read, takes, before, after, replaced, split,
    replaces⟩

end Wireframe
