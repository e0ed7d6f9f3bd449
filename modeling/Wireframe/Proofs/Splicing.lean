import Wireframe.Proofs.Lossless
import Wireframe.Proofs.Recutting

/-!
# Splicing text into a text

A text in which nothing is wrong is cut apart at one of its tokens. A new line put there leaves the
pieces in front of it as they are: no token goes on over a line feed, and a line comment ends there.
So only the end of the new line has to fit the pieces behind it.

## Main results

* `exists_cut` — a text cut apart at one of its tokens.
* `WellCut.replace_behind` — another row in place of the last part of a row.
* `scan_splice` — the tokens of a text with a keyword and a word spliced in on a new line.
-/

namespace Wireframe

open Piece

/-! ### Cutting at a token -/

/-- Placed pieces lie one behind the other. -/
theorem place_eq_append_cons {ps : List Piece} {start : Nat} {front back : List (Piece × Span)}
    {placed : Piece × Span} (split : place start ps = front ++ placed :: back) :
    ps = front.map Prod.fst ++ placed.1 :: back.map Prod.fst ∧
      placed.2.start = start + byteLength ((front.map Prod.fst).flatMap Piece.text) ∧
      placed.2.stop = placed.2.start + byteLength placed.1.text := by
  induction front generalizing start ps with
  | nil =>
    cases ps with
    | nil => contradiction
    | cons p ps =>
      obtain ⟨rfl, rfl⟩ := List.cons.inj split
      exact ⟨by simp [map_fst_place], rfl, rfl⟩
  | cons first front ih =>
    cases ps with
    | nil => contradiction
    | cons p ps =>
      obtain ⟨rfl, rest⟩ := List.cons.inj split
      obtain ⟨pieces, begins, ends⟩ := ih rest
      refine ⟨by rw [pieces]; rfl, ?_, ends⟩
      rw [begins, List.map_cons, List.flatMap_cons, byteLength_append, Nat.add_assoc]

theorem map_token_filterMap_lexeme? (index : LineIndex) (row : List (Piece × Span)) :
    (row.filterMap (Piece.lexeme? index)).map Lexeme.token =
      (row.map Prod.fst).filterMap Piece.token? := by
  simp only [List.map_filterMap, List.filterMap_map, token_lexeme?, Function.comp_def]

/-- A text in which nothing is wrong is cut apart at one of its tokens. -/
theorem exists_cut {text : List Char} (clean : (scan text).diagnostics = [])
    {before after : List Lexeme} {l : Lexeme} (split : (scan text).lexemes = before ++ l :: after) :
    ∃ ps qs, cuts text = ps ++ .token l.token :: qs ∧
      ps.filterMap Piece.token? = before.map Lexeme.token ∧
      qs.filterMap Piece.token? = after.map Lexeme.token ∧
      l.span = ⟨byteLength (ps.flatMap Piece.text),
        byteLength ((ps ++ [.token l.token]).flatMap Piece.text)⟩ ∧
      l.range = (LineIndex.ofText text).range l.span := by
  have whole : pieces text = cuts text := by
    rw [pieces, joinStrays_of_clean (diagnostics_eq_nil_iff.mp clean)]
  rw [scan, whole] at split
  obtain ⟨front, rest, placed, inFront, inRest⟩ := List.filterMap_eq_append_iff.mp split
  obtain ⟨gap, own, back, rfl, none, found, inBack⟩ := List.filterMap_eq_cons_iff.mp inRest
  rw [← List.append_assoc] at placed
  obtain ⟨cut, begins, ends⟩ := place_eq_append_cons placed
  obtain ⟨token, range⟩ := eq_of_lexeme? found
  have span : l.span = ⟨own.2.start, own.2.stop⟩ := Piece.span_of_lexeme? found
  have ahead : (front ++ gap).filterMap (Piece.lexeme? (LineIndex.ofText text)) = before := by
    rw [List.filterMap_append, inFront, List.filterMap_eq_nil_iff.mpr none, List.append_nil]
  refine ⟨(front ++ gap).map Prod.fst, back.map Prod.fst, ?_, ?_, ?_, ?_, ?_⟩
  · rw [cut, token]
  · rw [← map_token_filterMap_lexeme?, ahead]
  · rw [← map_token_filterMap_lexeme?, inBack]
  · rw [span, ends, begins, token, Nat.zero_add, List.flatMap_append, byteLength_append,
      List.flatMap_singleton]
  · rw [range, span]

/-! ### A new line behind the first part of a row -/

theorem IsTrivia.of_head? {after after' s : List Char} (form : IsTrivia after s)
    (head : after'.head? = some '\n' ∨ after'.head? = after.head?) : IsTrivia after' s := by
  cases form with
  | blanks blank => exact .blanks blank
  | lineComment inLine stops =>
    refine .lineComment inLine ?_
    rcases head with breaks | same
    · exact .inr breaks
    · rcases stops with rfl | breaks
      · exact .inl (List.head?_eq_none_iff.mp same)
      · exact .inr (same.trans breaks)
  | blockComment first => exact .blockComment first

theorem Token.EndsBefore.of_head? {t : Token} {after after' : List Char}
    (ends : t.EndsBefore after)
    (head : after'.head? = some '\n' ∨ after'.head? = after.head?) : t.EndsBefore after' := by
  rcases head with breaks | same
  · obtain ⟨rest, rfl⟩ := List.head?_eq_some_iff.mp breaks
    exact t.endsBefore_blank rfl rest
  · cases t with
    | string | mark => trivial
    | keyword | number | color | name =>
      have ends : EndsWord after := ends
      exact ⟨fun c first => ends.word c (same.symm.trans first), fun point =>
        ends.point (same.symm.trans point)⟩

section Rows

variable {ps qs rs : List Piece}

theorem WellCut.behind (well : WellCut (ps ++ qs)) : WellCut qs := by
  induction ps with
  | nil => exact well
  | cons p ps ih =>
    cases well with
    | trivia _ rest | token _ _ rest => exact ih rest

/-- Another row may take the place of the last part of a row if it is on a new line or begins with
the same character. -/
theorem WellCut.replace_behind (well : WellCut (ps ++ qs)) (other : WellCut rs)
    (begins : (rs.flatMap Piece.text).head? = some '\n' ∨
      (rs.flatMap Piece.text).head? = (qs.flatMap Piece.text).head?) : WellCut (ps ++ rs) := by
  -- In front of the first part's rest the text goes on as before, or with the line feed.
  have head : ∀ front : List Piece,
      ((front ++ rs).flatMap Piece.text).head? = some '\n' ∨
        ((front ++ rs).flatMap Piece.text).head? = ((front ++ qs).flatMap Piece.text).head? := by
    intro front
    rw [List.flatMap_append, List.flatMap_append]
    cases front.flatMap Piece.text with
    | nil => exact begins
    | cons c rest => exact .inr rfl
  induction ps with
  | nil => exact other
  | cons p ps ih =>
    cases well with
    | trivia form rest => exact .trivia (form.of_head? (head ps)) (ih rest)
    | token proper ends rest => exact .token proper (ends.of_head? (head ps)) (ih rest)

/-- In front of a closing brace and all trivia before it a word ends. -/
theorem WellCut.endsWord (well : WellCut qs) {ts : List Token}
    (first : qs.filterMap Piece.token? = .mark .rightBrace :: ts) :
    EndsWord (qs.flatMap Piece.text) := by
  induction well with
  | nil => contradiction
  | @trivia s others form _ ih =>
    have next := ih first
    rw [List.flatMap_cons, Piece.text]
    cases form with
    | blanks blank =>
      cases s with
      | nil => exact next
      | cons c s => exact endsWord_blank (List.forall_mem_cons.mp blank).1 _
    | lineComment | blockComment => exact endsWord_cons rfl (by decide)
  | token _ _ _ _ =>
    obtain ⟨rfl, -⟩ := List.cons.inj first
    exact endsWord_cons rfl (by decide)

end Rows

/-! ### A keyword and a word on a new line -/

/-- A line with the keyword of a component and a word. -/
def componentLine (indentation : List Char) (t : Token) : List Piece :=
  [.trivia ('\n' :: indentation), .token (.keyword .component), .trivia [' '], .token t]

theorem text_componentLine (indentation : List Char) (t : Token) :
    (componentLine indentation t).flatMap Piece.text =
      '\n' :: (indentation ++ ("component ".toList ++ t.text.toList)) := by
  have keyword : (Token.keyword .component).text.toList ++ [' '] = "component ".toList := by decide
  rw [← keyword]
  simp [componentLine, Piece.text]

theorem wellCut_componentLine {indentation : List Char}
    (blank : ∀ c ∈ indentation, isBlank c = true) {t : Token} (proper : t.Proper)
    {qs : List Piece} (well : WellCut qs) (ends : EndsWord (qs.flatMap Piece.text)) :
    WellCut (componentLine indentation t ++ qs) := by
  have newLine : ∀ c ∈ '\n' :: indentation, isBlank c = true :=
    List.forall_mem_cons.mpr ⟨rfl, blank⟩
  have space : ∀ c ∈ [' '], isBlank c = true := List.forall_mem_singleton.mpr rfl
  exact .trivia (.blanks newLine) (.token trivial (Token.endsBefore_blank _ rfl _)
    (.trivia (.blanks space) (.token proper (t.endsBefore_of_endsWord ends) well)))

/-- The tokens of a text with a component on a new line spliced in, in front of a closing brace and
some of the trivia before it. -/
theorem scan_splice {text : List Char} (clean : (scan text).diagnostics = [])
    {ps qs : List Piece} (split : cuts text = ps ++ qs) {ts : List Token}
    (first : qs.filterMap Piece.token? = .mark .rightBrace :: ts) {indentation : List Char}
    (blank : ∀ c ∈ indentation, isBlank c = true) {t : Token} (proper : t.Proper) :
    (scan ((ps ++ (componentLine indentation t ++ qs)).flatMap Piece.text)).diagnostics = [] ∧
      (scan ((ps ++ (componentLine indentation t ++ qs)).flatMap Piece.text)).lexemes.map
          Lexeme.token =
        ps.filterMap Piece.token? ++
          (.keyword .component :: t :: qs.filterMap Piece.token?) := by
  have well : WellCut (ps ++ qs) := by
    rw [← split]
    exact wellCut_cuts (diagnostics_eq_nil_iff.mp clean)
  have line := wellCut_componentLine blank proper well.behind (well.behind.endsWord first)
  have again := scan_of_wellCut (well.replace_behind line (.inl rfl))
  rwa [List.filterMap_append] at again

end Wireframe
