import Mathlib.Data.List.Chain
import Wireframe.Proofs.PieceForm
import Wireframe.Proofs.Position
import Wireframe.Proofs.Reading

/-!
# Nothing of a text is lost

The tokens of a text and the diagnostics of what is none cover the text apart from blanks and
comments, whatever the text is. They do not overlap, they lie between characters, and each list goes
from the front to the back. Neighbouring stray characters are reported together.

## Main definitions

* `Stands` — a part of a text, at a span.
* `Trivia` — blanks and comments, one after the other.
* `Covers` — spans that cover a text apart from trivia.
* `Scan.Lossless` — what a scan keeps of its text.

## Main results

* `scan_lossless` — every scan is lossless.
-/

namespace Wireframe

open Piece

/-! ### Parts of a text -/

/-- A part of a text stands at a span. -/
def Stands (text part : List Char) (span : Span) : Prop :=
  ∃ before after, text = before ++ part ++ after ∧
    span = ⟨byteLength before, byteLength (before ++ part)⟩

theorem Stands.onBoundaries {text part : List Char} {span : Span}
    (stands : Stands text part span) : OnBoundaries text span := by
  obtain ⟨before, after, rfl, rfl⟩ := stands
  exact ⟨⟨before, part ++ after, List.append_assoc .., rfl⟩, ⟨before ++ part, after, rfl, rfl⟩⟩

theorem Stands.start_lt_stop {text part : List Char} {span : Span}
    (stands : Stands text part span) (nonempty : part ≠ []) : span.start < span.stop := by
  obtain ⟨before, after, rfl, rfl⟩ := stands
  have positive := byteLength_pos nonempty
  simp only [byteLength_append]
  omega

/-- The text of a piece stands where the piece is placed. -/
theorem exists_split_of_mem_place {ps : List Piece} {start : Nat} {placed : Piece × Span}
    (inside : placed ∈ place start ps) :
    ∃ before after, ps.flatMap Piece.text = before ++ placed.1.text ++ after ∧
      placed.2 = ⟨start + byteLength before, start + byteLength (before ++ placed.1.text)⟩ := by
  induction ps generalizing start with
  | nil => contradiction
  | cons p ps ih =>
    rcases List.mem_cons.mp inside with rfl | later
    · exact ⟨[], ps.flatMap Piece.text, rfl, rfl⟩
    · obtain ⟨before, after, split, span⟩ := ih later
      refine ⟨p.text ++ before, after, ?_, ?_⟩
      · rw [List.flatMap_cons, split, List.append_assoc p.text, List.append_assoc p.text]
      · rw [span]
        simp only [byteLength_append, Nat.add_assoc]

theorem stands_of_mem_place {text : List Char} {placed : Piece × Span}
    (inside : placed ∈ place 0 (pieces text)) : Stands text placed.1.text placed.2 := by
  obtain ⟨before, after, split, span⟩ := exists_split_of_mem_place inside
  rw [pieces_text] at split
  rw [Nat.zero_add, Nat.zero_add] at span
  exact ⟨before, after, split, span⟩

/-! ### Gaps -/

/-- Blanks and comments, one after the other, in front of a text. -/
inductive Trivia (after : List Char) : List Char → Prop
  | nil : Trivia after []
  | cons {s others : List Char} : IsTrivia (others ++ after) s → Trivia after others →
      Trivia after (s ++ others)

/-- Spans that cover a text apart from trivia. The text starts at an offset, and every span is taken
up by a part of the text that is not empty. -/
inductive Covers : Nat → List Char → List Span → Prop
  | done {start : Nat} {gap : List Char} : Trivia [] gap → Covers start gap []
  | part {start : Nat} {gap part rest : List Char} {spans : List Span} :
      Trivia (part ++ rest) gap → part ≠ [] →
      Covers (start + byteLength gap + byteLength part) rest spans →
      Covers start (gap ++ (part ++ rest))
        (⟨start + byteLength gap, start + byteLength gap + byteLength part⟩ :: spans)

/-- Trivia in front of a text make its first gap longer. -/
theorem Covers.trivia {start : Nat} {s text : List Char} {spans : List Span}
    (form : IsTrivia text s) (covers : Covers (start + byteLength s) text spans) :
    Covers start (s ++ text) spans := by
  cases covers with
  | done trivia =>
    rw [← List.append_nil text] at form
    exact .done (.cons form trivia)
  | @part _ gap part rest spans trivia nonempty covers =>
    have longer : Trivia (part ++ rest) (s ++ gap) := .cons form trivia
    have shift : start + byteLength s + byteLength gap = start + byteLength (s ++ gap) := by
      rw [byteLength_append, Nat.add_assoc]
    rw [shift] at covers ⊢
    rw [← List.append_assoc]
    exact .part longer nonempty covers

/-- Pieces of which the trivia fit in front of what follows them. -/
inductive TriviaFit : List Piece → Prop
  | nil : TriviaFit []
  | trivia {s : List Char} {others : List Piece} : IsTrivia (others.flatMap Piece.text) s →
      TriviaFit others → TriviaFit (.trivia s :: others)
  | significant {p : Piece} {others : List Piece} : p.isSignificant = true →
      TriviaFit others → TriviaFit (p :: others)

theorem TriviaFit.tail {p : Piece} {others : List Piece} (fit : TriviaFit (p :: others)) :
    TriviaFit others := by
  cases fit with
  | trivia _ rest => exact rest
  | significant _ rest => exact rest

theorem triviaFit_cuts (text : List Char) : TriviaFit (cuts text) := by
  fun_induction cuts text with
  | case1 => exact .nil
  | case2 c rest ih =>
    generalize cut : Piece.next c rest = found at *
    obtain ⟨piece, after⟩ := found
    have whole := cuts_text after
    cases piece with
    | trivia s => exact .trivia (whole.symm ▸ isTrivia_of_next cut) ih
    | token | stray | openString | openComment => exact .significant rfl ih

theorem triviaFit_joinStrays {ps : List Piece} (fit : TriviaFit ps) :
    TriviaFit (joinStrays ps) := by
  fun_induction joinStrays ps with
  | case1 => exact fit
  | case2 s others t after found ih =>
    have joined := ih fit.tail
    rw [found] at joined
    exact .significant rfl joined.tail
  | case3 s others _ ih => exact .significant rfl (ih fit.tail)
  | case4 p others _ ih =>
    cases fit with
    | trivia form rest =>
      rw [← joinStrays_text] at form
      exact .trivia form (ih rest)
    | significant other rest => exact .significant other (ih rest)

/-- The spans of the pieces that are no trivia cover the text. -/
theorem covers_place {ps : List Piece} (fit : TriviaFit ps) (nonempty : ∀ p ∈ ps, p.text ≠ [])
    (start : Nat) : Covers start (ps.flatMap Piece.text)
      (((place start ps).filter (·.1.isSignificant)).map Prod.snd) := by
  induction fit generalizing start with
  | nil => exact .done .nil
  | trivia form _ ih =>
    obtain ⟨-, others⟩ := List.forall_mem_cons.mp nonempty
    exact .trivia form (ih others _)
  | @significant p others other _ ih =>
    obtain ⟨first, rest⟩ := List.forall_mem_cons.mp nonempty
    have covers := ih rest (start + byteLength p.text)
    rw [place, List.filter_cons, if_pos other, List.map_cons]
    exact .part .nil first covers

/-! ### Tokens and diagnostics -/

/-- The spans of all tokens and of all diagnostics. -/
def Scan.spans (result : Scan) : List Span :=
  result.lexemes.map Lexeme.span ++ result.diagnostics.map Diagnostic.span

section Placed

variable {index : LineIndex} {placed : Piece × Span}

theorem range_of_diagnostic? {d : Diagnostic} (found : Piece.diagnostic? index placed = some d) :
    d.range = index.range placed.2 := by
  unfold Piece.diagnostic? at found
  split at found
  · contradiction
  · contradiction
  all_goals
    obtain rfl := Option.some.inj found
    rfl

theorem isStray_of_diagnostic? {d : Diagnostic} (found : Piece.diagnostic? index placed = some d)
    (code : d.code = .unexpectedCharacter) : ∃ s, placed.1 = .stray s := by
  unfold Piece.diagnostic? at found
  split at found
  · contradiction
  · contradiction
  · next s shape => exact ⟨s, shape⟩
  all_goals
    obtain rfl := Option.some.inj found
    contradiction

theorem eq_of_lexeme? {l : Lexeme} (found : Piece.lexeme? index placed = some l) :
    placed.1 = .token l.token ∧ l.range = index.range l.span := by
  unfold Piece.lexeme? at found
  split at found
  · next t shape =>
    obtain rfl := Option.some.inj found
    exact ⟨shape, rfl⟩
  · contradiction

end Placed

/-- Of the pieces that are no trivia each one is either a token or reported. -/
theorem spans_perm {index : LineIndex} {row : List (Piece × Span)}
    (kept : ∀ placed ∈ row, (index.range placed.2).span = placed.2) :
    ((row.filter (·.1.isSignificant)).map Prod.snd).Perm
      ((row.filterMap (Piece.lexeme? index)).map Lexeme.span ++
        (row.filterMap (Piece.diagnostic? index)).map Diagnostic.span) := by
  induction row with
  | nil => exact .nil
  | cons placed row ih =>
    obtain ⟨first, rest⟩ := List.forall_mem_cons.mp kept
    have tail := ih rest
    obtain ⟨piece, span⟩ := placed
    cases piece with
    | trivia s => exact tail
    | token t => exact tail.cons span
    | stray s | openString s | openComment s =>
      -- What is reported stands behind all tokens.
      have reported : (index.range span).span = span := first
      simp only [List.filter_cons, isSignificant, if_true, List.map_cons, List.filterMap_cons,
        Piece.lexeme?, Piece.diagnostic?, Diagnostic.span, reported]
      exact (tail.cons span).trans List.perm_middle.symm

/-! ### The order of pieces -/

/-- Whether a piece is a stray. -/
def Piece.isStray : Piece → Bool
  | .stray _ => true
  | _ => false

/-- One piece ends before the other one starts, with something between them if both are strays. -/
def Piece.Ahead (a b : Piece × Span) : Prop :=
  a.2.stop ≤ b.2.start ∧ (a.1.isStray = true → b.1.isStray = true → a.2.stop < b.2.start)

/-- After strays have been put together no two of them are neighbours. -/
theorem isChain_joinStrays (ps : List Piece) :
    (joinStrays ps).IsChain fun p q => p.isStray = true → q.isStray = false := by
  fun_induction joinStrays ps with
  | case1 => exact .nil
  | case2 s others t after found ih =>
    rw [found, List.isChain_cons] at ih
    exact List.isChain_cons.mpr ih
  | case3 s others other ih =>
    refine List.isChain_cons.mpr ⟨fun q first _ => ?_, ih⟩
    obtain ⟨rest, shape⟩ := List.head?_eq_some_iff.mp first
    cases q with
    | stray t => exact absurd shape (other t rest)
    | trivia | token | openString | openComment => rfl
  | case4 p others plain ih =>
    refine List.isChain_cons.mpr ⟨fun q _ stray => ?_, ih⟩
    cases p with
    | stray s => exact absurd rfl (plain s)
    | trivia | token | openString | openComment => contradiction

/-- Pieces of which no two strays are neighbours are placed one ahead of the other. -/
theorem place_pairwise_ahead {ps : List Piece} (start : Nat)
    (apart : ps.IsChain fun p q => p.isStray = true → q.isStray = false)
    (nonempty : ∀ p ∈ ps, p.text ≠ []) : (place start ps).Pairwise Piece.Ahead := by
  induction ps generalizing start with
  | nil => exact .nil
  | cons p ps ih =>
    obtain ⟨-, tail⟩ := List.forall_mem_cons.mp nonempty
    obtain ⟨next, rest⟩ := List.isChain_cons.mp apart
    refine .cons (fun placed later => ⟨start_le_of_mem_place later, fun stray other => ?_⟩)
      (ih _ rest tail)
    -- The piece behind a stray is none, and what comes later starts behind that piece.
    cases ps with
    | nil => contradiction
    | cons q ps =>
      obtain ⟨length, -⟩ := List.forall_mem_cons.mp tail
      have positive := byteLength_pos length
      rcases List.mem_cons.mp later with rfl | later
      · rw [next q rfl stray] at other
        contradiction
      · have behind := start_le_of_mem_place later
        simp only
        omega

/-! ### Scans -/

/-- What a scan keeps of its text. Tokens and diagnostics take up parts of the text that are not
empty and do not overlap, in order; tokens are those parts, with their ranges; and what is left
over are blanks and comments. -/
structure Scan.Lossless (text : List Char) (result : Scan) : Prop where
  within : ∀ s ∈ result.spans, OnBoundaries text s ∧ s.start < s.stop
  disjoint : result.spans.Pairwise fun s t => s.stop ≤ t.start ∨ t.stop ≤ s.start
  lexemes_ordered : (result.lexemes.map Lexeme.span).Pairwise fun s t => s.stop ≤ t.start
  diagnostics_ordered : (result.diagnostics.map Diagnostic.span).Pairwise fun s t =>
    s.stop ≤ t.start
  lexemes_stand : ∀ l ∈ result.lexemes, Stands text l.text.toList l.span ∧
    l.range = (LineIndex.ofText text).range l.span
  diagnostics_point : ∀ d ∈ result.diagnostics, d.range = (LineIndex.ofText text).range d.span
  /-- In order, all the spans together leave nothing but trivia. -/
  gaps : ∃ covered : List Span, covered.Perm result.spans ∧ Covers 0 text covered
  /-- No run of stray characters goes on behind its diagnostic. -/
  maximal : result.diagnostics.Pairwise fun d e => d.code = .unexpectedCharacter →
    e.code = .unexpectedCharacter → d.span.stop ≠ e.span.start

section Placed

variable {text : List Char} {placed : Piece × Span} (inside : placed ∈ place 0 (pieces text))

include inside

theorem start_lt_stop_of_mem_place : placed.2.start < placed.2.stop := by
  refine (stands_of_mem_place inside).start_lt_stop (pieces_nonempty text _ ?_)
  rw [← map_fst_place (pieces text) 0]
  exact List.mem_map_of_mem inside

/-- The range of a piece tells where it stands. -/
theorem span_range_of_mem_place : ((LineIndex.ofText text).range placed.2).span = placed.2 :=
  span_range (stands_of_mem_place inside).onBoundaries
    (Nat.le_of_lt (start_lt_stop_of_mem_place inside))

/-- A diagnostic takes up the piece that it is about. -/
theorem span_of_diagnostic? {d : Diagnostic}
    (found : Piece.diagnostic? (LineIndex.ofText text) placed = some d) : d.span = placed.2 := by
  rw [Diagnostic.span, range_of_diagnostic? found, span_range_of_mem_place inside]

end Placed

/-! ### The tokens of a scan -/

section Scanned

variable {text : List Char}

/-- The pieces of a text are placed one ahead of the other. -/
theorem place_pieces_pairwise_ahead (text : List Char) :
    (place 0 (pieces text)).Pairwise Piece.Ahead :=
  place_pairwise_ahead 0 (isChain_joinStrays _) (pieces_nonempty text)

/-- A token of a text stands where its range says. -/
theorem stands_of_mem_lexemes {l : Lexeme} (inside : l ∈ (scan text).lexemes) :
    Stands text l.text.toList l.span ∧ l.range = (LineIndex.ofText text).range l.span := by
  obtain ⟨placed, inRow, found⟩ := List.mem_filterMap.mp inside
  obtain ⟨shape, range⟩ := eq_of_lexeme? found
  have part := stands_of_mem_place inRow
  rw [shape, ← span_of_lexeme? found] at part
  exact ⟨part, range⟩

theorem start_lt_stop_of_mem_lexemes {l : Lexeme} (inside : l ∈ (scan text).lexemes) :
    l.span.start < l.span.stop := by
  obtain ⟨placed, inRow, found⟩ := List.mem_filterMap.mp inside
  rw [span_of_lexeme? found]
  exact start_lt_stop_of_mem_place inRow

/-- The tokens of a text stand one after the other. -/
theorem lexemes_pairwise_apart (text : List Char) :
    (scan text).lexemes.Pairwise (·.span.stop ≤ ·.span.start) := by
  refine List.pairwise_filterMap.mpr ((place_pieces_pairwise_ahead text).imp ?_)
  intro a b before l first m second
  rw [span_of_lexeme? first, span_of_lexeme? second]
  exact before.1

/-- A diagnostic of a scan takes up the place of a piece. -/
theorem exists_placed_of_mem_diagnostics {d : Diagnostic} (inside : d ∈ (scan text).diagnostics) :
    ∃ placed ∈ place 0 (pieces text), d.span = placed.2 ∧
      d.range = (LineIndex.ofText text).range placed.2 := by
  obtain ⟨placed, inRow, found⟩ := List.mem_filterMap.mp inside
  exact ⟨placed, inRow, span_of_diagnostic? inRow found, range_of_diagnostic? found⟩

end Scanned

/-- Nothing of a text is lost by its scan, whatever the text is. -/
theorem scan_lossless (text : List Char) : (scan text).Lossless text := by
  -- The pieces fill the text one behind the other. Tokens and diagnostics take up the places of
  -- those that are no trivia, so what is claimed of them is read off the placed pieces.
  have stands : ∀ placed ∈ place 0 (pieces text), Stands text placed.1.text placed.2 :=
    fun placed inside => stands_of_mem_place inside
  have ahead : (place 0 (pieces text)).Pairwise Piece.Ahead := place_pieces_pairwise_ahead text
  have perm : (((place 0 (pieces text)).filter (·.1.isSignificant)).map Prod.snd).Perm
      (scan text).spans :=
    spans_perm fun placed inside => span_range_of_mem_place inside
  constructor
  case within =>
    intro s inside
    obtain ⟨placed, found, rfl⟩ := List.mem_map.mp (perm.mem_iff.mpr inside)
    have inRow := (List.mem_filter.mp found).1
    exact ⟨(stands placed inRow).onBoundaries, start_lt_stop_of_mem_place inRow⟩
  case disjoint =>
    refine (perm.pairwise_iff fun apart => apart.symm).mp (List.pairwise_map.mpr ?_)
    exact (ahead.filter _).imp fun before => .inl before.1
  case lexemes_ordered => exact List.pairwise_map.mpr (lexemes_pairwise_apart text)
  case diagnostics_ordered =>
    refine List.pairwise_map.mpr (List.pairwise_filterMap.mpr (ahead.imp_of_mem ?_))
    intro a b inA inB before d first e second
    rw [span_of_diagnostic? inA first, span_of_diagnostic? inB second]
    exact before.1
  case lexemes_stand => exact fun l inside => stands_of_mem_lexemes inside
  case diagnostics_point =>
    intro d inside
    obtain ⟨placed, -, span, range⟩ := exists_placed_of_mem_diagnostics inside
    rw [span, range]
  case gaps =>
    refine ⟨_, perm, ?_⟩
    have covers := covers_place (triviaFit_joinStrays (triviaFit_cuts text))
      (pieces_nonempty text) 0
    rwa [joinStrays_text, cuts_text] at covers
  case maximal =>
    refine List.pairwise_filterMap.mpr (ahead.imp_of_mem ?_)
    intro a b inA inB before d first e second codeD codeE
    obtain ⟨s, strayA⟩ := isStray_of_diagnostic? first codeD
    obtain ⟨t, strayB⟩ := isStray_of_diagnostic? second codeE
    have apart := before.2 (by rw [strayA]; rfl) (by rw [strayB]; rfl)
    rw [span_of_diagnostic? inA first, span_of_diagnostic? inB second]
    exact Nat.ne_of_lt apart

end Wireframe
