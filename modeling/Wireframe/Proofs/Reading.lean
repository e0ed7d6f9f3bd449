import Wireframe.Proofs.ReaderProgress
import Wireframe.Token.Scan

/-!
# The reader and the grammar

The reader accepts a row of tokens exactly if the grammar derives it with blocks that are not nested
too deep, and the project that it makes of a text gives all tokens of the text back. For the order
of the tokens it matters only that no piece of a text is empty: so every token starts behind the one
before it.

## Main results

* `scan_pairwise_start` — the tokens of a text start one after the other.
* `exists_ofLexemes_iff` — the rows of tokens that are read.
* `readBack_fits` — the tokens of a project that was read.
* `reading_text` — both, for the tokens of a text.
-/

namespace Wireframe

/-! ### The order of tokens -/

theorem joinStrays_nonempty {list : List Piece} (nonempty : ∀ p ∈ list, p.text ≠ []) :
    ∀ p ∈ Piece.joinStrays list, p.text ≠ [] := by
  fun_induction Piece.joinStrays list with
  | case1 => exact nonempty
  | case2 s others t after found ih =>
    -- Two strays in a row become one, and the second was not empty before.
    obtain ⟨-, tail⟩ := List.forall_mem_cons.mp nonempty
    have rest := ih tail
    rw [found] at rest
    obtain ⟨last, rest⟩ := List.forall_mem_cons.mp rest
    refine List.forall_mem_cons.mpr ⟨fun none => last ?_, rest⟩
    exact (List.append_eq_nil_iff.mp none).2
  | case3 s others _ ih =>
    obtain ⟨head, tail⟩ := List.forall_mem_cons.mp nonempty
    exact List.forall_mem_cons.mpr ⟨head, ih tail⟩
  | case4 p others _ ih =>
    obtain ⟨head, tail⟩ := List.forall_mem_cons.mp nonempty
    exact List.forall_mem_cons.mpr ⟨head, ih tail⟩

theorem cuts_nonempty (text : List Char) : ∀ p ∈ cuts text, p.text ≠ [] := by
  fun_induction cuts text with
  | case1 => simp
  | case2 c rest ih => exact List.forall_mem_cons.mpr ⟨(Piece.next_splits c rest).2, ih⟩

/-- No piece of a text is empty. -/
theorem pieces_nonempty (text : List Char) : ∀ p ∈ pieces text, p.text ≠ [] :=
  joinStrays_nonempty (cuts_nonempty text)

theorem byteLength_pos {text : List Char} (nonempty : text ≠ []) : 0 < byteLength text := by
  obtain ⟨c, others, rfl⟩ := List.exists_cons_of_ne_nil nonempty
  have size := c.utf8Size_pos
  rw [byteLength_cons]
  omega

/-- No piece starts before the offset from which pieces are placed. -/
theorem start_le_of_mem_place {list : List Piece} {start : Nat} {placed : Piece × Span}
    (inside : placed ∈ place start list) : start ≤ placed.2.start := by
  induction list generalizing start with
  | nil => contradiction
  | cons piece others ih =>
    rcases List.mem_cons.mp inside with rfl | later
    · exact Nat.le_refl start
    · exact Nat.le_trans (Nat.le_add_right _ _) (ih later)

theorem place_pairwise_start {list : List Piece} (start : Nat)
    (nonempty : ∀ p ∈ list, p.text ≠ []) :
    (place start list).Pairwise fun a b => a.2.start < b.2.start := by
  induction list generalizing start with
  | nil => exact .nil
  | cons piece others ih =>
    obtain ⟨head, tail⟩ := List.forall_mem_cons.mp nonempty
    refine .cons (fun placed later => ?_) (ih _ tail)
    have after := start_le_of_mem_place later
    have positive := byteLength_pos head
    simp only
    omega

theorem Piece.span_of_lexeme? {index : LineIndex} {placed : Piece × Span} {l : Lexeme}
    (found : Piece.lexeme? index placed = some l) : l.span = placed.2 := by
  unfold Piece.lexeme? at found
  split at found
  · cases found
    rfl
  · contradiction

/-- The tokens of a text start one after the other. -/
theorem scan_pairwise_start (text : List Char) :
    (scan text).lexemes.Pairwise (·.span.start < ·.span.start) := by
  refine List.pairwise_filterMap.mpr ?_
  refine (place_pairwise_start 0 (pieces_nonempty text)).imp fun {a b} before l first m second => ?_
  rw [Piece.span_of_lexeme? first, Piece.span_of_lexeme? second]
  exact before

/-! ### What is read -/

section OfLexemes

variable {ls : List Lexeme} {project : ProjectBlock}

theorem ofLexemes_eq_ok_iff :
    ProjectBlock.ofLexemes ls = .ok project ↔
      firstTooDeep? 0 ls = none ∧ ReaderState.start.run none ls = .ok project := by
  unfold ProjectBlock.ofLexemes
  cases firstTooDeep? 0 ls <;> simp

/-- What is read is derived by the grammar and gives its tokens back in written order. -/
theorem written_fits (read : ProjectBlock.ofLexemes ls = .ok project) :
    Derivable (.rule .project) (ls.map Lexeme.token) ∧
      List.Forall₂ Written.Fits project.inWrittenOrder ls := by
  obtain ⟨-, ran⟩ := ofLexemes_eq_ok_iff.mp read
  have start : ReaderState.start.Sound := trivial
  -- Nothing has been read at the start, so all that is given back comes from the run.
  obtain ⟨spells, ws, whole, fits⟩ := ReaderState.run_sound start ran
  obtain rfl : project.inWrittenOrder = ws := whole
  rw [← map_token_of_fits fits]
  exact ⟨spells, fits⟩

/-- A row of tokens is read exactly if the grammar derives it with blocks that are not nested too
deep. -/
theorem exists_ofLexemes_iff :
    (∃ project, ProjectBlock.ofLexemes ls = .ok project) ↔
      Derives nestingLimit (.rule .project) (ls.map Lexeme.token) := by
  constructor
  · -- What is read is derived at some depth, and having passed the check it stays below the limit.
    rintro ⟨project, read⟩
    obtain ⟨depth, derived⟩ := (written_fits read).1
    have passed : firstTooDeep? 0 (ls ++ []) = none := by
      rw [List.append_nil]
      exact (ofLexemes_eq_ok_iff.mp read).1
    exact (derived.of_firstTooDeep?_eq_none rfl (Nat.zero_le _) passed).1
  · intro derived
    have passed := derived.firstTooDeep?_append [] rfl (Nat.le_of_eq (Nat.zero_add _))
    rw [List.append_nil] at passed
    obtain ⟨project, arrives⟩ := arrives_project derived
    exact ⟨project, ofLexemes_eq_ok_iff.mpr ⟨passed, arrives.run rfl none⟩⟩

/-- A project that was read gives its tokens back, also when its parts are merged by where they
start. -/
theorem readBack_fits (read : ProjectBlock.ofLexemes ls = .ok project)
    (starts : ls.Pairwise (·.span.start < ·.span.start)) :
    List.Forall₂ Written.Fits project.readBack ls := by
  obtain ⟨-, fits⟩ := written_fits read
  rw [ProjectBlock.readBack_eq_inWrittenOrder (.of_fits fits starts)]
  exact fits

end OfLexemes

/-- The tokens of a text are read exactly if the grammar derives them with blocks at most 64 braces
deep. What is read gives them all back: those that it holds are the very same, and the marks between
properties stand where they stood. -/
theorem reading_text (text : List Char) :
    ((∃ project, ProjectBlock.ofLexemes (scan text).lexemes = .ok project) ↔
        Derives 64 (.rule .project) ((scan text).lexemes.map Lexeme.token)) ∧
      ∀ project, ProjectBlock.ofLexemes (scan text).lexemes = .ok project →
        List.Forall₂ Written.Fits project.readBack (scan text).lexemes :=
  ⟨exists_ofLexemes_iff, fun _ read => readBack_fits read (scan_pairwise_start text)⟩

end Wireframe
