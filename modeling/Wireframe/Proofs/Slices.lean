import Wireframe.Proofs.Nesting

/-!
# Slicing a text

A range that was read off a text takes a part out of it again. A token takes out itself, and tokens
that are united take out everything from the first one to the last one.

## Main definitions

* `Slices` — the part of a text at a range.
* `SlicesBetween` — a part that starts and ends in a given way.

## Main results

* `slices_of_mem` — a token stands at its range.
* `Hull.slicesBetween` — the part of a text from one token to another.
* `unquote_of_isName` — names stand for themselves.
-/

namespace Wireframe

/-! ### Parts of a text -/

/-- A range takes a part out of a text, and tells where that part stands by offset as well as by
line and column. -/
structure Slices (text part : List Char) (r : CodeRange) : Prop where
  stands : Stands text part r.span
  places : r = (LineIndex.ofText text).range r.span

/-- A range takes a part out of a text that starts with one text and ends with another. -/
def SlicesBetween (text first last : List Char) (r : CodeRange) : Prop :=
  ∃ part, Slices text part r ∧ first <+: part ∧ last <:+ part

section Stands

variable {text part first last : List Char} {s t : Span}

theorem Stands.start_le_stop (stands : Stands text part s) : s.start ≤ s.stop := by
  obtain ⟨before, after, -, rfl⟩ := stands
  rw [byteLength_append]
  exact Nat.le_add_right _ _

theorem Stands.slices (stands : Stands text part s) :
    Slices text part ((LineIndex.ofText text).range s) := by
  have span := span_range stands.onBoundaries stands.start_le_stop
  constructor
  · rwa [span]
  · rw [span]

/-- Of two texts that start a text the one with fewer bytes starts the other one. -/
theorem prefix_of_byteLength_le (startsFirst : first <+: text) (startsLast : last <+: text)
    (le : byteLength first ≤ byteLength last) : first <+: last := by
  rcases List.prefix_or_prefix_of_prefix startsFirst startsLast with inside | ⟨rest, rfl⟩
  · exact inside
  · rw [byteLength_append] at le
    obtain rfl := eq_nil_of_byteLength_eq_zero (show byteLength rest = 0 by omega)
    exact ⟨[], by rw [List.append_nil, List.append_nil]⟩

theorem suffix_of_byteLength_le (endsFirst : first <:+ text) (endsLast : last <:+ text)
    (le : byteLength first ≤ byteLength last) : first <:+ last := by
  rcases List.suffix_or_suffix_of_suffix endsFirst endsLast with inside | ⟨rest, rfl⟩
  · exact inside
  · rw [byteLength_append] at le
    obtain rfl := eq_nil_of_byteLength_eq_zero (show byteLength rest = 0 by omega)
    exact ⟨[], rfl⟩

/-- Two parts of a text are covered by one that starts with the first and ends with the second. -/
theorem Stands.cover (standsFirst : Stands text first s) (standsLast : Stands text last t)
    (starts : s.start ≤ t.start) (stops : s.stop ≤ t.stop) :
    ∃ part, Stands text part ⟨s.start, t.stop⟩ ∧ first <+: part ∧ last <:+ part := by
  have inside : s.start ≤ t.stop := standsFirst.start_le_stop.trans stops
  obtain ⟨before, part, after, split, start, stop⟩ :=
    standsFirst.onBoundaries.start.exists_between standsLast.onBoundaries.stop inside
  refine ⟨part, ⟨before, after, by rw [split, List.append_assoc], by rw [start, stop]⟩, ?_, ?_⟩
  · -- Both parts start at one place, so one of them starts the other.
    obtain ⟨front, rest, same, rfl⟩ := standsFirst
    rw [split, List.append_assoc] at same
    obtain ⟨rfl, behind⟩ := append_inj_of_byteLength same start.symm
    refine prefix_of_byteLength_le ⟨rest, rfl⟩ ⟨after, behind⟩ ?_
    simp only [byteLength_append] at stops stop
    omega
  · -- Likewise both of them stop at one place.
    obtain ⟨front, rest, same, rfl⟩ := standsLast
    rw [split, ← List.append_assoc] at same
    obtain ⟨front', -⟩ := append_inj_of_byteLength same stop.symm
    refine suffix_of_byteLength_le ⟨front, rfl⟩ ⟨before, front'⟩ ?_
    simp only [byteLength_append] at starts stop
    omega

end Stands

/-! ### Tokens -/

section Lexemes

variable {text : List Char} {l : Lexeme} {h : Hull}

/-- A token stands at its range. -/
theorem slices_of_mem (inside : l ∈ (scan text).lexemes) :
    Slices text l.text.toList l.range := by
  rw [range_of_mem inside]
  exact (stands_of_mem_lexemes inside).1.slices

theorem Hull.range_start (part : h.lexemes.Sublist (scan text).lexemes) :
    h.range.start = h.first.range.start := by
  rw [Hull.range_eq part, range_of_mem (part.subset List.mem_cons_self)]
  rfl

/-- Tokens that are united take out everything from the first one to the last one. -/
theorem Hull.slicesBetween (part : h.lexemes.Sublist (scan text).lexemes) :
    SlicesBetween text h.first.text.toList h.last.text.toList h.range := by
  have first : h.first ∈ (scan text).lexemes := part.subset List.mem_cons_self
  have last : h.last ∈ (scan text).lexemes := part.subset h.last_mem
  have ordered := (scan_inSequence text).sublist part
  obtain ⟨middle, stands, starts, stops⟩ := (stands_of_mem_lexemes first).1.cover
    (stands_of_mem_lexemes last).1 (ordered.start_le rfl h.last_mem)
    (ordered.stop_le h.getLast?_lexemes List.mem_cons_self)
  rw [Hull.range_eq part]
  exact ⟨middle, stands.slices, starts, stops⟩

/-! ### Names -/

theorem forall_mem_joinStrays {P : Piece → Prop} (stray : ∀ s, P (.stray s)) {ps : List Piece}
    (all : ∀ p ∈ ps, P p) : ∀ p ∈ Piece.joinStrays ps, P p := by
  fun_induction Piece.joinStrays ps with
  | case1 => exact all
  | case2 s others t after found ih =>
    have rest := ih (List.forall_mem_cons.mp all).2
    rw [found] at rest
    exact List.forall_mem_cons.mpr ⟨stray _, (List.forall_mem_cons.mp rest).2⟩
  | case3 s others _ ih =>
    exact List.forall_mem_cons.mpr ⟨stray s, ih (List.forall_mem_cons.mp all).2⟩
  | case4 p others _ ih =>
    obtain ⟨first, rest⟩ := List.forall_mem_cons.mp all
    exact List.forall_mem_cons.mpr ⟨first, ih rest⟩

theorem isWord_of_mem_pieces (text : List Char) : ∀ p ∈ pieces text, p.IsWord := by
  refine forall_mem_joinStrays (fun _ => trivial) ?_
  fun_induction cuts text with
  | case1 => exact fun _ inside => absurd inside List.not_mem_nil
  | case2 c rest ih => exact List.forall_mem_cons.mpr ⟨next_isWord c rest, ih⟩

theorem unescape_of_not_mem {raw : List Char} (plain : '\\' ∉ raw) : unescape raw = raw := by
  fun_induction unescape raw with
  | case1 => rfl
  | case2 => exact absurd List.mem_cons_self plain
  | case3 => exact absurd List.mem_cons_self plain
  | case4 c rest _ _ ih => rw [ih fun inside => plain (List.mem_cons_of_mem c inside)]

/-- A word has no quotes around it and no escapes in it. -/
theorem unquote_of_isWord {raw : String} (word : ∀ c ∈ raw.toList, isWordChar c = true) :
    unquote raw = raw := by
  have quotes : stripQuotes raw.toList = raw.toList := by
    unfold stripQuotes
    split
    · next rest shape =>
      have quote := word '"' (by rw [shape]; exact List.mem_cons_self)
      contradiction
    · rfl
  have plain : '\\' ∉ raw.toList := by
    intro inside
    have escape := word _ inside
    contradiction
  rw [unquote, quotes, unescape_of_not_mem plain, String.ofList_toList]

/-- Names stand for themselves. -/
theorem unquote_of_isName (inside : l ∈ (scan text).lexemes) (named : l.token.isName = true) :
    unquote l.text = l.text := by
  obtain ⟨placed, inRow, found⟩ := List.mem_filterMap.mp inside
  obtain ⟨shape, -⟩ := eq_of_lexeme? found
  have piece : placed.1 ∈ pieces text := by
    rw [← map_fst_place (pieces text) 0]
    exact List.mem_map_of_mem inRow
  have word := isWord_of_mem_pieces text placed.1 piece
  rw [shape] at word
  unfold Token.isName at named
  split at named
  · next raw name =>
    rw [name] at word
    rw [Lexeme.text, name]
    exact unquote_of_isWord word
  · next name =>
    rw [Lexeme.text, name]
    decide
  · next name =>
    rw [Lexeme.text, name]
    decide
  · contradiction

end Lexemes

end Wireframe
