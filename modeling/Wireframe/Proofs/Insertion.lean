import Wireframe.Proofs.Appending
import Wireframe.Proofs.Planting
import Wireframe.Proofs.Splicing

/-!
# Writing a component at an insertion point

The entry of a layout or cell tells where one more child can be written. If nothing is wrong with
the tokens of a text and a component is written there on a line of its own, nothing is wrong with
them afterwards, and the project becomes the old one with that component as the last child of the
layout or cell. Only ids may differ.

## Main definitions

* `Inserts` — a text with another one put at an insertion point.
* `WritesComponent` — a text with a component written at the insertion point of an entry.
* `Project.HasContainer` — one layout or cell bears an id, and no other part does.

## Main results

* `ProjectBlock.exists_insertion` — where the insertion point of a block lies in its text.
* `insertion_appends` — what is written at an insertion point is appended there.
-/

namespace Wireframe

/-! ### Insertion -/

/-- A text with another one put between two of its characters, at an insertion point. -/
def Inserts (text : String) (point : InsertionPoint) (more text' : String) : Prop :=
  ∃ before after : List Char, text.toList = before ++ after ∧
    ((LineIndex.ofText text.toList).position (byteLength before)).line = point.line ∧
    ((LineIndex.ofText text.toList).position (byteLength before)).column = point.column ∧
    text' = String.ofList (before ++ (more.toList ++ after))

/-- There is one place at a line and a column. -/
theorem Inserts.unique {text more s t : String} {point : InsertionPoint}
    (first : Inserts text point more s) (second : Inserts text point more t) : s = t := by
  obtain ⟨before, after, split, line, column, rfl⟩ := first
  obtain ⟨before', after', split', line', column', rfl⟩ := second
  have same : byteLength before = byteLength before' :=
    Boundary.eq_of_position (.of_append before after split) (.of_append before' after' split')
      (line.trans line'.symm) (column.trans column'.symm)
  obtain ⟨rfl, rfl⟩ := append_inj_of_byteLength (split.symm.trans split') same
  rfl

/-- A text with a component written at the insertion point of an entry, on a line of its own. -/
def WritesComponent (text : String) (e : Entry) (word text' : String) : Prop :=
  ∃ point, e.insertion = some point ∧
    Inserts text point ("\n" ++ point.indentation ++ "component " ++ word) text'

/-- One layout or cell of a project bears an id, and no other part does. -/
structure Project.HasContainer (project : Project) (id : NodeId) : Prop where
  container : ∃ e : Element, .element e ∈ project.walk ∧ (Node.element e).id = some id ∧
    ∀ c, e ≠ .component c
  once : (project.walk.map Node.id).count (some id) = 1

/-! ### Where a block stands -/

/-- A block as it is written ends with the last of the tokens that it takes up. -/
theorem exists_written_eq_concat (names : DefinedNames) (n : NumberedBlock) (parent : NodeId) :
    ∃ ws, Block.written (NumberedBlock.erase n) =
      ws ++ [.own (NumberedBlock.draft names n parent).whole.last] := by
  cases n with
  | component c =>
    rw [NumberedBlock.erase, Tree.map_component, Block.written_component]
    have last : (NumberedBlock.draft names (.component c) parent).whole.last = c.2.last := rfl
    rw [last, ComponentBlock.written, ComponentBlock.last]
    rcases List.eq_nil_or_concat c.2.properties with empty | ⟨others, p, whole⟩
    · rw [empty]
      exact ⟨[.own c.2.keyword], rfl⟩
    · rw [whole, List.concat_eq_append, List.flatMap_append, List.getLast?_concat]
      exact ⟨.own c.2.keyword :: .own c.2.kind ::
        (others.flatMap WrittenProperty.written ++ [.own p.name, .mark .colon]), by
          simp [WrittenProperty.written]⟩
  | layout l trees =>
    have last : (NumberedBlock.draft names (.layout l trees) parent).whole.last = l.2.closing := by
      rw [NumberedBlock.draft, layoutDraft, blockHull]
      cases l.2.head.params <;> rfl
    rw [last, Block.written_eq, back_erase, ← List.append_assoc]
    exact ⟨_, rfl⟩
  | cell k trees =>
    rw [Block.written_eq, back_erase, ← List.append_assoc]
    exact ⟨_, rfl⟩

section Rows

variable {project : ProjectBlock} {ls : List Lexeme} {m : NumberedBlock} {brace : Lexeme}

/-- The brace of a block stands in the row that was read, right behind the last token of the last
child if there is one. -/
theorem exists_row (read : ProjectBlock.ofLexemes ls = .ok project) (inside : m ∈ project.blocks)
    (closing : NumberedBlock.closing? m = some brace) :
    ∃ before after, ls = before ++ brace :: after ∧
      ∀ c, m.children.getLast? = some c → ∀ names parent, ∃ others,
        before = others ++ [(NumberedBlock.draft names c parent).whole.last] := by
  -- The row fits the project as it is written, so it splits where the block does: first at its
  -- brace, and then, if there is a last child, behind the last token of that child.
  have fits := (written_fits read).2
  obtain ⟨front, back, whole⟩ := ProjectBlock.written_infix_of_mem_blocks inside
  have shape : project.inWrittenOrder =
      (front ++ (Block.front (NumberedBlock.erase m) ++
        (NumberedBlock.erase m).children.flatMap Block.written)) ++ .own brace :: back := by
    rw [← whole, Block.written_eq, back_erase, closing]
    simp
  rw [shape] at fits
  obtain ⟨before, rest, rfl, ahead, behind⟩ := exists_append_of_forall₂ fits
  obtain ⟨l, after, own, -, rfl⟩ := List.forall₂_cons_left_iff.mp behind
  obtain rfl : brace = l := own
  refine ⟨before, after, rfl, fun c last names parent => ?_⟩
  obtain ⟨others, children⟩ := List.getLast?_eq_some_iff.mp last
  obtain ⟨ws, written⟩ := exists_written_eq_concat names c parent
  rw [NumberedBlock.erase, Tree.children_map, children, List.map_append, List.flatMap_append,
    List.map_singleton, List.flatMap_singleton, ← NumberedBlock.erase, written] at ahead
  simp only [← List.append_assoc] at ahead
  obtain ⟨others, rest, rfl, -, final⟩ := exists_append_of_forall₂ ahead
  obtain ⟨l, none, own, empty, rfl⟩ := List.forall₂_cons_left_iff.mp final
  obtain rfl : _ = l := own
  obtain rfl := List.forall₂_nil_left_iff.mp empty
  exact ⟨others, rfl⟩

end Rows

/-! ### Insertion points -/

theorem isBlank_of_isIndent {c : Char} (indents : isIndent c = true) : isBlank c = true := by
  simp only [isIndent, isBlank, Bool.or_eq_true] at indents ⊢
  exact .inl (.inl indents)

theorem isIndent_of_mem_indentation {index : LineIndex} {number : Nat} {c : Char}
    (inside : c ∈ index.indentation number) : isIndent c = true := by
  cases number with
  | zero => contradiction
  | succ number =>
    rw [LineIndex.indentation] at inside
    cases found : index.lines[number]? with
    | none =>
      rw [found] at inside
      contradiction
    | some line =>
      rw [found] at inside
      exact List.mem_takeWhile_imp inside

theorem isIndent_of_mem_deeper {indentation : List Char}
    (indents : ∀ c ∈ indentation, isIndent c = true) : ∀ c ∈ deeper indentation,
      isIndent c = true := by
  intro c inside
  unfold deeper at inside
  split at inside
  all_goals
    rcases List.mem_append.mp inside with old | new
    · exact indents c old
    · revert new
      simp +contextual [isIndent]

/-- An insertion point between two pieces of a text, with nothing but trivia between it and a
brace. -/
structure LiesBefore (text : List Char) (point : InsertionPoint) (before after : List Lexeme)
    (brace : Lexeme) (ps qs : List Piece) : Prop where
  cut : cuts text = ps ++ qs
  line : ((LineIndex.ofText text).position (byteLength (ps.flatMap Piece.text))).line = point.line
  column : ((LineIndex.ofText text).position (byteLength (ps.flatMap Piece.text))).column =
    point.column
  indents : ∀ c ∈ point.indentation.toList, isIndent c = true
  ahead : ps.filterMap Piece.token? = before.map Lexeme.token
  behind : qs.filterMap Piece.token? = brace.token :: after.map Lexeme.token

/-- What is put at such a point stands between the two pieces. -/
theorem LiesBefore.inserts {text : String} {point : InsertionPoint} {before after : List Lexeme}
    {brace : Lexeme} {ps qs : List Piece}
    (lies : LiesBefore text.toList point before after brace ps qs) (more : String) :
    Inserts text point more (String.ofList
      (ps.flatMap Piece.text ++ (more.toList ++ qs.flatMap Piece.text))) := by
  refine ⟨_, _, ?_, lies.line, lies.column, rfl⟩
  rw [← List.flatMap_append, ← lies.cut, cuts_text]

section Points

variable {text : List Char} (clean : (scan text).diagnostics = []) {before after : List Lexeme}
  {brace : Lexeme}

include clean

/-- The point behind a child lies behind the last token of the child. -/
theorem liesBefore_afterChild {l : Lexeme} {child : Entry}
    (row : (scan text).lexemes = (before ++ [l]) ++ brace :: after)
    (stop : child.range.stop = l.range.stop) :
    ∃ ps qs, LiesBefore text (child.afterChild (LineIndex.ofText text)) (before ++ [l]) after
      brace ps qs := by
  rw [List.append_assoc, List.singleton_append] at row
  obtain ⟨ps, qs, cut, ahead, behind, span, range⟩ := exists_cut clean row
  rw [range, span] at stop
  refine ⟨ps ++ [.token l.token], qs, ?_, ?_, ?_, ?_, ?_, behind⟩
  · rw [cut, List.append_assoc, List.singleton_append]
  · rw [Entry.afterChild, stop]
    rfl
  · rw [Entry.afterChild, stop]
    rfl
  · intro c inside
    rw [Entry.afterChild, String.toList_ofList] at inside
    exact isIndent_of_mem_indentation inside
  · rw [List.filterMap_append, ahead, List.map_append]
    rfl

/-- The point before the closing brace of a container lies right in front of that brace. -/
theorem liesBefore_beforeClose {container : Entry}
    (row : (scan text).lexemes = before ++ brace :: after)
    (right : brace.token = .mark .rightBrace)
    (stop : (container.bodyRange.getD container.range).stop = brace.range.stop) :
    ∃ ps qs, LiesBefore text (container.beforeClose (LineIndex.ofText text)) before after
      brace ps qs := by
  obtain ⟨ps, qs, cut, ahead, behind, span, range⟩ := exists_cut clean row
  -- The brace takes up one column.
  have shape : text = ps.flatMap Piece.text ++ '}' :: qs.flatMap Piece.text := by
    have whole := cuts_text text
    rw [cut, right, List.flatMap_append, List.flatMap_cons] at whole
    exact whole.symm
  have bytes : (ps ++ [Piece.token brace.token]).flatMap Piece.text =
      ps.flatMap Piece.text ++ ['}'] := by
    rw [right, List.flatMap_append]
    rfl
  obtain ⟨line, column⟩ := position_append_cons (ps.flatMap Piece.text) (qs.flatMap Piece.text)
    (show '}' ≠ '\n' by decide)
  rw [← shape] at line column
  rw [range, span, bytes] at stop
  refine ⟨ps, .token brace.token :: qs, cut, ?_, ?_, ?_, ahead, congrArg _ behind⟩
  · rw [Entry.beforeClose, stop]
    exact line.symm
  · rw [Entry.beforeClose, stop]
    have place : ∀ index : LineIndex, ∀ s : Span, (index.range s).stop = index.position s.stop :=
      fun _ _ => rfl
    rw [place, column, Nat.add_sub_cancel]
  · intro c inside
    rw [Entry.beforeClose, String.toList_ofList] at inside
    exact isIndent_of_mem_deeper (fun _ => isIndent_of_mem_indentation) c inside

end Points

theorem insertionPoint?_of_isContainer {index : LineIndex} {entries : List Entry} {e : Entry}
    (container : e.kind.isContainer = true) : e.insertionPoint? index entries =
      some ((lastChild? entries e.id).elim (e.beforeClose index) (Entry.afterChild index)) := by
  rw [Entry.insertionPoint?, if_pos container]
  cases lastChild? entries e.id <;> rfl

/-- A block opens with a brace of its own in front of its children. -/
theorem exists_opening (names : DefinedNames) {m : NumberedBlock} {brace : Lexeme}
    (closing : NumberedBlock.closing? m = some brace) (parent : NodeId) :
    ∃ opening ∈ owned (Block.front (NumberedBlock.erase m)),
      (NumberedBlock.draft names m parent).body = some (opening, brace) := by
  cases m with
  | component c => contradiction
  | layout l trees =>
    obtain rfl := Option.some.inj closing
    refine ⟨l.2.head.opening, ?_, rfl⟩
    rw [NumberedBlock.erase, Tree.map_layout]
    simp [Block.front, LayoutHead.written]
  | cell k trees =>
    obtain rfl := Option.some.inj closing
    refine ⟨k.2.head.opening, ?_, rfl⟩
    rw [NumberedBlock.erase, Tree.map_cell]
    simp [Block.front, CellHead.written]

theorem isContainer_of_closing (names : DefinedNames) {m : NumberedBlock} {brace : Lexeme}
    (closing : NumberedBlock.closing? m = some brace) (parent : NodeId) :
    (NumberedBlock.draft names m parent).subject.kind.isContainer = true := by
  cases m with
  | component c => contradiction
  | layout l trees => rfl
  | cell k trees => rfl

namespace ProjectBlock

variable {text : List Char} {project : ProjectBlock} {m : NumberedBlock} {brace : Lexeme}

/-- An insertion point is chosen by the last child of the block, if there is one. -/
theorem insertion_placed (text : List Char) (project : ProjectBlock)
    (closing : NumberedBlock.closing? m = some brace) (parent : NodeId) :
    (project.placed text (NumberedBlock.draft project.names m parent)).insertion =
      some ((lastChild? (project.drafts.map Draft.entry) (NumberedBlock.ticket m).id).elim
        ((NumberedBlock.draft project.names m parent).entry.beforeClose (LineIndex.ofText text))
        (Entry.afterChild (LineIndex.ofText text))) := by
  have id : (NumberedBlock.draft project.names m parent).entry.id = (NumberedBlock.ticket m).id :=
    id_draft m parent
  rw [← id]
  exact insertionPoint?_of_isContainer (isContainer_of_closing project.names closing parent)

section Read

variable (clean : (scan text).diagnostics = [])
  (read : ofLexemes (scan text).lexemes = .ok project) (inside : m ∈ project.blocks)
  {before after : List Lexeme}

include clean read inside

/-- The point before the closing brace of a block lies right in front of that brace. -/
theorem draft_beforeClose (closing : NumberedBlock.closing? m = some brace)
    (right : brace.token = .mark .rightBrace)
    (row : (scan text).lexemes = before ++ brace :: after) (parent : NodeId) :
    ∃ ps qs, LiesBefore text
      ((NumberedBlock.draft project.names m parent).entry.beforeClose (LineIndex.ofText text))
      before after brace ps qs := by
  obtain ⟨opening, opens, body⟩ := exists_opening project.names closing parent
  have inBlock := (pairwise_owned read).sublist
    ((written_infix_of_mem_blocks inside).sublist.filterMap _)
  change (NumberedBlock.lexemes m).Pairwise _ at inBlock
  have closes : brace ∈ owned (Block.back (NumberedBlock.erase m)) := by
    rw [back_erase, closing]
    exact List.mem_cons_self
  have later : opening.StopsBefore brace := by
    rw [NumberedBlock.lexemes_eq] at inBlock
    exact (List.pairwise_append.mp inBlock).2.2 opening opens brace
      (List.mem_append_right _ closes)
  -- The body ends with the brace, since its other end stops earlier.
  have stop : (((NumberedBlock.draft project.names m parent).entry.bodyRange).getD
      (NumberedBlock.draft project.names m parent).entry.range).stop = brace.range.stop := by
    rw [Draft.entry, body, Option.map_some, Option.getD_some, CodeRange.union]
    exact if_pos later
  exact liesBefore_beforeClose clean row right stop

/-- The point behind a child of a block lies behind the last token of the child. -/
theorem draft_afterChild {c : NumberedBlock} (child : c ∈ m.children)
    (row : (scan text).lexemes = (before ++ [(NumberedBlock.draft project.names c
      (NumberedBlock.ticket m).id).whole.last]) ++ brace :: after) :
    ∃ ps qs, LiesBefore text
      ((NumberedBlock.draft project.names c (NumberedBlock.ticket m).id).entry.afterChild
        (LineIndex.ofText text))
      (before ++ [(NumberedBlock.draft project.names c
        (NumberedBlock.ticket m).id).whole.last]) after brace ps qs := by
  have drafted : NumberedBlock.draft project.names c (NumberedBlock.ticket m).id ∈
      project.drafts := by
    have held : NumberedBlock.draft project.names c (NumberedBlock.ticket m).id ∈
        project.drafts.filter (·.parent == some (NumberedBlock.ticket m).id) := by
      rw [filter_drafts inside]
      exact List.mem_map_of_mem child
    exact (List.mem_filter.mp held).1
  have stop : (NumberedBlock.draft project.names c
      (NumberedBlock.ticket m).id).entry.range.stop = _ :=
    Hull.range_stop _ ((pairwise_owned read).sublist (sublist_of_mem_drafts drafted))
  exact liesBefore_afterChild clean row stop

/-- The insertion point of a block lies behind its children, in front of its closing brace. -/
theorem exists_insertion (closing : NumberedBlock.closing? m = some brace)
    (right : brace.token = .mark .rightBrace) (parent : NodeId) :
    ∃ point before after ps qs,
      (project.placed text (NumberedBlock.draft project.names m parent)).insertion = some point ∧
      (scan text).lexemes = before ++ brace :: after ∧
      LiesBefore text point before after brace ps qs := by
  obtain ⟨before, after, row, last⟩ := exists_row read inside closing
  have chosen := insertion_placed text project closing parent
  have children := lastChild?_of_read read (NumberedBlock.ticket m).id
  rw [filter_drafts inside, List.getLast?_map, Option.map_map] at children
  cases found : m.children.getLast? with
  | none =>
    rw [children, found] at chosen
    obtain ⟨ps, qs, lies⟩ := draft_beforeClose clean read inside closing right row parent
    exact ⟨_, before, after, ps, qs, chosen, row, lies⟩
  | some c =>
    rw [children, found] at chosen
    obtain ⟨others, rfl⟩ := last c found project.names (NumberedBlock.ticket m).id
    obtain ⟨ps, qs, lies⟩ := draft_afterChild clean read inside (List.mem_of_getLast? found) row
    exact ⟨_, _, after, ps, qs, chosen, row, lies⟩

end Read

/-- What a block becomes is the only part of the project that bears its id. -/
theorem hasContainer (inside : m ∈ project.blocks)
    (closing : NumberedBlock.closing? m = some brace) :
    project.lowered.HasContainer (NumberedBlock.ticket m).id := by
  refine ⟨⟨NumberedBlock.element m, project.element_mem_walk inside, id_element m, ?_⟩,
    project.count_id inside⟩
  cases m with
  | component c => contradiction
  | layout k trees => simp [NumberedBlock.element]
  | cell k trees => simp [NumberedBlock.element]

/-- Blocks close with braces. -/
theorem token_of_closing {ls : List Lexeme} (read : ofLexemes ls = .ok project)
    (distinct : ls.Nodup) (inside : m ∈ project.blocks)
    (closing : NumberedBlock.closing? m = some brace) : brace.token = .mark .rightBrace := by
  obtain ⟨before, after, rfl, -⟩ := exists_row read inside closing
  have free := fun l => Graft.one_eq_nil_of_mem (l := l) distinct ⟨brace, brace, []⟩
  obtain ⟨-, -, -, -, right, -⟩ := exists_close free read inside closing
    (by rw [Graft.one_self]; exact List.cons_ne_nil _ _)
  exact right

/-- The graft of one component in front of the brace of a block appends that component to what bears
the id of the block. -/
theorem appends_one (distinct : (owned project.inWrittenOrder).Nodup) (inside : m ∈ project.blocks)
    (closing : NumberedBlock.closing? m = some brace) (c : ComponentBlock) :
    ∀ n ∈ project.blocks,
      (Graft.one brace c).Appends (NumberedBlock.ticket m).id c.plain n := by
  intro n listed l closes
  by_cases same : l = brace
  · subst same
    obtain rfl := eq_of_closing distinct listed inside closes closing
    rw [Graft.one_self, behindChildren, if_pos rfl, List.map_singleton, List.map_singleton,
      Block.plain, clearTree, Tree.map_component, Tree.map_component]
    rfl
  · -- A block that is closed by another brace bears another id.
    have other : (NumberedBlock.ticket n).id ≠ (NumberedBlock.ticket m).id := by
      intro ids
      obtain rfl := eq_of_id listed inside ids
      exact same (Option.some.inj (closes.symm.trans closing))
    rw [Graft.one_of_ne same, behindChildren, if_neg (by simpa using other)]
    rfl

end ProjectBlock

/-! ### Writing a component -/

/-- A text with a component spliced in at the insertion point of a block is read to the project with
that component appended to the block. -/
theorem ProjectBlock.exists_spliced {text : List Char} {project : ProjectBlock}
    {m : NumberedBlock} {brace : Lexeme} {point : InsertionPoint} {before after : List Lexeme}
    {ps qs : List Piece} (clean : (scan text).diagnostics = [])
    (read : ofLexemes (scan text).lexemes = .ok project) (inside : m ∈ project.blocks)
    (closing : NumberedBlock.closing? m = some brace)
    (row : (scan text).lexemes = before ++ brace :: after)
    (lies : LiesBefore text point before after brace ps qs) {l : Lexeme} (proper : l.token.Proper)
    (named : l.token.isName = true) {spliced : List Char}
    (whole : spliced =
      (ps ++ (componentLine point.indentation.toList l.token ++ qs)).flatMap Piece.text) :
    (scan spliced).diagnostics = [] ∧
      ∃ block, ofLexemes (scan spliced).lexemes = .ok block ∧
        block.lowered.clearIds = (project.lowered.append (NumberedBlock.ticket m).id
          ⟨l.text, .empty, none⟩).clearIds := by
  have distinct := scan_nodup text
  have right := token_of_closing read distinct inside closing
  have behind := lies.behind
  rw [right] at behind
  obtain ⟨clean', tokens⟩ := scan_splice clean lies.cut behind
    (fun c held => isBlank_of_isIndent (lies.indents c held)) proper
  rw [← whole] at clean' tokens
  refine ⟨clean', ?_⟩
  -- The tokens are those of the row with the component in front of the brace.
  let keyword : Lexeme := ⟨.keyword .component, {}, {}⟩
  have same : (scan spliced).lexemes.map Lexeme.token =
      (before ++ ([keyword, l] ++ brace :: after)).map Lexeme.token := by
    rw [tokens, lies.ahead, lies.behind]
    simp [keyword]
  let component : ComponentBlock := ⟨keyword.bare, l.bare, []⟩
  have planted : ofLexemes ((before ++ ([keyword, l] ++ brace :: after)).map Lexeme.bare) =
      .ok (project.grafted (.one brace component)) := by
    rw [row] at read distinct
    exact ofLexemes_planted (fun _ => Graft.one_eq_nil_of_mem distinct component) read inside
      closing (Graft.one_self brace component) rfl named
  rw [← map_bare_eq same] at planted
  obtain ⟨block, read', bare⟩ := exists_of_ofLexemes_bare planted
  have held : (owned project.inWrittenOrder).Nodup :=
    distinct.sublist (owned_sublist (written_fits read).2)
  refine ⟨block, read', ?_⟩
  rw [← block.lowered_bare, bare, clearIds_lowered,
    ← clearIds_append (appends_one held inside closing component)]
  rfl

/-- What is written at the insertion point of a layout or cell is appended there. A component of any
type can be written in just one way. Nothing is wrong with the tokens of the text afterwards, and
the project is the old one, up to ids, with a component that has no properties as the last child of
the layout or cell. -/
theorem insertion_appends {text : String} {project : Project} {map : SourceMap}
    (clean : (scan text.toList).diagnostics = [])
    (built : (tolerant text).built = some (project, map)) {e : Entry} (listed : e ∈ map.entries)
    (container : e.kind = .layout ∨ e.kind = .cell) {word : String} {l : Lexeme}
    (lexed : lexemes? word.toList = .ok [l]) (named : l.token.isName = true)
    (whole : l.text = word) :
    project.HasContainer e.id ∧ (∃! text', WritesComponent text e word text') ∧
      ∀ text', WritesComponent text e word text' →
        (scan text'.toList).diagnostics = [] ∧
          ∃ project' map', (tolerant text').built = some (project', map') ∧
            project'.clearIds = (project.append e.id ⟨word, .empty, none⟩).clearIds := by
  cases read : ProjectBlock.ofLexemes (scan text.toList).lexemes with
  | error fault =>
    rw [tolerant_of_fault read] at built
    contradiction
  | ok block =>
    rw [tolerant_of_block read, block.build_eq] at built
    obtain ⟨rfl, rfl⟩ := Prod.mk.inj (Option.some.inj built)
    obtain ⟨d, drafted, rfl⟩ := List.mem_map.mp listed
    obtain ⟨m, inside, parent, brace, rfl, closing⟩ :=
      ProjectBlock.exists_block_of_draft drafted container
    have right := ProjectBlock.token_of_closing read (scan_nodup _) inside closing
    obtain ⟨point, before, after, ps, qs, chosen, row, lies⟩ :=
      ProjectBlock.exists_insertion clean read inside closing right parent
    obtain ⟨lexical, single⟩ := lexemes?_eq_ok_iff.mp lexed
    have proper : l.token.Proper := proper_of_clean lexical l.token (by simp [single])
    -- What is written at the point is a row of pieces, like the text around it.
    have line : ("\n" ++ point.indentation ++ "component " ++ word).toList =
        (componentLine point.indentation.toList l.token).flatMap Piece.text := by
      have spelled : l.token.text = word := whole
      rw [text_componentLine, spelled]
      simp
    let text' := String.ofList (ps.flatMap Piece.text ++
      (("\n" ++ point.indentation ++ "component " ++ word).toList ++ qs.flatMap Piece.text))
    have inserts : Inserts text point ("\n" ++ point.indentation ++ "component " ++ word) text' :=
      lies.inserts _
    have unique : ∀ other, WritesComponent text
        (block.placed text.toList (NumberedBlock.draft block.names m parent)) word other →
        other = text' := by
      rintro other ⟨point', chosen', inserts'⟩
      obtain rfl := Option.some.inj (chosen.symm.trans chosen')
      exact inserts'.unique inserts
    have id : (block.placed text.toList (NumberedBlock.draft block.names m parent)).id =
        (NumberedBlock.ticket m).id :=
      id_draft m parent
    refine ⟨id ▸ ProjectBlock.hasContainer inside closing,
      ⟨text', ⟨point, chosen, inserts⟩, unique⟩, ?_⟩
    intro other writes
    obtain rfl := unique other writes
    have spliced : text'.toList =
        (ps ++ (componentLine point.indentation.toList l.token ++ qs)).flatMap Piece.text := by
      rw [String.toList_ofList, line, List.flatMap_append, List.flatMap_append]
    obtain ⟨clean', block', read', same⟩ :=
      ProjectBlock.exists_spliced clean read inside closing row lies proper named spliced
    have built' := congrArg Analysis.built (tolerant_of_block read')
    rw [block'.build_eq] at built'
    rw [whole, ← id] at same
    exact ⟨clean', _, _, built', same⟩

/-- A project with a cell that holds nothing yet. -/
def cellText : String :=
  "project \"Rows\" \x7b // no rows yet\n" ++
  "  screen Main \x7b layout stack \x7b cell \x7b\x7d \x7d \x7d \x7d"

theorem insertion_cellText : ∃ project map e,
    (tolerant cellText).built = some (project, map) ∧ e ∈ map.entries ∧ e.kind = .cell ∧
      project.HasContainer e.id ∧ (∃! text', WritesComponent cellText e "Button" text') ∧
      ∀ text', WritesComponent cellText e "Button" text' →
        (scan text'.toList).diagnostics = [] ∧
          ∃ project' map', (tolerant text').built = some (project', map') ∧
            project'.clearIds = (project.append e.id ⟨"Button", .empty, none⟩).clearIds := by
  have clean : (scan cellText.toList).diagnostics = [] := by decide +kernel
  have cell : ((tolerant cellText).built.elim [] fun built =>
      built.2.entries.filter (·.kind = .cell)) ≠ [] := by decide +kernel
  cases built : (tolerant cellText).built with
  | none => simp [built] at cell
  | some parts =>
    rw [built] at cell
    obtain ⟨e, found⟩ := List.exists_mem_of_ne_nil _ cell
    obtain ⟨listed, kind⟩ := List.mem_filter.mp found
    have tokens : (scan "Button".toList).lexemes.map Lexeme.token = [.name "Button"] := by
      decide +kernel
    obtain ⟨l, single, name⟩ := List.map_eq_singleton_iff.mp tokens
    have lexed : lexemes? "Button".toList = .ok [l] :=
      lexemes?_eq_ok_iff.mpr ⟨by decide +kernel, single⟩
    have cellKind : e.kind = .cell := of_decide_eq_true kind
    exact ⟨parts.1, parts.2, e, rfl, listed, cellKind, insertion_appends clean built listed
      (.inr cellKind) lexed (by rw [name]; rfl) (by rw [Lexeme.text, name]; rfl)⟩

end Wireframe
