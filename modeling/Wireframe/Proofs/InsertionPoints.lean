import Wireframe.Proofs.DocumentIds
import Wireframe.Proofs.DraftForm
import Wireframe.Proofs.Insertion
import Wireframe.Proofs.Lookup

/-!
# Where insertion points stand

An insertion point lies at the end of what a container holds: right behind its last child, or right
before its closing brace if it has none. The last child is the one that ends last, which is the same
as the last one in the source map, and the place of the brace is reckoned back from where the body
stops. The blanks that it goes with are those of the line of the child, or those of the line of the
container and one level more.

## Main definitions

* `LineOpens` — the blanks that open a line of a text.
* `InsertionPoint.Follows` — a point behind a child.
* `InsertionPoint.Fills` — a point in a container without children.

## Main results

* `lineOpens_indentation` — the indentation of a line is what opens it.
* `insertion_points` — the insertion points of the source map of a text.
-/

namespace Wireframe

/-! ### Lines -/

/-- A line of a text, counted from one, opens with some blanks and with no more than these. -/
def LineOpens (text : List Char) (line : Nat) (blanks : List Char) : Prop :=
  ∃ before after, text = before ++ (blanks ++ after) ∧ before.count '\n' + 1 = line ∧
    (∀ c, before.getLast? = some c → c = '\n') ∧ (∀ c ∈ blanks, isIndent c = true) ∧
    ∀ c, after.head? = some c → isIndent c = false

/-- The indentation of a line on which a part of the text ends is what opens that line. -/
theorem lineOpens_indentation (before after : List Char) :
    LineOpens (before ++ after) (before.count '\n' + 1)
      ((LineIndex.ofText (before ++ after)).indentation (before.count '\n' + 1)) := by
  obtain ⟨line, found, -, shape⟩ := linesFrom_getElem? before after 0
  have lines : (LineIndex.ofText (before ++ after)).lines =
      (linesFrom 0 (before ++ after)).toArray := rfl
  have blanks : (LineIndex.ofText (before ++ after)).indentation (before.count '\n' + 1) =
      line.text.takeWhile isIndent := by
    rw [LineIndex.indentation, lines, List.getElem?_toArray, found, Option.elim_some]
  have cut : before.rdropWhile onLine ++ before.rtakeWhile onLine = before :=
    List.rdropWhile_append_rtakeWhile
  have onIt : '\n' ∉ before.rtakeWhile onLine := fun breaks => by
    simpa [onLine] using List.mem_rtakeWhile_imp breaks
  refine ⟨before.rdropWhile onLine, line.text.dropWhile isIndent ++ after.dropWhile onLine,
    ?_, ?_, ?_, ?_, ?_⟩
  · rw [blanks, ← List.append_assoc (line.text.takeWhile isIndent), List.takeWhile_append_dropWhile,
      shape, List.append_assoc, List.takeWhile_append_dropWhile, ← List.append_assoc, cut]
  · have count := congrArg (List.count '\n') cut
    rw [List.count_append, List.count_eq_zero.mpr onIt] at count
    omega
  · -- What is left of a part without its last line ends with a line feed.
    intro c last
    obtain ⟨others, ends⟩ := List.getLast?_eq_some_iff.mp last
    have nonempty : before.rdropWhile onLine ≠ [] := by
      rw [ends]
      simp
    have breaks := List.rdropWhile_last_not onLine before nonempty
    simp only [ends, List.getLast_append_singleton, onLine] at breaks
    simpa using breaks
  · rw [blanks]
    exact fun c inside => List.mem_takeWhile_imp inside
  · intro c first
    rw [List.head?_append] at first
    have inLine := List.head?_dropWhile_not isIndent line.text
    cases more : (line.text.dropWhile isIndent).head? with
    | some d =>
      rw [more] at first inLine
      obtain rfl := Option.some.inj first
      exact inLine
    | none =>
      -- Nothing else is on the line, so what follows is the line feed.
      rw [more, Option.none_or] at first
      have breaks := List.head?_dropWhile_not onLine after
      rw [first] at breaks
      obtain rfl : c = '\n' := by simpa [onLine] using breaks
      rfl

theorem lineOpens_of_boundary {text : List Char} {o : Nat} (inside : Boundary text o) :
    LineOpens text ((LineIndex.ofText text).position o).line
      ((LineIndex.ofText text).indentation ((LineIndex.ofText text).position o).line) := by
  obtain ⟨before, after, rfl, rfl⟩ := inside
  rw [position_append]
  exact lineOpens_indentation before after

/-- One level more is a tab behind blanks that start with one, and two spaces otherwise. -/
theorem deeper_eq (blanks : List Char) :
    deeper blanks = blanks ++ if blanks.head? = some '\t' then ['\t'] else [' ', ' '] := by
  unfold deeper
  split
  case h_1 => rfl
  case h_2 other =>
    rw [if_neg]
    intro tab
    obtain ⟨others, rfl⟩ := List.head?_eq_some_iff.mp tab
    exact other others rfl

/-- A brace takes up one column. -/
theorem stop_of_rightBrace {text : List Char} {l : Lexeme} (inside : l ∈ (scan text).lexemes)
    (right : l.token = .mark .rightBrace) :
    l.range.stop.line = l.range.start.line ∧ l.range.stop.column = l.range.start.column + 1 := by
  obtain ⟨⟨before, after, split, span⟩, range⟩ := stands_of_mem_lexemes inside
  have shape : l.text.toList = ['}'] := congrArg (fun t : Token => t.text.toList) right
  rw [shape] at split span
  rw [range, span, LineIndex.range, split, List.append_assoc, List.singleton_append]
  exact position_append_cons before after (by decide)

/-! ### Insertion points -/

/-- A point right behind a child, for a line with the blanks of the line of the child. -/
structure InsertionPoint.Follows (p : InsertionPoint) (text : List Char) (child : Entry) :
    Prop where
  line : p.line = child.range.stop.line
  column : p.column = child.range.stop.column
  after : p.after = some child.id
  indentation : LineOpens text child.range.start.line p.indentation.toList

/-- A point right before the closing brace of a container, for a line with the blanks of the line
of the container and one level more. -/
structure InsertionPoint.Fills (p : InsertionPoint) (text : List Char) (container : Entry) :
    Prop where
  brace : ∃ opening ∈ (scan text).lexemes, ∃ closing ∈ (scan text).lexemes,
    opening.token = .mark .leftBrace ∧ closing.token = .mark .rightBrace ∧
      container.bodyRange = some ⟨opening.range.start, closing.range.stop⟩ ∧
      container.range.stop = closing.range.stop ∧
      p.line = closing.range.start.line ∧ p.column = closing.range.start.column
  after : p.after = none
  indentation : ∃ blanks, LineOpens text container.range.start.line blanks ∧
    p.indentation.toList = blanks ++ if blanks.head? = some '\t' then ['\t'] else [' ', ' ']

namespace ProjectBlock

variable {text : List Char} {project : ProjectBlock}
  (read : ofLexemes (scan text).lexemes = .ok project) {d : Draft} (inside : d ∈ project.drafts)

include read inside

theorem boundary_of_read : ∃ o, Boundary text o ∧
    d.entry.range.start = (LineIndex.ofText text).position o := by
  have whole := whole_of_read read inside
  refine ⟨_, (Hull.onBoundaries whole).start, ?_⟩
  rw [Draft.entry, Hull.range_eq whole]
  rfl

/-- The line on which a part starts opens with its indentation. -/
theorem lineOpens_of_read : LineOpens text d.entry.range.start.line
    ((LineIndex.ofText text).indentation d.entry.range.start.line) := by
  obtain ⟨o, boundary, start⟩ := boundary_of_read read inside
  rw [start]
  exact lineOpens_of_boundary boundary

theorem follows_of_read :
    (d.entry.afterChild (LineIndex.ofText text)).Follows text (project.placed text d) where
  line := rfl
  column := rfl
  after := rfl
  indentation := by
    rw [Entry.afterChild, String.toList_ofList]
    exact lineOpens_of_read read inside

theorem fills_of_read (container : d.subject.kind.isContainer = true) :
    (d.entry.beforeClose (LineIndex.ofText text)).Fills text (project.placed text d) where
  brace := by
    have spelt := (drafted_of_mem inside).spelt (sound_of_read read)
    obtain ⟨row, takes, part⟩ := exists_takes_of_read read inside
    obtain ⟨b, body⟩ : ∃ b, d.body = some b := by
      refine Option.ne_none_iff_exists'.mp fun none => ?_
      rw [spelt.bodiless none] at container
      contradiction
    have braces := (takes.body b body).trans part
    have opens : b.1 ∈ (scan text).lexemes := braces.subset List.mem_cons_self
    have closes : b.2 ∈ (scan text).lexemes :=
      braces.subset (List.mem_cons_of_mem _ List.mem_cons_self)
    obtain ⟨left, right⟩ := takes.braces b body
    have range : d.entry.bodyRange = some ⟨b.1.range.start, b.2.range.stop⟩ := by
      rw [Draft.entry, body, range_of_mem opens, range_of_mem closes]
      exact congrArg some (Hull.range_eq (h := ⟨b.1, [b.2]⟩) braces)
    obtain ⟨line, column⟩ := stop_of_rightBrace closes right
    refine ⟨b.1, opens, b.2, closes, left, right, range, ?_, ?_, ?_⟩
    · exact (stop_of_read read inside).trans (congrArg (·.range.stop) (spelt.body b body))
    · rw [Entry.beforeClose, range]
      exact line
    · rw [Entry.beforeClose, range]
      exact Nat.sub_eq_of_eq_add column
  after := rfl
  indentation := by
    refine ⟨_, lineOpens_of_read read inside, ?_⟩
    rw [Entry.beforeClose, String.toList_ofList, deeper_eq]

end ProjectBlock

/-- Of the children of an entry the last one starts no earlier than any other one stops. -/
theorem SourceMap.Nested.eq_or_noLater_of_getLast? {map : SourceMap} {lexemes : List Lexeme}
    (nested : map.Nested lexemes) {id : NodeId} {f child : Entry} (inside : f ∈ map.children id)
    (last : (map.children id).getLast? = some child) :
    f = child ∨ f.range.stop.NoLater child.range.start := by
  have parent : ∀ {e : Entry}, e ∈ map.children id → e.parent = some id :=
    fun held => beq_iff_eq.mp (List.mem_filter.mp held).2
  have siblings := parent inside |>.trans (parent (List.mem_of_getLast? last)).symm
  obtain ⟨others, row⟩ := List.getLast?_eq_some_iff.mp last
  have apart : (map.children id).Pairwise fun e f =>
      e.parent = f.parent → e.range.stop.NoLater f.range.start := nested.siblings.filter _
  rw [row] at apart inside
  rcases List.mem_append.mp inside with earlier | same
  · exact .inr ((List.pairwise_append.mp apart).2.2 f earlier child List.mem_cons_self siblings)
  · exact .inl (List.mem_singleton.mp same)

namespace ProjectBlock

variable {text : List Char} {project : ProjectBlock}

/-- The children of an entry are those of its draft. -/
theorem children_entries (project : ProjectBlock) (text : List Char) (id : NodeId) :
    (SourceMap.mk (project.entries text)).children id =
      (project.drafts.filter (·.parent == some id)).map (project.placed text) := by
  rw [SourceMap.children, entries, List.filter_map]
  rfl

/-- Settings are children of the project. -/
theorem mem_children_of_isSettings {e : Entry} (listed : e ∈ project.entries text)
    (settings : e.kind.isSettings = true) : ∃ p ∈ project.entries text, p.kind = .project ∧
      e ∈ (SourceMap.mk (project.entries text)).children p.id := by
  obtain ⟨kind, same⟩ := NodeKind.exists_of_isSettings settings
  have parent := parent_of_settings listed same
  refine ⟨_, List.mem_cons_self, rfl, List.mem_filter.mpr ⟨listed, ?_⟩⟩
  exact beq_iff_eq.mpr parent

/-- Only containers have insertion points. -/
theorem isSome_insertion (project : ProjectBlock) (text : List Char) (d : Draft) :
    (project.placed text d).insertion.isSome = d.subject.kind.isContainer := by
  have chosen : (project.placed text d).insertion = d.entry.insertionPoint?
    (LineIndex.ofText text) (project.drafts.map Draft.entry) := rfl
  rw [chosen]
  cases container : d.subject.kind.isContainer with
  | true => rw [insertionPoint?_of_isContainer (e := d.entry) container, Option.isSome_some]
  | false =>
    have other : ¬ d.entry.kind.isContainer = true := Bool.eq_false_iff.mp container
    rw [Entry.insertionPoint?, if_neg other, Option.isSome_none]

/-- The insertion point of an entry is told by the last of its children. -/
theorem insertion_of_read (read : ofLexemes (scan text).lexemes = .ok project) {d : Draft}
    (container : d.subject.kind.isContainer = true) : (project.placed text d).insertion =
      some (((project.drafts.filter (·.parent == some d.id)).getLast?).elim
        (d.entry.beforeClose (LineIndex.ofText text))
        fun c => c.entry.afterChild (LineIndex.ofText text)) := by
  have chosen : (project.placed text d).insertion = _ :=
    insertionPoint?_of_isContainer (e := d.entry) container
  have last := lastChild?_of_read read d.id
  change lastChild? (project.drafts.map Draft.entry) d.entry.id = _ at last
  rw [chosen, last]
  cases (project.drafts.filter (·.parent == some d.id)).getLast? <;> rfl

end ProjectBlock

theorem NodeKind.isContainer_iff (kind : NodeKind) : kind.isContainer = true ↔ kind ∈
    [NodeKind.project, .screen, .layout, .cell, .componentDefinition, .layoutDefinition] := by
  cases kind <;> decide

/-- The insertion points of a source map stand at the end of what the containers hold. Just the
project, its screens, layouts, cells and definitions have one. Settings are children of the project,
and the children of an entry lie between its braces. Behind the last child in the map the others
have stopped, and the insertion point is right behind it; without a child it is right before the
closing brace. -/
theorem insertion_points {text : String} {project : Project} {map : SourceMap}
    (built : (tolerant text).built = some (project, map))
    (names : (project.definitions.map Definition.name).Nodup) :
    (∀ e ∈ map.entries, e.kind.isSettings = true →
      ∃ p ∈ map.entries, p.kind = .project ∧ e ∈ map.children p.id) ∧
    ∀ e ∈ map.entries,
      (e.insertion.isSome ↔ e.kind ∈ [NodeKind.project, .screen, .layout, .cell,
        .componentDefinition, .layoutDefinition]) ∧
      (∀ f ∈ map.children e.id, Entry.Encloses (scan text.toList).lexemes e f) ∧
      ∀ point, e.insertion = some point →
        (∀ child, (map.children e.id).getLast? = some child → point.Follows text.toList child ∧
          ∀ f ∈ map.children e.id, f = child ∨ f.range.stop.NoLater child.range.start) ∧
        (map.children e.id = [] → point.Fills text.toList e) := by
  obtain ⟨block, read, rfl, rfl⟩ := exists_block_of_built built
  have nested := ProjectBlock.nested_of_read read
  have distinct := block.nodup_entry_ids text.toList names
  refine ⟨fun e listed => ProjectBlock.mem_children_of_isSettings listed, fun e listed => ?_⟩
  have container : e.kind.isContainer = e.insertion.isSome := by
    obtain ⟨d, -, rfl⟩ := List.mem_map.mp listed
    exact (block.isSome_insertion text.toList d).symm
  refine ⟨by rw [← container, e.kind.isContainer_iff], fun f held => ?_, fun point chosen => ?_⟩
  · obtain ⟨inMap, parent⟩ := List.mem_filter.mp held
    exact nested.encloses distinct listed inMap (beq_iff_eq.mp parent)
  · obtain ⟨d, inside, rfl⟩ := List.mem_map.mp listed
    rw [chosen] at container
    obtain rfl := Option.some.inj
      (chosen.symm.trans (ProjectBlock.insertion_of_read read container))
    have children := block.children_entries text.toList d.id
    refine ⟨fun child last => ⟨?_, fun f held => nested.eq_or_noLater_of_getLast? held last⟩,
      fun none => ?_⟩
    · have last' := last
      rw [show (block.placed text.toList d).id = d.id from rfl, children, List.getLast?_map]
        at last'
      obtain ⟨c, final, rfl⟩ := Option.map_eq_some_iff.mp last'
      rw [final, Option.elim_some]
      exact ProjectBlock.follows_of_read read
        (List.mem_filter.mp (List.mem_of_getLast? final)).1
    · rw [show (block.placed text.toList d).id = d.id from rfl, children, List.map_eq_nil_iff]
        at none
      rw [none, List.getLast?_nil, Option.elim_none]
      exact ProjectBlock.fills_of_read read inside container

/-- A project that is indented by tabs, with an empty cell and with settings behind its screen. -/
def tabbedText : String :=
  "project \"P\" \x7b define Component \"A\" \x7b component Text \x7d\n" ++
  "\tscreen Main \x7b layout row \x7b\n\t\tcell span: 1 \x7b \x7d\n\t\x7d \x7d\n" ++
  "mocks \x7b a: 1 \x7d \x7d\n"

theorem insertion_points_tabbedText : ∃ project map,
    (tolerant tabbedText).built = some (project, map) ∧
      (project.definitions.map Definition.name).Nodup ∧
      ∃ e ∈ map.entries, e.id = "cell-0" ∧ map.children e.id = [] ∧
        ∃ point, e.insertion = some point ∧ point.indentation = "\t\t\t" ∧
          point.Fills tabbedText.toList e := by
  have found : (tolerant tabbedText).built.map (fun built =>
      (built.1.definitions.map Definition.name, (built.2.find? "cell-0").map fun e =>
        (e.insertion.map InsertionPoint.indentation, (built.2.children e.id).length))) =
      some (["A"], some (some "\t\t\t", 0)) := by decide +kernel
  obtain ⟨⟨project, map⟩, built, both⟩ := Option.map_eq_some_iff.mp found
  obtain ⟨names, cell⟩ := Prod.mk.inj both
  obtain ⟨e, here, values⟩ := Option.map_eq_some_iff.mp cell
  obtain ⟨indented, count⟩ := Prod.mk.inj values
  obtain ⟨point, chosen, indentation⟩ := Option.map_eq_some_iff.mp indented
  have distinct : (project.definitions.map Definition.name).Nodup := by
    rw [names]
    decide
  have listed : e ∈ map.entries := List.mem_of_find?_eq_some here
  have id : e.id = "cell-0" := beq_iff_eq.mp (List.find?_eq_some_iff_append.mp here).1
  have none : map.children e.id = [] := List.length_eq_zero_iff.mp count
  have fills := (((insertion_points built distinct).2 e listed).2.2 point chosen).2 none
  exact ⟨project, map, built, distinct, e, listed, id, none, point, chosen, indentation, fills⟩

end Wireframe
