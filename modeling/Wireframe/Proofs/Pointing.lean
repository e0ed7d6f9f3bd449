import Wireframe.Proofs.DocumentIds
import Wireframe.Proofs.Slicing
import Wireframe.Proofs.Validation

/-!
# Diagnostics point into the text

Wherever a diagnostic comes from, its range was read off the text that it is about. The lexer points
at what is no token, the reader at a token or at the start of an empty row, and the rules at a part
of the entry of their node. So a diagnostic can always be shown next to the text.

## Main definitions

* `CodeRange.PointsInto` — a range points into a text.
* `ReaderState.comma?` — the comma for which a state still waits to be told what it separates.
* `Entry.Offers` — a range at which an entry can be shown.
* `Diagnostic.Points` — a diagnostic points into the text that it is about.

## Main results

* `ReaderState.range_of_run` — the fault at which a run stops is shown at a token.
* `Project.exists_node_of_finding` — whatever the rules find, they find at a part of the project.
* `ProjectBlock.exists_draft_of_node` — every part of a project has a draft.
* `diagnostics_point` — all diagnostics of a text point into it, and semantic ones at their nodes.
-/

namespace Wireframe

/-- A range points into a text: its ends lie between characters of the text, the first one no later
than the second, and line and column are those of the offset. -/
structure CodeRange.PointsInto (r : CodeRange) (text : List Char) : Prop where
  ordered : r.span.start ≤ r.span.stop
  inside : r.span.stop ≤ byteLength text
  boundaries : OnBoundaries text r.span
  offsets : r.start.offset = some r.span.start ∧ r.stop.offset = some r.span.stop
  places : r.start = (LineIndex.ofText text).position r.span.start ∧
    r.stop = (LineIndex.ofText text).position r.span.stop

/-- A range at which an entry can be shown: that of the entry, of its name, or of the name or value
of a property. -/
def Entry.Offers (e : Entry) (r : CodeRange) : Prop :=
  r = e.range ∨ r ∈ e.nameRange ∨
    ∃ m ∈ e.properties, ∃ entry ∈ m.entries, r = entry.2.nameRange ∨ r = entry.2.valueRange

/-- A diagnostic points into the text that it is about. One of the rules names a node of the source
map and is shown at the entry of the node. If no name is defined twice, it is not shown anywhere
else. -/
structure Diagnostic.Points (d : Diagnostic) (text : String) : Prop where
  inside : d.range.PointsInto text.toList
  node : d.phase = .semantic → ∃ project map, (tolerant text).built = some (project, map) ∧
    (∃ e ∈ map.entries, d.nodeId = some e.id ∧ e.Offers d.range) ∧
    ((project.definitions.map Definition.name).Nodup →
      ∀ e ∈ map.entries, d.nodeId = some e.id → e.Offers d.range)

section Slices

variable {text part : List Char} {r : CodeRange}

theorem Slices.pointsInto (slices : Slices text part r) : r.PointsInto text := by
  have ordered := slices.stands.start_le_stop
  have boundaries := slices.stands.onBoundaries
  have start : r.start = (LineIndex.ofText text).position r.span.start :=
    congrArg CodeRange.start slices.places
  have stop : r.stop = (LineIndex.ofText text).position r.span.stop :=
    congrArg CodeRange.stop slices.places
  refine ⟨ordered, ?_, boundaries, ⟨?_, ?_⟩, start, stop⟩
  · obtain ⟨before, after, split, bytes⟩ := boundaries.stop
    rw [split, byteLength_append, bytes]
    exact Nat.le_add_right _ _
  · rw [start, offset_position boundaries.start]
  · rw [stop, offset_position boundaries.stop]

/-- The start of a text is the first position of its first line. -/
theorem slices_origin (text : List Char) : Slices text [] .origin := by
  have start : (LineIndex.ofText text).position 0 = .origin := position_append [] text
  have stands : Stands text [] ⟨0, 0⟩ := ⟨[], text, rfl, rfl⟩
  have slices := stands.slices
  rwa [LineIndex.range, start] at slices

end Slices

/-! ### Faults of the reader -/

/-- The comma after which a parameter has to come. -/
def ReaderState.comma? : ReaderState → Option Lexeme
  | .param _ _ _ comma => some comma
  | _ => none

section Comma

variable {t : Lexeme} {next : ReaderState}

theorem OpenProject.comma?_of_step {project : OpenProject} (step : project.step t = some next) :
    next.comma? = none := by
  unfold OpenProject.step at step
  split at step <;> cases step <;> rfl

theorem OpenItem.comma?_of_step {item : OpenItem} (step : item.step t = some next) :
    next.comma? = none := by
  unfold OpenItem.step at step
  split at step
  case h_1 =>
    cases step
    rfl
  case h_2 =>
    split at step <;> cases step
    rfl
  case h_3 => contradiction

theorem FilledItem.comma?_of_step {item : FilledItem} (step : item.step t = some next) :
    next.comma? = none := by
  unfold FilledItem.step at step
  split at step <;> cases step
  rfl

theorem OpenBlock.comma?_of_step {block : OpenBlock} (step : block.step t = some next) :
    next.comma? = none := by
  unfold OpenBlock.step at step
  split at step
  case h_3 => cases block <;> cases step <;> rfl
  case h_4 =>
    cases step
    cases block <;> rfl
  all_goals cases step <;> rfl

theorem ComponentSite.comma?_of_step {site : ComponentSite} {c : ComponentBlock}
    (step : site.step c t = some next) : next.comma? = none := by
  cases site with
  | body => exact FilledItem.comma?_of_step step
  | child => exact OpenBlock.comma?_of_step step

theorem ParamSite.comma?_of_step {site : ParamSite} {params : Option ParamList}
    (step : site.step params t = some next) : next.comma? = none := by
  unfold ParamSite.step at step
  split at step <;> cases step
  case h_1 => cases site <;> rfl
  case h_2 => rfl

private theorem forall_mem_none {p : Lexeme → Prop} : ∀ c ∈ (none : Option Lexeme), p c :=
  fun c waits => absurd waits (Option.not_mem_none c)

/-- Between properties a comma is taken only as the token that comes next. -/
theorem PropertySite.comma?_of_step {site : PropertySite} {properties : List WrittenProperty}
    (step : site.step properties t = some next) :
    ∀ c ∈ next.comma?, c = t ∧ t.token = .mark .comma := by
  unfold PropertySite.step at step
  split at step
  case isTrue =>
    cases step
    exact forall_mem_none
  case isFalse =>
    cases site with
    | component =>
      rw [ComponentSite.comma?_of_step step]
      exact forall_mem_none
    | settings | cell =>
      simp only [PropertySite.leave] at step
      split at step <;> cases step
      exact forall_mem_none
    | params =>
      simp only [PropertySite.leave] at step
      split at step <;> cases step
      case h_1 => exact forall_mem_none
      case h_2 sign _ => exact fun c same => ⟨(Option.some.inj same).symm, sign⟩

/-- A state that waits behind a comma has just read it. -/
theorem ReaderState.comma?_of_step {state : ReaderState} (step : state.step t = some next) :
    ∀ c ∈ next.comma?, c = t ∧ t.token = .mark .comma := by
  cases state with
  | property => exact PropertySite.comma?_of_step step
  | nothing => contradiction
  | item =>
    rw [OpenProject.comma?_of_step step]
    exact forall_mem_none
  | opening =>
    rw [ParamSite.comma?_of_step step]
    exact forall_mem_none
  | body =>
    rw [OpenItem.comma?_of_step step]
    exact forall_mem_none
  | child =>
    rw [OpenBlock.comma?_of_step step]
    exact forall_mem_none
  | itemEnd =>
    rw [FilledItem.comma?_of_step step]
    exact forall_mem_none
  | _ =>
    obtain ⟨-, ⟨⟩⟩ := Option.ite_none_right_eq_some.mp step
    exact nofun

end Comma

/-- What does not belong where it stands is shown itself or by what stands before it. -/
theorem SyntaxFault.range_unexpected (found : Lexeme) (previous : Option Lexeme)
    (expected : Expectation) :
    (unexpected found previous expected).range = found.range ∨
      ∃ before ∈ previous, (unexpected found previous expected).range = before.range := by
  simp only [range]
  split
  case h_1 before _ => exact .inr ⟨before, rfl, rfl⟩
  case h_2 => exact .inl rfl

/-- What is missing behind a comma is shown at the comma. -/
theorem SyntaxFault.range_paramEnd (comma : Lexeme) :
    (unexpected comma none .paramEnd).range = comma.range := by
  rcases range_unexpected comma none .paramEnd with same | ⟨_, none, -⟩
  · exact same
  · contradiction

/-- The fault at which a run stops is shown at a token that was read or comes next, or at the start
of the text if there is no token. -/
theorem ReaderState.range_of_run {state : ReaderState} {previous : Option Lexeme}
    {ls : List Lexeme} {fault : SyntaxFault} (ran : state.run previous ls = .error fault) :
    fault.range = .origin ∨
      ∃ l, (l ∈ previous ∨ l ∈ state.comma? ∨ l ∈ ls) ∧ fault.range = l.range := by
  -- Only a state behind a comma shows its fault at a token that is neither the last one read nor
  -- still to come.
  induction ls generalizing state previous with
  | nil =>
    cases state with
    | nothing => contradiction
    | param site opening properties comma =>
      cases ran
      exact .inr ⟨comma, .inr (.inl rfl), SyntaxFault.range_paramEnd comma⟩
    | _ =>
      cases ran
      cases previous with
      | none => exact .inl rfl
      | some last => exact .inr ⟨last, .inl rfl, rfl⟩
  | cons t others ih =>
    rw [run] at ran
    split at ran
    case h_1 next step =>
      -- The next state has seen this token, and a comma that it waits behind is this token.
      rcases ih ran with origin | ⟨l, seen, same⟩
      · exact .inl origin
      refine .inr ⟨l, .inr (.inr ?_), same⟩
      rcases seen with here | comma | later
      · rw [Option.some.inj here]
        exact List.mem_cons_self
      · rw [(comma?_of_step step l comma).1]
        exact List.mem_cons_self
      · exact List.mem_cons_of_mem _ later
    case h_2 =>
      obtain rfl := Except.error.inj ran
      have unexpected : ∀ expected, (SyntaxFault.unexpected t previous expected).range = .origin ∨
          ∃ l, (l ∈ previous ∨ l ∈ state.comma? ∨ l ∈ t :: others) ∧
            (SyntaxFault.unexpected t previous expected).range = l.range := by
        intro expected
        rcases SyntaxFault.range_unexpected t previous expected with same | ⟨l, before, same⟩
        · exact .inr ⟨t, .inr (.inr List.mem_cons_self), same⟩
        · exact .inr ⟨l, .inl before, same⟩
      cases state with
      | param site opening properties comma =>
        exact .inr ⟨comma, .inr (.inl rfl), SyntaxFault.range_paramEnd comma⟩
      | _ => exact unexpected _

theorem mem_of_firstTooDeep? {depth : Nat} {ls : List Lexeme} {brace : Lexeme}
    (found : firstTooDeep? depth ls = some brace) : brace ∈ ls := by
  obtain ⟨front, rest, rfl, -⟩ := exists_of_firstTooDeep? found
  exact List.mem_append_right _ List.mem_cons_self

/-- A fault in a row of tokens is shown at one of them, or at the start of the text. -/
theorem ProjectBlock.range_of_fault {ls : List Lexeme} {fault : SyntaxFault}
    (refused : ProjectBlock.ofLexemes ls = .error fault) :
    fault.range = .origin ∨ ∃ l ∈ ls, fault.range = l.range := by
  unfold ProjectBlock.ofLexemes at refused
  split at refused
  case h_1 brace deep =>
    obtain rfl := Except.error.inj refused
    exact .inr ⟨brace, mem_of_firstTooDeep? deep, rfl⟩
  case h_2 =>
    rcases ReaderState.range_of_run refused with origin | ⟨l, none | none | inside, same⟩
    · exact .inl origin
    · contradiction
    · contradiction
    · exact .inr ⟨l, inside, same⟩

/-! ### Findings -/

/-- Whatever the rules for definitions find, they find at a definition. -/
theorem exists_definition_of_finding {taken : List String} {ds : List Definition} {f : Finding}
    (found : f ∈ definitionFindings taken ds) : ∃ d ∈ ds, f.node = d.id := by
  induction ds generalizing taken with
  | nil => contradiction
  | cons d others ih =>
    rw [definitionFindings] at found
    rcases List.mem_append.mp found with own | later
    · obtain ⟨p, -, rfl⟩ := List.mem_map.mp own
      exact ⟨d, List.mem_cons_self, rfl⟩
    · obtain ⟨other, inside, same⟩ := ih later
      exact ⟨other, List.mem_cons_of_mem _ inside, same⟩

theorem exists_element_of_finding {scope : Scope} {e : Element} {f : Finding}
    (found : f ∈ e.gather scope.judge) : ∃ n ∈ e.walk, f.node = (Node.element n).id := by
  rw [gather_judge] at found
  obtain ⟨n, reached, own⟩ := List.mem_flatMap.mp found
  obtain ⟨p, -, rfl⟩ := List.mem_map.mp own
  exact ⟨n, reached, rfl⟩

/-- Whatever the rules find, they find at a part of the project. -/
theorem Project.exists_node_of_finding {project : Project} {f : Finding}
    (found : f ∈ project.findings) : ∃ n ∈ project.walk, f.node = n.id := by
  have ofDefinition : ∀ d ∈ project.definitions, ∀ n ∈ d.walk, n ∈ project.walk :=
    fun d held n own =>
      List.mem_cons_of_mem _ (List.mem_append_left _ (List.mem_flatMap.mpr ⟨d, held, own⟩))
  have ofScreen : ∀ s ∈ project.screens, ∀ n ∈ s.walk, n ∈ project.walk := fun s held n own =>
    List.mem_cons_of_mem _ (List.mem_append_right _ (List.mem_flatMap.mpr ⟨s, held, own⟩))
  rcases List.mem_append.mp found with before | cyclic
  · rcases List.mem_append.mp before with defining | inside
    · obtain ⟨d, held, same⟩ := exists_definition_of_finding defining
      exact ⟨.definition d, ofDefinition d held _ List.mem_cons_self, same⟩
    · rcases List.mem_append.mp inside with inDefinition | inScreen
      · obtain ⟨d, held, own⟩ := List.mem_flatMap.mp inDefinition
        obtain ⟨n, reached, same⟩ := exists_element_of_finding own
        exact ⟨.element n, ofDefinition d held _
          (List.mem_cons_of_mem _ (List.mem_map_of_mem reached)), same⟩
      · obtain ⟨s, held, own⟩ := List.mem_flatMap.mp inScreen
        obtain ⟨n, reached, same⟩ := exists_element_of_finding own
        exact ⟨.element n, ofScreen s held _
          (List.mem_cons_of_mem _ (List.mem_map_of_mem reached)), same⟩
  · unfold cycleFindings at cyclic
    split at cyclic
    · contradiction
    · rw [List.mem_singleton.mp cyclic]
      exact ⟨.project project, List.mem_cons_self, rfl⟩

namespace ProjectBlock

variable {project : ProjectBlock}

/-- Every part of a project has a draft. -/
theorem exists_draft_of_node {n : Node} (walked : n ∈ project.lowered.walk) :
    ∃ d ∈ project.drafts, n.id = some d.id := by
  have listed := project.perm_ids.mem_iff.mp (List.mem_map_of_mem walked)
  rcases List.mem_cons.mp listed with named | numbered
  · exact ⟨project.draft, List.mem_cons_self, named⟩
  · obtain ⟨t, taken, same⟩ := List.mem_map.mp numbered
    -- The ticket is that of a draft, with the same id.
    have label : t.label ∈ project.drafts.filterMap Draft.label? := by
      rw [filterMap_label?_project]
      exact List.mem_map_of_mem taken
    obtain ⟨d, drafted, shared⟩ := List.mem_filterMap.mp label
    obtain ⟨family, -, both⟩ := Option.map_eq_some_iff.mp shared
    refine ⟨d, drafted, ?_⟩
    rw [← same]
    exact congrArg some (congrArg Prod.snd both).symm

end ProjectBlock

/-! ### Entries -/

theorem OrderedMap.mem_of_get? {α : Type} {m : OrderedMap α} {key : String} {value : α}
    (found : m.get? key = some value) : ∃ entry ∈ m.entries, entry.2 = value := by
  obtain ⟨entry, first, same⟩ := Option.map_eq_some_iff.mp found
  exact ⟨entry, List.mem_of_find?_eq_some first, same⟩

/-- A part of an entry stands where the entry can be shown. -/
theorem Entry.offers_rangeOf (e : Entry) (place : Place) : e.Offers (e.rangeOf place) := by
  have listed : ∀ {property : String} {p : PropertyPlace}, e.property? property = some p →
      ∃ m ∈ e.properties, ∃ entry ∈ m.entries, entry.2 = p := by
    intro property p found
    obtain ⟨m, held, inside⟩ := Option.bind_eq_some_iff.mp found
    exact ⟨m, held, OrderedMap.mem_of_get? inside⟩
  cases place with
  | node => exact .inl rfl
  | name =>
    cases named : e.nameRange with
    | none => exact .inl (by rw [rangeOf, named]; rfl)
    | some r => exact .inr (.inl (by rw [rangeOf, named]; rfl))
  | propertyName property =>
    cases found : e.property? property with
    | none => exact .inl (by rw [rangeOf, found]; rfl)
    | some p =>
      obtain ⟨m, held, entry, inside, rfl⟩ := listed found
      exact .inr (.inr ⟨m, held, entry, inside, .inl (by rw [rangeOf, found]; rfl)⟩)
  | propertyValue property =>
    cases found : e.property? property with
    | none => exact .inl (by rw [rangeOf, found]; rfl)
    | some p =>
      obtain ⟨m, held, entry, inside, rfl⟩ := listed found
      exact .inr (.inr ⟨m, held, entry, inside, .inr (by rw [rangeOf, found]; rfl)⟩)

/-- An entry that reads back can only be shown inside the text. -/
theorem Entry.ReadsBack.pointsInto {text : List Char} {block : ProjectBlock} {project : Project}
    {e : Entry} (back : e.ReadsBack text block project) {r : CodeRange} (offers : e.Offers r) :
    r.PointsInto text := by
  rcases offers with rfl | named | ⟨m, held, entry, inside, own⟩
  · obtain ⟨part, slices⟩ := back.whole
    exact slices.pointsInto
  · obtain ⟨l, -, -, slices, -⟩ := back.name r named
    exact slices.pointsInto
  · obtain ⟨b, -, bearer⟩ := back.properties m held
    obtain ⟨_, _, _, -, -, -, name, value⟩ := (bearer.places entry inside).last
    rcases own with rfl | rfl
    · exact name.pointsInto
    · exact value.pointsInto

/-! ### The diagnostics of a text -/

/-- A finding is shown at an entry with the id of its node. -/
theorem exists_entry_of_finding {text : List Char} {block : ProjectBlock} {f : Finding}
    (found : f ∈ block.lowered.findings) :
    ∃ e ∈ block.entries text, f.node = some e.id ∧
      e.Offers (f.diagnostic ⟨block.entries text⟩).range := by
  obtain ⟨n, walked, same⟩ := Project.exists_node_of_finding found
  obtain ⟨d, drafted, id⟩ := ProjectBlock.exists_draft_of_node walked
  -- The id is found in the map, though perhaps at an entry before this one.
  have present : ((block.entries text).find? (·.id == d.id)).isSome = true :=
    List.find?_isSome.mpr ⟨block.placed text d, List.mem_map_of_mem drafted, beq_self_eq_true _⟩
  obtain ⟨e, first⟩ := Option.isSome_iff_exists.mp present
  have node : f.node = some d.id := same.trans id
  refine ⟨e, List.mem_of_find?_eq_some first, ?_, ?_⟩
  · have id : e.id = d.id := by simpa using List.find?_some first
    rw [node, id]
  · have range : (f.diagnostic ⟨block.entries text⟩).range = e.rangeOf f.problem.place := by
      rw [Finding.diagnostic, SourceMap.rangeOf?, node, Option.bind_some, SourceMap.find?, first]
      rfl
    rw [range]
    exact e.offers_rangeOf _

section Read

variable {text : List Char} {block : ProjectBlock} {d : Diagnostic}

theorem pointsInto_of_scan (scanned : d ∈ (scan text).diagnostics) : d.range.PointsInto text := by
  obtain ⟨placed, listed, -, range⟩ := exists_placed_of_mem_diagnostics scanned
  rw [range]
  exact (stands_of_mem_place listed).slices.pointsInto

theorem pointsInto_of_fault {fault : SyntaxFault}
    (refused : ProjectBlock.ofLexemes (scan text).lexemes = .error fault) :
    fault.diagnostic.range.PointsInto text := by
  have range : fault.diagnostic.range = fault.range := by cases fault <;> rfl
  rw [range]
  rcases ProjectBlock.range_of_fault refused with origin | ⟨l, inside, same⟩
  · rw [origin]
    exact (slices_origin text).pointsInto
  · rw [same]
    exact (slices_of_mem inside).pointsInto

variable (read : ProjectBlock.ofLexemes (scan text).lexemes = .ok block)

include read

/-- A missing screen is shown at the keyword and the name of the project. -/
theorem pointsInto_of_block (missing : d ∈ block.diagnostics) : d.range.PointsInto text := by
  unfold ProjectBlock.diagnostics at missing
  split at missing
  case isFalse => contradiction
  case isTrue =>
    have front : [block.head.keyword, block.head.name].Sublist (owned block.inWrittenOrder) := by
      rw [ProjectBlock.owned_inWrittenOrder]
      exact .cons_cons _ (.cons_cons _ (List.nil_sublist _))
    obtain ⟨part, slices, -⟩ := Hull.slicesBetween (h := ⟨block.head.keyword, [block.head.name]⟩)
      (front.trans (owned_sublist (written_fits read).2))
    rw [List.mem_singleton.mp missing]
    exact slices.pointsInto

theorem readsBack_of_mem_entries {e : Entry} (listed : e ∈ block.entries text) :
    e.ReadsBack text block block.lowered := by
  obtain ⟨d, inside, rfl⟩ := List.mem_map.mp listed
  exact ProjectBlock.readsBack_of_read read inside

end Read

/-- What the lexer and the reader report only has to point into the text. -/
theorem Diagnostic.MadeBy.points {d : Diagnostic} {stage : Phase} {text : String}
    (made : d.MadeBy stage) (other : stage ≠ .semantic) (inside : d.range.PointsInto text.toList) :
    d.Points text where
  inside := inside
  node := fun semantic => absurd (made.1.symm.trans semantic) other

/-- Every diagnostic of a text points into it, and those of the rules at their nodes. -/
theorem diagnostics_point (text : String) : ∀ d ∈ (tolerant text).diagnostics, d.Points text := by
  intro d found
  cases read : ProjectBlock.ofLexemes (scan text.toList).lexemes with
  | error fault =>
    rw [tolerant_of_fault read] at found
    rcases List.mem_append.mp found with scanned | syntactic
    · exact (scan_stage _ d scanned).1.points (by decide) (pointsInto_of_scan scanned)
    · obtain rfl := List.mem_singleton.mp syntactic
      exact fault.diagnostic_stage.1.points (by decide) (pointsInto_of_fault read)
  | ok block =>
    rw [tolerant_of_block read] at found
    rcases List.mem_append.mp found with scanned | later
    · exact (scan_stage _ d scanned).1.points (by decide) (pointsInto_of_scan scanned)
    rcases List.mem_append.mp later with missing | semantic
    · have made := (block.diagnostics_stage d missing).1
      exact made.points (by decide) (pointsInto_of_block read missing)
    · rw [block.build_eq] at semantic
      obtain ⟨f, held, rfl⟩ := List.mem_map.mp semantic
      obtain ⟨e, listed, node, offers⟩ := exists_entry_of_finding held
      refine ⟨(readsBack_of_mem_entries read listed).pointsInto offers, fun _ => ?_⟩
      refine ⟨block.lowered, ⟨block.entries text.toList⟩, ?_, ⟨e, listed, node, offers⟩, ?_⟩
      · rw [tolerant_of_block read, block.build_eq]
        rfl
      · -- Without namesakes the id of the node is that of one entry only.
        intro names other inside same
        rw [← block.filterMap_definedName?_entries text.toList] at names
        have distinct := nodup_ids (fun _ _ _ split => ProjectBlock.entry_id split)
          (block.pairwise_entry_ids text.toList) names
        have ids : other.id = e.id := Option.some.inj (same.symm.trans node)
        rw [List.inj_on_of_nodup_map distinct inside listed ids]
        exact offers

/-- A project with a character that is no token, and with a component and a parameter that are not
known, behind characters of several bytes. -/
def oddText : String :=
  "project \"Ünïts\" \x7b screen Main \x7b layout stack(widht: \"ß\") \x7b\n" ++
  "§ component Card title: \"é\" \x7d \x7d \x7d\n"

theorem diagnostics_point_oddText :
    (tolerant oddText).diagnostics.map Diagnostic.code =
        [.unexpectedCharacter, .layoutUnknownParameter, .componentUnknownType] ∧
      ∃ d ∈ (tolerant oddText).diagnostics, d.phase = .semantic ∧ d.Points oddText := by
  have codes : (tolerant oddText).diagnostics.map Diagnostic.code =
      [.unexpectedCharacter, .layoutUnknownParameter, .componentUnknownType] := by decide +kernel
  have listed : .componentUnknownType ∈ (tolerant oddText).diagnostics.map Diagnostic.code := by
    rw [codes]
    decide
  obtain ⟨d, found, code⟩ := List.mem_map.mp listed
  exact ⟨codes, d, found, congrArg Code.phase code, diagnostics_point oddText d found⟩

end Wireframe
